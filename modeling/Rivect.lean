import Rivect.Scheduler.Model
import Rivect.Lib.Run
import Rivect.Lib.Fallible
import Rivect.Lib.Tally
import Rivect.Scheduler.Invariant
import Rivect.Actions.Catalog
import Rivect.Actions.Order
import Rivect.Actions.Registry
import Rivect.Actions.Selection
import Rivect.Actions.Stages
import Rivect.Base.Cutover
import Rivect.Base.Exact
import Rivect.Store.Mutators
import Rivect.Broker.Outcomes
import Rivect.Broker.Epochs
import Rivect.Base.Sets
import Rivect.Dispatch.Wait
import Rivect.Learning.Instructions
import Rivect.Ledger.Conservation
import Rivect.Ledger.Resolution
import Rivect.Ledger.Totals
import Rivect.Ledger.WorkBound
import Rivect.Lib.Paging
import Rivect.Policy.Decide
import Rivect.Policy.Encoding
import Rivect.Policy.Resolution
import Rivect.Policy.Respelling
import Rivect.Procedure.Retention
import Rivect.Scheduler.Accounting
import Rivect.Scheduler.Cancellation
import Rivect.Scheduler.Parentage
import Rivect.Scheduler.WakeUp
import Rivect.TaskStore.Compaction
import Rivect.TaskStore.Completion
import Rivect.TaskStore.Gate
import Rivect.TaskStore.Pages
import Rivect.TaskStore.Questions
import Rivect.TaskStore.Snapshots
import Rivect.TaskStore.Support
import Rivect.Sandbox.Seccomp
import Rivect.Providers.MessagesSends
import Rivect.Providers.SigningDate
import Rivect.Sandbox.Transcript
import Rivect.Executor.Capture
import Rivect.Providers.Replay
import Rivect.Index.Slices
import Rivect.Index.Relations
import Rivect.Index.Repairs
import Rivect.Sandbox.Frames
import Rivect.Executor.Settlement
import Rivect.Sharing.Observers
import Rivect.Supervision.Progress
import Rivect.Resources.Membership
import Rivect.Lib.Lines
import Rivect.Resources.Output
import Rivect.Resources.Notifications
import Rivect.Providers.EventStream
import Rivect.Providers.SsePlain
import Rivect.Update.Truth
import Rivect.Mcp.Frames
import Rivect.Mcp.Settlement
import Rivect.Index.Limits
import Rivect.Index.Sealed
import Rivect.Config.Resolution
import Rivect.Executor.Binding
import Rivect.Sandbox.Status
import Rivect.Sandbox.StatusText
import Rivect.Sandbox.TaskStatus
import Rivect.Executor.ZeroTests
import Rivect.Lib.Places
import Rivect.Policy.Ipv4
import Rivect.Policy.Loopback
import Rivect.Executor.OwnerContext
import Rivect.Providers.Login
