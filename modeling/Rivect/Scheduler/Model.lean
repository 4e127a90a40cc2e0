import Rivect.Contracts
import Rivect.Lib.Chain
import Rivect.Lib.Worklist

/-! # The task-tree scheduler

`src/scheduler.rs`. A call either answers or meets a `Fault`, the three ways the source can
leave a call without an answer: a subtraction below zero, an index out of range, a loop that
never ends. Hash maps are association lists with the newest entry first, the deque and the
vectors are lists.
-/

namespace Rivect

open Lib

abbrev NodeId := ℕ

inductive NodeState where
  | ready
  | running
  | waiting
  | completed
  | settled
  | cancelled
deriving DecidableEq

/-- `Completed | Cancelled | Settled`. -/
def NodeState.isTerminal : NodeState → Bool
  | .completed | .cancelled | .settled => true
  | .ready | .running | .waiting => false

structure Node where
  task : TaskId
  answer : AnswerSelection
  grantId : String
  parent : Option NodeId
  children : List NodeId
  unfinishedChildren : ℕ
  resourceUnits : ℕ
  state : NodeState
deriving DecidableEq

inductive WaitTransition where
  | released
  | alreadySatisfied
deriving DecidableEq

inductive CompleteTransition where
  | completed (resumed : Option NodeId)
  | ignoredCancelled
deriving DecidableEq

inductive DeliverVerdict where
  | observed
  | ignoredCancelled
deriving DecidableEq

inductive SchedulerError where
  | unknownNode (node : NodeId)
  | notRunning (node : NodeId)
  | parentSettled (parent : NodeId)
  | unitsExceedCap (units cap : ℕ)
deriving DecidableEq

inductive Fault where
  | underflow
  | outOfBounds
  | diverges
deriving DecidableEq

structure Scheduler where
  maxSlots : ℕ
  resourceCap : ℕ
  nodes : List Node
  ready : List NodeId
  running : ℕ
  heldUnits : ℕ
  ignoredLateDeliveries : ℕ
  parents : List (TaskId × TaskId)
  linkage : List (TaskId × TaskId)
  byTask : List (TaskId × NodeId)
  cancelledTasks : List TaskId
deriving DecidableEq

namespace Scheduler

def new (maxSlots resourceCap : ℕ) : Scheduler where
  maxSlots := maxSlots
  resourceCap := resourceCap
  nodes := []
  ready := []
  running := 0
  heldUnits := 0
  ignoredLateDeliveries := 0
  parents := []
  linkage := []
  byTask := []
  cancelledTasks := []

/-- `self.nodes[node]`. -/
def nodeAt (s : Scheduler) (node : NodeId) : Except Fault Node :=
  match s.nodes[node]? with
  | some n => .ok n
  | none => .error .outOfBounds

def nodeState (s : Scheduler) (node : NodeId) : Except SchedulerError NodeState :=
  match s.nodes[node]? with
  | some n => .ok n.state
  | none => .error (.unknownNode node)

/-- The node's slot and reservation are given back. -/
def release (s : Scheduler) (units : ℕ) : Except Fault Scheduler :=
  if s.running = 0 ∨ s.heldUnits < units then .error .underflow
  else .ok { s with running := s.running - 1, heldUnits := s.heldUnits - units }

def setState (s : Scheduler) (node : NodeId) (state : NodeState) : Scheduler :=
  { s with nodes := s.nodes.modify node fun n => { n with state := state } }

def pushNode (s : Scheduler) (n : Node) : Scheduler :=
  { s with
    nodes := s.nodes ++ [n]
    byTask := (n.task, s.nodes.length) :: s.byTask
    ready := s.ready ++ [s.nodes.length] }

def attachChild (s : Scheduler) (parent : NodeId) : Scheduler :=
  { s with
    nodes := s.nodes.modify parent fun n =>
      { n with
        children := n.children ++ [s.nodes.length]
        unfinishedChildren := n.unfinishedChildren + 1 } }

def submit (s : Scheduler) (parent : Option NodeId) (task : TaskId) (answer : AnswerSelection)
    (grantId : String) (resourceUnits : ℕ) : Scheduler × Except SchedulerError NodeId :=
  if s.resourceCap < resourceUnits then
    (s, .error (.unitsExceedCap resourceUnits s.resourceCap))
  else
    let node : Node :=
      { task := task
        answer := answer
        grantId := grantId
        parent := parent
        children := []
        unfinishedChildren := 0
        resourceUnits := resourceUnits
        state := .ready }
    match parent with
    | none => (s.pushNode node, .ok s.nodes.length)
    | some p =>
      match s.nodeState p with
      | .error e => (s, .error e)
      | .ok state =>
        if state.isTerminal then (s, .error (.parentSettled p))
        else ((s.attachChild p).pushNode node, .ok s.nodes.length)

/-- The first record of a task's parent wins. -/
def adopt (s : Scheduler) (task parent : TaskId) : Scheduler :=
  if (s.parents.lookup task).isSome then s
  else
    { s with
      parents := (task, parent) :: s.parents
      linkage := s.linkage ++ [(task, parent)] }

def settleParent (s : Scheduler) (child : NodeId) : Except Fault (Scheduler × Option NodeId) := do
  let c ← s.nodeAt child
  match c.parent with
  | none => .ok (s, none)
  | some parent =>
    let n ← s.nodeAt parent
    let unfinished := if 0 < n.unfinishedChildren then n.unfinishedChildren - 1 else 0
    if n.state = .waiting ∧ unfinished = 0 then
      .ok ({ s with
              nodes := s.nodes.set parent { n with unfinishedChildren := 0, state := .ready }
              ready := s.ready ++ [parent] }, some parent)
    else
      .ok ({ s with nodes := s.nodes.set parent { n with unfinishedChildren := unfinished } }, none)

/-- The walk up the recorded parentage, bounded by one look at every recorded child. -/
def walkUp {β : Type} (s : Scheduler) (hit : TaskId → Option β) (start : Option TaskId) :
    Except Fault (Option β) :=
  match firstHit (fun id => s.parents.lookup id) hit (s.parents.length + 1) start with
  | some answer => .ok answer
  | none => .error .diverges

def runnableParent (s : Scheduler) (task : TaskId) : Except Fault (Option NodeId) :=
  s.walkUp (fun id => s.byTask.lookup id) (s.parents.lookup task)

def inCancelledSubtree (s : Scheduler) (task : TaskId) : Except Fault Bool := do
  let found ← s.walkUp (fun id => if id ∈ s.cancelledTasks then some () else none) (some task)
  .ok found.isSome

def taskSubtree (s : Scheduler) (task : TaskId) : Except Fault (List TaskId) :=
  match sweep s.linkage (s.linkage.length + 1) 0 [task] with
  | some subtree => .ok subtree
  | none => .error .diverges

/-- A node leaves its live state for a terminal one, giving back its slot if it ran. -/
def endNode (s : Scheduler) (node : NodeId) (state : NodeState) : Except Fault Scheduler := do
  let n ← s.nodeAt node
  let s ← if n.state = .running then s.release n.resourceUnits else .ok s
  .ok (s.setState node state)

def retire (s : Scheduler) (node : NodeId) : Except Fault Scheduler := do
  let n ← s.nodeAt node
  if n.state.isTerminal then .ok s
  else
    let ready := if n.state = .ready then s.ready.filter (· ≠ node) else s.ready
    let s ← { s with ready := ready }.endNode node .settled
    let (s, _) ← s.settleParent node
    .ok s

def submitAnswered (s : Scheduler) (task : TaskId) (answer : AnswerSelection) (grantId : String) :
    Except Fault (Scheduler × Except SchedulerError (Option NodeId)) := do
  if ← s.inCancelledSubtree task then
    return (s, .ok none)
  let s ← match s.byTask.lookup task with
    | some previous => s.retire previous
    | none => .ok s
  let parent ← s.runnableParent task
  match s.submit parent task answer grantId 1 with
  | (s, .ok node) => .ok (s, .ok (some node))
  | (s, .error (.parentSettled _)) => .ok (s, .ok none)
  | (s, .error e) => .ok (s, .error e)

/-- The drained ids in pre-order: the popped nodes that are not terminal. -/
def drained (s : Scheduler) (root : NodeId) : Except Fault (List NodeId) :=
  let children := fun id => ((s.nodes[id]?).map Node.children).getD []
  match depthFirst children s.nodes.length [root] [] with
  | none => .error .diverges
  | some popped =>
    if popped.all (· < s.nodes.length) then
      .ok (popped.filter fun id => (s.nodes[id]?).any fun n => !n.state.isTerminal)
    else .error .outOfBounds

def cancelTree (s : Scheduler) (root : NodeId) :
    Except Fault (Scheduler × Except SchedulerError (List NodeId)) := do
  match s.nodeState root with
  | .error e => .ok (s, .error e)
  | .ok rootState =>
    let cancelled ← s.drained root
    let s ← cancelled.foldlM (fun s node => s.endNode node .cancelled) s
    let s := { s with
      ready := s.ready.filter fun queued => (s.nodes[queued]?).any fun n => n.state = .ready }
    if rootState.isTerminal then .ok (s, .ok cancelled)
    else
      let (s, _) ← s.settleParent root
      .ok (s, .ok cancelled)

/-- One turn of the drain over the task subtree; `?` leaves the loop at the first refusal. -/
def cancelTask (acc : Scheduler × Except SchedulerError (List NodeId)) (task : TaskId) :
    Except Fault (Scheduler × Except SchedulerError (List NodeId)) :=
  match acc with
  | (s, .error e) => .ok (s, .error e)
  | (s, .ok cancelled) =>
    let s := { s with
      cancelledTasks := if task ∈ s.cancelledTasks then s.cancelledTasks
        else task :: s.cancelledTasks }
    match s.byTask.lookup task with
    | none => .ok (s, .ok cancelled)
    | some root => do
      match ← s.cancelTree root with
      | (s, .ok more) => .ok (s, .ok (cancelled ++ more))
      | (s, .error e) => .ok (s, .error e)

def cancelTaskTree (s : Scheduler) (task : TaskId) :
    Except Fault (Scheduler × Except SchedulerError (List NodeId)) := do
  let subtree ← s.taskSubtree task
  subtree.foldlM cancelTask (s, .ok [])

/-- The node's own task and every node ancestor's, root first. -/
def scopeChain (s : Scheduler) (node : NodeId) : Except Fault (List TaskId) :=
  let rec walk : ℕ → Option NodeId → List TaskId → Except Fault (List TaskId)
    | _, none, chain => .ok chain
    | 0, some _, _ => .error .diverges
    | n + 1, some id, chain => do
      let node ← s.nodeAt id
      walk n node.parent (node.task :: chain)
  walk (s.nodes.length + 1) (some node) []

def admitNextBounded (s : Scheduler) (reserve : List TaskId → ℕ → Bool) :
    Except Fault (Scheduler × Option NodeId) :=
  match s.ready with
  | [] => .ok (s, none)
  | node :: rest => do
    let n ← s.nodeAt node
    if s.running = s.maxSlots then
      return (s, none)
    let total := s.heldUnits + n.resourceUnits
    -- `checked_add` on `u32`
    if 2 ^ 32 ≤ total ∨ s.resourceCap < total then
      return (s, none)
    let scopes ← s.scopeChain node
    if reserve scopes n.resourceUnits then
      .ok ({ s.setState node .running with
              ready := rest
              running := s.running + 1
              heldUnits := total }, some node)
    else
      .ok (s, none)

def admitNext (s : Scheduler) : Except Fault (Scheduler × Option NodeId) :=
  s.admitNextBounded fun _ _ => true

def beginWait (s : Scheduler) (node : NodeId) :
    Except Fault (Scheduler × Except SchedulerError WaitTransition) :=
  match s.nodes[node]? with
  | none => .ok (s, .error (.unknownNode node))
  | some n =>
    if n.state ≠ .running then .ok (s, .error (.notRunning node))
    else if n.unfinishedChildren = 0 then .ok (s, .ok .alreadySatisfied)
    else do
      let s ← (s.setState node .waiting).release n.resourceUnits
      .ok (s, .ok .released)

def complete (s : Scheduler) (node : NodeId) :
    Except Fault (Scheduler × Except SchedulerError CompleteTransition) :=
  match s.nodeState node with
  | .error e => .ok (s, .error e)
  | .ok .running => do
    let s ← s.endNode node .completed
    let (s, resumed) ← s.settleParent node
    .ok (s, .ok (.completed resumed))
  | .ok .cancelled =>
    .ok ({ s with ignoredLateDeliveries := s.ignoredLateDeliveries + 1 }, .ok .ignoredCancelled)
  | .ok _ => .ok (s, .error (.notRunning node))

def settle (s : Scheduler) (node : NodeId) :
    Except Fault (Scheduler × Except SchedulerError Unit) :=
  match s.nodeState node with
  | .error e => .ok (s, .error e)
  | .ok .running => do
    let s ← s.endNode node .settled
    let (s, _) ← s.settleParent node
    .ok (s, .ok ())
  | .ok _ => .ok (s, .error (.notRunning node))

def deliver (s : Scheduler) (event : Event) : Except Fault (Scheduler × DeliverVerdict) :=
  match event.taskId with
  | none => .ok (s, .observed)
  | some task =>
    match s.byTask.lookup task with
    | none => .ok (s, .observed)
    | some node => do
      let n ← s.nodeAt node
      if n.state = .cancelled then
        .ok ({ s with ignoredLateDeliveries := s.ignoredLateDeliveries + 1 }, .ignoredCancelled)
      else
        .ok (s, .observed)

/-- The mutating calls, with their arguments. -/
inductive Op where
  | submit (parent : Option NodeId) (task : TaskId) (answer : AnswerSelection) (grantId : String)
      (resourceUnits : ℕ)
  | submitAnswered (task : TaskId) (answer : AnswerSelection) (grantId : String)
  | adopt (task parent : TaskId)
  | admitNext
  | admitNextBounded (reserve : List TaskId → ℕ → Bool)
  | beginWait (node : NodeId)
  | complete (node : NodeId)
  | settle (node : NodeId)
  | cancelTree (root : NodeId)
  | cancelTaskTree (task : TaskId)
  | deliver (event : Event)

/-- The state a call leaves, whatever it answers. -/
def after (s : Scheduler) : Op → Except Fault Scheduler
  | .submit parent task answer grantId units => .ok (s.submit parent task answer grantId units).1
  | .submitAnswered task answer grantId => do .ok (← s.submitAnswered task answer grantId).1
  | .adopt task parent => .ok (s.adopt task parent)
  | .admitNext => do .ok (← s.admitNext).1
  | .admitNextBounded reserve => do .ok (← s.admitNextBounded reserve).1
  | .beginWait node => do .ok (← s.beginWait node).1
  | .complete node => do .ok (← s.complete node).1
  | .settle node => do .ok (← s.settle node).1
  | .cancelTree root => do .ok (← s.cancelTree root).1
  | .cancelTaskTree task => do .ok (← s.cancelTaskTree task).1
  | .deliver event => do .ok (← s.deliver event).1

/-- A call that returned. -/
def Calls (s : Scheduler) (op : Op) (s' : Scheduler) : Prop := s.after op = .ok s'

end Scheduler

end Rivect
