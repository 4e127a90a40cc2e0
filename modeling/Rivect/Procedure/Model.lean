import Mathlib.Data.List.MinMax
import Rivect.Lib.Rows
import Rivect.TaskStore.Tables

/-! # Saved procedure segments and their runs

The types of `src/procedure.rs`, the run tables of `src/state/sql/learning.sql` and the calls of
`src/state/learning.rs` on them. A column holds its decoded value: a run's snapshot is the value
whose JSON the row keeps, and an attempt's state is the raw text that `StepStanding` parses.
-/

namespace Rivect.Procedure

open Lib

def PROCEDURE_SCHEMA_VERSION : ℕ := 1

def PROCEDURE_SEGMENT_RETENTION : ℕ := 32

def PROCEDURE_RUN_RETENTION : ℕ := 16

inductive StopTrigger where
  | unknownEffect
  | revokedRight
  | newMaterialChoice
deriving DecidableEq

structure SegmentStep where
  position : ℕ
  tool : String
  expectedOutput : String
deriving DecidableEq

structure SegmentTemplate where
  procedureId : String
  version : ℕ
  taskId : String
  selectionRevision : ℕ
  planRevision : ℕ
  schemaVersion : ℕ
  toolVersion : String
  steps : List SegmentStep
deriving DecidableEq

structure PendingFork where
  questionId : QuestionId
  revision : ℕ
deriving DecidableEq

structure SegmentSnapshot where
  selectionRevision : ℕ
  planRevision : ℕ
  toolVersion : String
  pending : Option PendingFork
deriving DecidableEq

inductive RunStart where
  | resume
  | fresh
deriving DecidableEq

inductive RunState where
  | running
  | completed
  | stopped
deriving DecidableEq

def RunState.asStr : RunState → String
  | .running => "running"
  | .completed => "completed"
  | .stopped => "stopped"

structure StopDecision where
  trigger : StopTrigger
  detail : String
deriving DecidableEq

structure ProcedureRun where
  runId : String
  procedureId : String
  procedureVersion : ℕ
  taskId : String
  snapshot : SegmentSnapshot
  cursor : ℕ
  state : RunState
  stop : Option StopDecision
deriving DecidableEq

structure SettledStep where
  position : ℕ
  tool : String
  attemptId : String
  result : String
deriving DecidableEq

/-- What an attempt proves about its effect. -/
inductive StepStanding where
  | notStarted
  | landed
  | unresolved
deriving DecidableEq

/-- A step without an attempt row never started. -/
def StepStanding.parse : Option String → Option StepStanding
  | none => some .notStarted
  | some state =>
    if state = "planned" ∨ state = "rejected" then some .notStarted
    else if state = "confirmed" then some .landed
    else if state = "running" ∨ state = "unknown" then some .unresolved
    else none

structure PreparedStep where
  position : ℕ
  tool : String
  attemptId : String
  standing : StepStanding
  result : Option String
deriving DecidableEq

inductive ProcedureError where
  | planSuperseded (recorded current : ℕ)
  | schemaChanged (recorded current : ℕ)
  | toolChanged (recorded current : String)
  | runMissing (runId : String)
  | stepOutOfOrder (runId : String) (position cursor : ℕ)
  | runNotOpen (runId state : String)
  | alreadyCompleted (procedureId runId : String)
  | store (error : StoreError)
deriving DecidableEq

/-- A segment is pinned to the schema, the tool and the plan it was derived from. -/
def SegmentTemplate.prepare (segment : SegmentTemplate) (snapshot : SegmentSnapshot) :
    Except ProcedureError Unit := do
  require (segment.schemaVersion = PROCEDURE_SCHEMA_VERSION)
    (.schemaChanged segment.schemaVersion PROCEDURE_SCHEMA_VERSION)
  require (segment.toolVersion = snapshot.toolVersion)
    (.toolChanged segment.toolVersion snapshot.toolVersion)
  require (snapshot.selectionRevision = segment.selectionRevision ∧
      snapshot.planRevision = segment.planRevision)
    (.planSuperseded segment.selectionRevision snapshot.selectionRevision)

/-! ## Tables -/

structure RunRow where
  runId : String
  procedureId : String
  procedureVersion : ℕ
  taskId : String
  snapshot : SegmentSnapshot
  cursor : ℕ
  stepCount : ℕ
  state : RunState
  stop : Option StopDecision
deriving DecidableEq

def RunRow.decode (row : RunRow) : ProcedureRun :=
  ⟨row.runId, row.procedureId, row.procedureVersion, row.taskId, row.snapshot, row.cursor,
    row.state, row.stop⟩

inductive StepState where
  | prepared
  | settled
deriving DecidableEq

structure StepRow where
  runId : String
  position : ℕ
  tool : String
  state : StepState
  attemptId : String
  result : String
deriving DecidableEq

def StepRow.settle (row : StepRow) (step : SettledStep) : StepRow :=
  { row with state := .settled, attemptId := step.attemptId, result := step.result }

/-- The state and the detail of an attempt, as its row holds them. -/
structure AttemptRow where
  state : String
  detail : Option String
deriving DecidableEq

/-- Rows stand in the order of their rowids. -/
structure ProcedureTables where
  segments : List SegmentTemplate
  runs : List RunRow
  steps : List StepRow
  attempts : String → Option AttemptRow

namespace ProcedureTables

def fresh : ProcedureTables := ⟨[], [], [], fun _ => none⟩

def stored (value : ℕ) : Except ProcedureError ℕ := (TaskStore.storedU64 value).mapError .store

/-- `PROCEDURE_RUN_ROW`. -/
def runRow (t : ProcedureTables) (runId : String) : Option RunRow :=
  rowAt RunRow.runId t.runs runId

def procedureRun (t : ProcedureTables) (runId : String) : Except ProcedureError ProcedureRun := do
  let row ← found (t.runRow runId) (.runMissing runId)
  .ok row.decode

/-- A call's write, and the run it reads back once the write is committed. -/
def readBack (t : ProcedureTables) (runId : String) (write : Except ProcedureError ProcedureTables) :
    ProcedureTables × Except ProcedureError ProcedureRun :=
  match write with
  | .ok t' => (t', t'.procedureRun runId)
  | .error e => (t, .error e)

/-- The rows of one run that an update meets. -/
def updateRun (t : ProcedureTables) (runId : String) (meets : RunRow → Bool)
    (update : RunRow → RunRow) : ProcedureTables :=
  { t with runs := t.runs.map fun row =>
      if row.runId = runId ∧ meets row then update row else row }

/-- The runs that leave take their step rows with them. -/
def evict (t : ProcedureTables) (runIds : List String) : ProcedureTables :=
  { t with
    runs := t.runs.filter (·.runId ∉ runIds)
    steps := t.steps.filter (·.runId ∉ runIds) }

/-- The terminal runs beyond the newest leave. -/
def pruneProcedureRuns (t : ProcedureTables) (keep : ℕ) : ProcedureTables :=
  t.evict ((((t.runs.filter (·.state ≠ .running)).map RunRow.runId).reverse).drop keep)

/-! ## Segments -/

/-- The segments beyond the newest leave with their runs. -/
def pruneProcedureSegments (t : ProcedureTables) (keep : ℕ) : ProcedureTables :=
  let dropped := ((t.segments.map SegmentTemplate.procedureId).reverse).drop keep
  let t := t.evict ((t.runs.filter (·.procedureId ∈ dropped)).map RunRow.runId)
  { t with segments := t.segments.filter (·.procedureId ∉ dropped) }

/-- The saved record of a segment stays. -/
def recordProcedureSegment (t : ProcedureTables) (template : SegmentTemplate) : ProcedureTables :=
  let segments :=
    if t.segments.any (·.procedureId = template.procedureId) then t.segments
    else t.segments ++ [template]
  { t with segments := segments }.pruneProcedureSegments PROCEDURE_SEGMENT_RETENTION

/-! ## Runs -/

/-- `RESUMABLE_PROCEDURE_RUN`. -/
def resumableProcedureRun (t : ProcedureTables) (procedureId : String) (procedureVersion : ℕ) :
    Except ProcedureError (Option ProcedureRun) := do
  let version ← stored procedureVersion
  .ok ((t.runs.filter fun row => row.procedureId = procedureId ∧
    row.procedureVersion = version ∧ row.state ≠ .completed).getLast?.map RunRow.decode)

/-- `COMPLETED_PROCEDURE_RUN`. -/
def completedProcedureRun (t : ProcedureTables) (procedureId : String) (procedureVersion : ℕ) :
    Except ProcedureError (Option String) := do
  let version ← stored procedureVersion
  .ok ((t.runs.filter fun row => row.procedureId = procedureId ∧
    row.procedureVersion = version ∧ row.state = .completed).getLast?.map RunRow.runId)

/-- `RESUME_PROCEDURE_RUN` on a run that stopped. -/
def reopenProcedureRun (t : ProcedureTables) (run : ProcedureRun) :
    ProcedureTables × Except ProcedureError ProcedureRun :=
  if run.state ≠ .stopped then (t, .ok run)
  else
    t.readBack run.runId (.ok (t.updateRun run.runId (·.state = .stopped) fun row =>
      { row with state := .running, stop := none }))

/-- A run begins with no settled step; its id is the one the call drew. -/
def insertProcedureRun (t : ProcedureTables) (segment : SegmentTemplate)
    (snapshot : SegmentSnapshot) (runId : String) : Except ProcedureError ProcedureTables := do
  let version ← stored segment.version
  let stepCount ← stored segment.steps.length
  require (∀ row ∈ t.runs, row.runId ≠ runId) (.store .storage)
  let row : RunRow :=
    { runId, procedureId := segment.procedureId, procedureVersion := version,
      taskId := segment.taskId, snapshot, cursor := 0, stepCount, state := .running, stop := none }
  .ok ({ t with runs := t.runs ++ [row] }.pruneProcedureRuns PROCEDURE_RUN_RETENTION)

/-- A completed segment runs again only on an explicit request. -/
def openProcedureRun (t : ProcedureTables) (segment : SegmentTemplate)
    (snapshot : SegmentSnapshot) (openAs : RunStart) (runId : String) :
    Except ProcedureError ProcedureTables := do
  let completed ←
    if openAs = .resume then t.completedProcedureRun segment.procedureId segment.version
    else .ok none
  match completed with
  | some completed => .error (.alreadyCompleted segment.procedureId completed)
  | none => t.insertProcedureRun segment snapshot runId

def startProcedureRun (t : ProcedureTables) (segment : SegmentTemplate)
    (snapshot : SegmentSnapshot) (openAs : RunStart) (runId : String) :
    ProcedureTables × Except ProcedureError ProcedureRun :=
  match segment.prepare snapshot with
  | .error e => (t, .error e)
  | .ok () =>
    match t.resumableProcedureRun segment.procedureId segment.version with
    | .error e => (t, .error e)
    | .ok (some run) => t.reopenProcedureRun run
    | .ok none => t.readBack runId (t.openProcedureRun segment snapshot openAs runId)

/-- The caller's copy of the run says which step is next; a row already there stays. -/
def prepareProcedureStep (t : ProcedureTables) (run : ProcedureRun) (position : ℕ)
    (tool attemptId : String) : Except ProcedureError ProcedureTables := do
  require (run.state = .running ∧ position = run.cursor + 1)
    (.stepOutOfOrder run.runId position run.cursor)
  let position ← stored position
  require (∀ row ∈ t.steps, ¬ (row.runId = run.runId ∧ row.position = position))
    (.stepOutOfOrder run.runId position run.cursor)
  .ok { t with steps := t.steps ++ [⟨run.runId, position, tool, .prepared, attemptId, ""⟩] }

/-- `PREPARED_PROCEDURE_STEP`, with the standing of the step's own attempt. -/
def preparedProcedureStep (t : ProcedureTables) (runId : String) :
    Except ProcedureError (Option PreparedStep) :=
  match (t.steps.filter fun row => row.runId = runId ∧ row.state = .prepared).argmin
      StepRow.position with
  | none => .ok none
  | some row => do
    let attempt := t.attempts row.attemptId
    let standing ← found (StepStanding.parse (attempt.map AttemptRow.state)) (.store .storage)
    .ok (some ⟨row.position, row.tool, row.attemptId, standing, attempt.bind AttemptRow.detail⟩)

/-- The prepared row of a step leaves. -/
def dropPrepared (t : ProcedureTables) (runId : String) (position : ℕ) : ProcedureTables :=
  { t with steps := t.steps.filter fun row =>
      !(row.runId = runId ∧ row.position = position ∧ row.state = .prepared) }

def releaseUnstartedProcedureStep (t : ProcedureTables) (runId : String) (position : ℕ) :
    Except ProcedureError (ProcedureTables × Bool) := do
  match ← t.preparedProcedureStep runId with
  | none => .ok (t, false)
  | some prepared =>
    if prepared.position ≠ position ∨ prepared.standing ≠ .notStarted then .ok (t, false)
    else
      let position ← stored position
      let released := t.dropPrepared runId position
      .ok (released, decide (released.steps.length < t.steps.length))

/-- `SETTLE_PROCEDURE_STEP`. -/
def markSettled (t : ProcedureTables) (runId : String) (step : SettledStep) : ProcedureTables :=
  { t with steps := t.steps.map fun row =>
      if row.runId = runId ∧ row.position = step.position ∧ row.state = .prepared then
        row.settle step
      else row }

/-- `ADVANCE_PROCEDURE_CURSOR`. -/
def advanceCursor (t : ProcedureTables) (runId : String) (cursor position : ℕ) : ProcedureTables :=
  t.updateRun runId (fun row => row.cursor = cursor ∧ row.state = .running) fun row =>
    { row with cursor := position }

/-- The two updates of one transaction; each must meet a row. -/
def settleWrite (t : ProcedureTables) (runId : String) (step : SettledStep) :
    Except ProcedureError ProcedureTables := do
  let run ← t.procedureRun runId
  let position ← stored step.position
  let cursor ← stored run.cursor
  require (∃ row ∈ t.steps, row.runId = runId ∧ row.position = position ∧ row.state = .prepared)
    (.stepOutOfOrder runId step.position run.cursor)
  require (∃ row ∈ t.runs, row.runId = runId ∧ row.cursor = cursor ∧ row.state = .running)
    (.stepOutOfOrder runId step.position run.cursor)
  .ok ((t.markSettled runId step).advanceCursor runId cursor position)

def settleProcedureStep (t : ProcedureTables) (runId : String) (step : SettledStep) :
    ProcedureTables × Except ProcedureError ProcedureRun :=
  t.readBack runId (t.settleWrite runId step)

/-- A conditional update of one run; without a row it refuses with the run's state. -/
def transition (t : ProcedureTables) (runId : String) (meets : RunRow → Bool)
    (update : RunRow → RunRow) : Except ProcedureError ProcedureTables :=
  if t.runs.any fun row => row.runId = runId ∧ meets row then .ok (t.updateRun runId meets update)
  else do
    let run ← t.procedureRun runId
    .error (.runNotOpen runId run.state.asStr)

/-- A run whose cursor is past its last step cannot complete, nor one that stopped. -/
def completeProcedureRun (t : ProcedureTables) (runId : String) :
    ProcedureTables × Except ProcedureError ProcedureRun :=
  t.readBack runId (t.transition runId
    (fun row => row.state = .running ∧ row.cursor = row.stepCount) fun row =>
      { row with state := .completed })

def stopProcedureRun (t : ProcedureTables) (runId : String) (decision : StopDecision) :
    ProcedureTables × Except ProcedureError ProcedureRun :=
  t.readBack runId (t.transition runId (fun row => row.state ≠ .completed) fun row =>
    { row with state := .stopped, stop := some decision })

end ProcedureTables

end Rivect.Procedure
