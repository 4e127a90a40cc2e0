import Rivect.TaskStore.Tables

/-! # The effect gate and the plan's lifecycle rule

What the plan tables say about a task: whether its gate is open, what holds its lifecycle, and
the settlement that every plan write ends with.
-/

namespace Rivect

open Lib

def PLAN_WORK : String := "plan_work"

def ASSESS_PLAN : String := "assess_plan"

/-- The prefix plan rows carry among a snapshot's obligations. -/
def PLAN_OBLIGATION_PREFIX : String := "plan:"

def PLAN_BLOCKER_OWNER : String := "plan"

def planBlocker (reason : ErrorCode) (actionId : String) : Blocker :=
  ⟨reason, PLAN_BLOCKER_OWNER, .dependency ⟨actionId⟩⟩

namespace PlanObligationRecord

/-- Whether the row holds the lifecycle. An unresolved row always does; a fork never does. -/
def holdsLifecycle (row : PlanObligationRecord) : Bool :=
  if row.applicability = .unresolved then true
  else
    match row.blocker with
    | none => false
    | some blocker =>
      match blocker.condition with
      | .decision .. => false
      | .noReadyAction | .dependency _ | .reconciliation _ =>
        -- a required row that no handler of this build can close holds only completion
        !(!row.stage && row.handler.isNone && row.applicability = .required &&
          blocker.reason = .capabilityUnavailable)

/-- The row waits on this question at this revision. -/
def waitsOn (questionId : QuestionId) (revision : ℕ) (row : PlanObligationRecord) : Bool :=
  match row.blocker with
  | some ⟨_, _, .decision q r⟩ => q = questionId ∧ r = revision
  | _ => false

def isOpenStage (row : PlanObligationRecord) : Bool :=
  row.stage && row.applicability = .required && row.execution ≠ .satisfied

def requiresPlan (row : PlanObligationRecord) : Bool :=
  row.capability = PLAN_WORK && row.applicability = .required

end PlanObligationRecord

/-- `LATEST_PLAN_VERDICT_FOR_SELECTION`: of the revisions a selection recorded, the last. -/
def latestVerdict (plans : List PlanRevisionRecord) (selectionRevision : ℕ) :
    Option PlanVerdict :=
  ((plans.filter (·.selectionRevision = selectionRevision)).getLast?).bind
    PlanRevisionRecord.verdict

/-- The stages that are not closed; a plan that has not passed counts as its assessment. -/
def openStages (selection : PlanSelectionRecord) (rows : List PlanObligationRecord)
    (plans : List PlanRevisionRecord) : List String :=
  let stages := (rows.filter (·.isOpenStage)).map PlanObligationRecord.capability
  if rows.any (·.requiresPlan) ∧ latestVerdict plans selection.revision ≠ some .pass ∧
      ASSESS_PLAN ∉ stages then stages ++ [ASSESS_PLAN]
  else stages

/-- The gate rule over a task's plan tables. -/
def gate (selection : Option PlanSelectionRecord) (rows : List PlanObligationRecord)
    (plans : List PlanRevisionRecord) : PlanGate :=
  match selection with
  | none => .unassessed
  | some selection =>
    let unresolved := (rows.filter (·.applicability = .unresolved)).map
      PlanObligationRecord.capability
    let stages := openStages selection rows plans
    if unresolved = [] ∧ stages = [] then .open else .paused unresolved stages

/-- A row that a selection records; every row starts pending. -/
structure PlanRowWrite where
  capability : String
  applicability : ObligationApplicability
  stage : Bool
  handler : Option String
  blocker : Option Blocker
deriving DecidableEq

def PlanRowWrite.row (row : PlanRowWrite) : PlanObligationRecord :=
  { capability := row.capability
    applicability := row.applicability
    execution := .pending
    stage := row.stage
    handler := row.handler
    blocker := row.blocker
    outcome := none }

structure PlanSelectionWrite where
  factsDigest : String
  requestKind : RequestKind
  rows : List PlanRowWrite
deriving DecidableEq

inductive PlanRowChange where
  | close (execution : ObligationExecution) (outcome : PlanOutcome)
  | block (blocker : Blocker)
deriving DecidableEq

/-- The change on the row it is applied to; a close clears the blocker. -/
def PlanRowChange.apply (change : PlanRowChange) (row : PlanObligationRecord) :
    PlanObligationRecord :=
  match change with
  | .close execution outcome =>
    { row with execution := execution, outcome := some outcome, blocker := none }
  | .block blocker => { row with blocker := some blocker }

structure PlanRowUpdate where
  capability : String
  handler : String
  selectionRevision : ℕ
  factsDigest : String
  change : PlanRowChange
deriving DecidableEq

structure PlanRevisionWrite where
  handler : String
  reopens : String
  selectionRevision : ℕ
  factsDigest : String
  body : String
deriving DecidableEq

structure PlanAssessmentWrite where
  handler : String
  selectionRevision : ℕ
  factsDigest : String
  planRevision : ℕ
  verdict : PlanVerdict
  assessment : String
  changes : List (String × PlanRowChange)
deriving DecidableEq

/-- The greatest revision of a task's plans. -/
def maxRevision (plans : List PlanRevisionRecord) : ℕ :=
  (plans.map PlanRevisionRecord.revision).foldl max 0

namespace TaskStore

def gateOn (s : TaskStore) (taskId : TaskId) : PlanGate :=
  gate (s.planSelections taskId) (s.planObligations taskId) (s.plans taskId)

def planRowHoldsOn (s : TaskStore) (taskId : TaskId) : Bool :=
  (s.planObligations taskId).any (·.holdsLifecycle)

/-- A gate hold or a plan row holds the lifecycle. -/
def heldOn (s : TaskStore) (taskId : TaskId) : Bool :=
  (s.planGateHolds taskId).isSome || s.planRowHoldsOn taskId

/-- `PLAN_RELEASE_BLOCKING_SOURCES`. -/
def planReleaseBlockingSources (s : TaskStore) (taskId : TaskId) : ℕ :=
  s.unresolvedObligations taskId + s.unknownAttempts taskId + (s.pendingOf taskId).length

/-- Returns a blocked task to running when the plan made the block and no other source holds
it. -/
def releasePlanOwnedBlock (s : TaskStore) (taskId : TaskId) : TaskStore :=
  if s.planBlocks taskId ∧ s.planReleaseBlockingSources taskId = 0 then
    (s.planReleaseTask taskId).setPlanBlock taskId false
  else s

/-- The plan's lifecycle rule: a held running task is blocked and marked as the plan's, and only
a block of the plan's own is released. -/
def settlePlanLifecycle (s : TaskStore) (taskId : TaskId) : Except StoreError TaskStore := do
  let task ← found (s.tasks taskId) .storage
  .ok (match task.lifecycle with
    | .running =>
      if s.heldOn taskId then (s.planBlockRunningTask taskId).setPlanBlock taskId true else s
    | .blocked => if s.heldOn taskId then s else s.releasePlanOwnedBlock taskId
    | .waiting | .paused | .completed | .cancelled => s)

/-- An opened gate drops its hold and a closed one names its current kind. -/
def settlePlanGateHold (s : TaskStore) (taskId : TaskId) : TaskStore :=
  match s.planGateHolds taskId with
  | none => s
  | some hold =>
    match s.gateOn taskId with
    | .open => s.setPlanGateHold taskId none
    | .unassessed =>
      if hold ≠ .unassessed then s.setPlanGateHold taskId (some .unassessed) else s
    | .paused .. => if hold ≠ .paused then s.setPlanGateHold taskId (some .paused) else s

def settlePlanState (s : TaskStore) (taskId : TaskId) : Except StoreError TaskStore :=
  (s.settlePlanGateHold taskId).settlePlanLifecycle taskId

/-- Plan writes name a live task. -/
def requireOpenTask (s : TaskStore) (taskId : TaskId) : Except StoreError Unit := do
  let task ← found (s.tasks taskId) (missingTask taskId)
  require (task.lifecycle.isTerminal = false) .alreadyTerminal

/-- Facts bound to anything but the current selection close nothing. -/
def checkPlanBinding (s : TaskStore) (taskId : TaskId) (selectionRevision : ℕ)
    (factsDigest : String) : Except StoreError Unit := do
  s.requireOpenTask taskId
  let current ← found (s.planSelections taskId) (.conflict .planSelectionMissing)
  require (current.revision = selectionRevision ∧ current.factsDigest = factsDigest)
    (.conflict (.planSelectionStale current.revision))

/-- One row change: only the stored handler writes its row, and an unresolved row takes no
handler's write. -/
def applyPlanRowChange (s : TaskStore) (taskId : TaskId) (capability handler : String)
    (change : PlanRowChange) : Except StoreError TaskStore := do
  let row ← found ((s.planObligations taskId).find? (·.capability = capability))
    (.conflict (.planRowMissing capability))
  require (row.handler = some handler) (.conflict (.planRowHandler capability handler))
  require (row.applicability ≠ .unresolved) (.conflict (.planRowUnresolved capability))
  .ok (s.updatePlanRows taskId (·.capability = capability) change.apply)

/-- Every plan row of the task goes unresolved; nothing else on it changes. -/
def unresolvePlanRows (s : TaskStore) (taskId : TaskId) : TaskStore :=
  s.updatePlanRows taskId (fun _ => true) fun row => { row with applicability := .unresolved }

/-- A block the plan did not make takes the plan's mark with it. -/
def clearPlanBlock (s : TaskStore) (taskId : TaskId) : TaskStore := s.setPlanBlock taskId false

/-! ## The plan writes -/

/-- Kills the question that one row of the replaced selection waits on. -/
def supersedePlanQuestion (sessionId : SessionId) (taskId : TaskId)
    (selectionRevision nextSelectionRevision : ℕ) (acc : TaskStore × Bool)
    (row : PlanObligationRecord) : Except StoreError (TaskStore × Bool) :=
  match row.blocker with
  | some ⟨_, _, .decision questionId revision⟩ => do
    let stored ← storedU64 revision
    let dies := fun q : QuestionRow =>
      decide (q.questionId = questionId ∧ q.taskId = taskId ∧ q.revision = stored)
    match acc.1.killed dies with
    | [] => .ok acc
    | q :: _ =>
      let s ← (acc.1.supersede dies).appendEvent sessionId (some taskId)
        (questionId.val, q.revision) "question.superseded"
        [("question_id", .string questionId.val),
          ("question_revision", .number q.revision),
          ("selection_revision", .number selectionRevision),
          ("next_selection_revision", .number nextSelectionRevision)] "state"
      .ok (s, true)
  | _ => .ok acc

def supersedePlanQuestions (s : TaskStore) (sessionId : SessionId) (taskId : TaskId)
    (selectionRevision nextSelectionRevision : ℕ) : Except StoreError TaskStore := do
  let (s, superseded) ← (s.planObligations taskId).foldlM
    (supersedePlanQuestion sessionId taskId selectionRevision nextSelectionRevision) (s, false)
  .ok (if superseded then s.supersessionResumesTask taskId else s)

/-- A changed selection supersedes the questions that the replaced one's rows wait on. -/
def supersedeReplaced (s : TaskStore) (sessionId : SessionId) (taskId : TaskId) (next : ℕ) :
    Except StoreError TaskStore :=
  match s.planSelections taskId with
  | some current => s.supersedePlanQuestions sessionId taskId current.revision next
  | none => .ok s

/-- The applicability that identical facts give back to an unresolved row. -/
def recovered (derived : List PlanRowWrite) (row : PlanObligationRecord) :
    Option ObligationApplicability :=
  if row.applicability = .unresolved then
    (derived.find? fun d => d.capability = row.capability ∧ d.applicability ≠ .unresolved).map
      PlanRowWrite.applicability
  else none

/-- The in-place reset: none while a criterion obligation is unresolved. -/
def resetRecoveredPlanRows (s : TaskStore) (taskId : TaskId) (derived : List PlanRowWrite) :
    TaskStore × Bool :=
  if 0 < s.unresolvedObligations taskId then (s, false)
  else
    (s.setPlanRows taskId ((s.planObligations taskId).map fun row =>
        match recovered derived row with
        | some applicability => { row with applicability := applicability }
        | none => row),
      (s.planObligations taskId).any fun row => (recovered derived row).isSome)

def recordPlanSelection (s : TaskStore) (sessionId : SessionId) (taskId : TaskId)
    (selection : PlanSelectionWrite) : Except StoreError (TaskStore × PlanSelectionRecord) := do
  s.requireOpenTask taskId
  match (s.planSelections taskId).filter (·.factsDigest = selection.factsDigest) with
  | some current =>
    let (s', reset) := s.resetRecoveredPlanRows taskId selection.rows
    if reset then
      let s ← s'.settlePlanState taskId
      .ok (s, current)
    else .ok (s, current)
  | none =>
    let revision := (s.planSelections taskId).elim 1 (·.revision + 1)
    let s ← s.supersedeReplaced sessionId taskId revision
    let stored ← storedU64 revision
    let record : PlanSelectionRecord := ⟨stored, selection.factsDigest, selection.requestKind⟩
    -- the primary key of the rows
    require (selection.rows.map PlanRowWrite.capability).Nodup .storage
    let s := (s.setPlanSelection taskId record).setPlanRows taskId
      (selection.rows.map PlanRowWrite.row)
    let s ← s.settlePlanState taskId
    .ok (s, record)

def updatePlanRow (s : TaskStore) (taskId : TaskId) (update : PlanRowUpdate) :
    Except StoreError TaskStore := do
  s.checkPlanBinding taskId update.selectionRevision update.factsDigest
  let s ← s.applyPlanRowChange taskId update.capability update.handler update.change
  s.settlePlanState taskId

/-- `REOPEN_PLAN_ROWS_BY_HANDLER`. -/
def reopenPlanRowsByHandler (s : TaskStore) (taskId : TaskId) (handler : String) : TaskStore :=
  s.updatePlanRows taskId (fun row => row.handler = some handler ∧ row.applicability = .required)
    fun row => { row with execution := .pending, outcome := none, blocker := none }

def recordPlanRevision (s : TaskStore) (taskId : TaskId) (revision : PlanRevisionWrite) :
    Except StoreError (TaskStore × ℕ) := do
  s.checkPlanBinding taskId revision.selectionRevision revision.factsDigest
  let planRevision ← storedU64 (maxRevision (s.plans taskId) + 1)
  let s := s.setPlans taskId (s.plans taskId ++
    [⟨planRevision, revision.selectionRevision, revision.body, none, none⟩])
  let s ← s.applyPlanRowChange taskId revision.handler revision.handler
    (.close .satisfied (.revision planRevision))
  let s := s.reopenPlanRowsByHandler taskId revision.reopens
  let s ← s.settlePlanState taskId
  .ok (s, planRevision)

/-- The revision that `ASSESS_PLAN_REVISION` judges: the task's latest, still unjudged, of the
selection it names. -/
def assessable (plans : List PlanRevisionRecord) (planRevision selectionRevision : ℕ)
    (plan : PlanRevisionRecord) : Bool :=
  plan.revision = planRevision ∧ plan.selectionRevision = selectionRevision ∧
    plan.verdict = none ∧ plan.revision = maxRevision plans

def recordPlanAssessment (s : TaskStore) (taskId : TaskId) (assessment : PlanAssessmentWrite) :
    Except StoreError TaskStore := do
  s.checkPlanBinding taskId assessment.selectionRevision assessment.factsDigest
  let stored ← storedU64 assessment.planRevision
  let judged := assessable (s.plans taskId) stored assessment.selectionRevision
  require ((s.plans taskId).any judged) (.conflict (.planNotAssessable assessment.planRevision))
  let s := s.setPlans taskId ((s.plans taskId).map fun plan =>
    if judged plan then
      { plan with verdict := some assessment.verdict, assessment := some assessment.assessment }
    else plan)
  let s ← assessment.changes.foldlM (fun s change =>
    s.applyPlanRowChange taskId change.1 assessment.handler change.2) s
  s.settlePlanState taskId

/-- The hold that a refused effect raises; an open gate records none. -/
def holdForPlanGate (s : TaskStore) (taskId : TaskId) (observed : PlanGateHold) :
    Except StoreError (TaskStore × Option PlanGateHold) := do
  s.requireOpenTask taskId
  let s := if s.gateOn taskId ≠ .open then s.setPlanGateHold taskId (some observed) else s
  let s ← s.settlePlanState taskId
  .ok (s, s.planGateHolds taskId)

def markPlanApplicabilityUnresolved (s : TaskStore) (taskId : TaskId) :
    Except StoreError TaskStore := do
  s.requireOpenTask taskId
  if (s.planSelections taskId).isNone then .ok s
  else (s.unresolvePlanRows taskId).settlePlanState taskId

end TaskStore

end Rivect
