import Mathlib.Algebra.Ring.Nat
import Mathlib.Data.List.Nodup
import Rivect.Contracts
import Rivect.Lib.Fallible
import Rivect.Store.Error

/-! # The task tables

The task tables of `src/state/sql/schema.sql` and the plan tables of `src/state/sql/plans.sql`,
with the statements that write one of them. A table keyed by the task is the map from tasks to
their row; the others are the list of their rows in insertion order. The rows that plans and
selections keep for one task stand under that task, as every statement names it.
-/

namespace Rivect

open Lib List

/-- Whether non-read work may start: no selection is `unassessed`, never `open`. -/
inductive PlanGate where
  | unassessed
  | open
  | paused (unresolved openStages : List String)
deriving DecidableEq

/-- The closed gate that a refused effect waits on. -/
inductive PlanGateHold where
  | unassessed
  | paused
deriving DecidableEq

inductive PlanVerdict where
  | pass
  | fail
deriving DecidableEq

inductive RequestKind where
  | change
  | deliver
  | planOnly
  | audit
  | diagnose
deriving DecidableEq

inductive EvidenceValidity where
  | current
  | stale
deriving DecidableEq

inductive QuestionState where
  | pending
  | answered
  | superseded
deriving DecidableEq

inductive AnswerAttemptOutcome where
  | applied
  | denied
deriving DecidableEq

/-- The JSON a plan row's `outcome_json` holds. -/
inductive PlanOutcome where
  | output (json : String)
  | revision (planRevision : ℕ)
  | answeredFork (questionId : QuestionId) (questionRevision selectionRevision : ℕ)
      (factsDigest : String)
deriving DecidableEq

/-- The JSON an answer attempt journals: a parsed selection or the request's raw value. -/
inductive SelectionJson where
  | selection (selection : AnswerSelection)
  | raw (json : String)
deriving DecidableEq

structure TaskRow where
  sessionId : SessionId
  revision : ℕ
  intentRevision : ℕ
  contractRevision : ℕ
  lifecycle : Lifecycle
  goal : String
  eventCursor : ℕ
deriving DecidableEq

structure CriterionRow where
  criterionId : String
  taskId : TaskId
  position : ℕ
  text : String
deriving DecidableEq

structure QuestionRow where
  questionId : QuestionId
  taskId : TaskId
  revision : ℕ
  intentRevision : ℕ
  body : Question
  state : QuestionState
  answer : Option AnswerSelection
  answeredOrigin : Option String
deriving DecidableEq

/-- The questions, one row an id. -/
structure QuestionTable where
  rows : List QuestionRow
  keyed : (rows.map QuestionRow.questionId).Nodup

namespace QuestionTable

def empty : QuestionTable := ⟨[], nodup_nil⟩

/-- An `UPDATE`, which keeps the ids. -/
def update (table : QuestionTable) (f : QuestionRow → QuestionRow)
    (hf : ∀ q, (f q).questionId = q.questionId) : QuestionTable :=
  ⟨table.rows.map f, by
    rw [map_map, show QuestionRow.questionId ∘ f = QuestionRow.questionId from funext hf]
    exact table.keyed⟩

def insert (table : QuestionTable) (row : QuestionRow)
    (h : ∀ q ∈ table.rows, q.questionId ≠ row.questionId) : QuestionTable :=
  ⟨table.rows ++ [row], by
    rw [map_append, nodup_append]
    refine ⟨table.keyed, by simp, ?_⟩
    intro a ha b hb
    obtain ⟨q, hq, rfl⟩ := mem_map.mp ha
    rw [mem_singleton.mp hb]
    exact h q hq⟩

end QuestionTable

structure AnswerAttemptRow where
  questionId : QuestionId
  taskId : TaskId
  questionRevision : ℕ
  selection : SelectionJson
  author : String
  outcome : AnswerAttemptOutcome
  denial : Option String
deriving DecidableEq

structure ObligationRow where
  obligationId : String
  taskId : TaskId
  criterionId : String
  applicability : ObligationApplicability
  execution : ObligationExecution
deriving DecidableEq

structure EvidenceRow where
  evidenceId : String
  taskId : TaskId
  scope : String
  observation : String
  digest : String
  validity : EvidenceValidity
  obligationId : String
deriving DecidableEq

structure AttemptRow where
  attemptId : String
  taskId : TaskId
  actionId : String
  effectClass : String
  describe : String
  state : AttemptState
  detail : Option String
deriving DecidableEq

structure PlanSelectionRecord where
  revision : ℕ
  factsDigest : String
  requestKind : RequestKind
deriving DecidableEq

structure PlanObligationRecord where
  capability : String
  applicability : ObligationApplicability
  execution : ObligationExecution
  stage : Bool
  handler : Option String
  blocker : Option Blocker
  outcome : Option PlanOutcome
deriving DecidableEq

structure PlanRevisionRecord where
  revision : ℕ
  selectionRevision : ℕ
  body : String
  verdict : Option PlanVerdict
  assessment : Option String
deriving DecidableEq

/-- A journaled event, without its generated id. -/
structure EventRow where
  aggregateId : String
  aggregateRevision : ℕ
  cursor : ℕ
  sessionId : SessionId
  taskId : Option TaskId
  eventType : String
  delta : List (String × Value)
  origin : String
deriving DecidableEq

/-- What a task command answers, without the snapshot that rides along. -/
structure CommandResult where
  status : String
  taskId : TaskId
  taskRevision : ℕ
  intentRevision : ℕ
  eventCursor : ℕ
  contractRevision : Option ℕ
deriving DecidableEq

/-- The parameters that a create's receipt digests. -/
structure CreateParams where
  sessionId : SessionId
  principal : String
  goal : String
  criteria : List String
  constraints : List String
deriving DecidableEq

structure ReceiptRow where
  commandId : String
  paramsDigest : CreateParams
  result : CommandResult
deriving DecidableEq

/-- `rowids` are the tasks in the order of their rows. -/
structure TaskStore where
  tasks : TaskId → Option TaskRow
  rowids : List TaskId
  criteria : List CriterionRow
  constraints : TaskId → List String
  questions : QuestionTable
  answerAttempts : List AnswerAttemptRow
  obligations : List ObligationRow
  evidence : List EvidenceRow
  attempts : List AttemptRow
  planSelections : TaskId → Option PlanSelectionRecord
  planObligations : TaskId → List PlanObligationRecord
  plans : TaskId → List PlanRevisionRecord
  planGateHolds : TaskId → Option PlanGateHold
  planBlocks : TaskId → Bool
  events : List EventRow
  receipts : List ReceiptRow

namespace TaskStore

/-- The tables of a store as it opens for the first time. -/
def fresh : TaskStore :=
  { tasks := fun _ => none
    rowids := []
    criteria := []
    constraints := fun _ => []
    questions := .empty
    answerAttempts := []
    obligations := []
    evidence := []
    attempts := []
    planSelections := fun _ => none
    planObligations := fun _ => []
    plans := fun _ => []
    planGateHolds := fun _ => none
    planBlocks := fun _ => false
    events := []
    receipts := [] }

def missingTask (taskId : TaskId) : StoreError := .notFound (.task taskId.val)

/-- A revision past the storable range is corrupt state. -/
def storedU64 (value : ℕ) : Except StoreError ℕ :=
  do
    require (value < 2 ^ 63) .storage
    .ok value

/-! ## Tasks -/

/-- An `UPDATE` of one task's row. -/
def updateTask (s : TaskStore) (taskId : TaskId) (f : TaskRow → TaskRow) : TaskStore :=
  { s with tasks := Function.update s.tasks taskId ((s.tasks taskId).map f) }

def taskSetWaiting (s : TaskStore) (taskId : TaskId) (revision : ℕ) : TaskStore :=
  s.updateTask taskId fun r =>
    { r with revision := revision, lifecycle := .waiting, eventCursor := r.eventCursor + 1 }

def taskSetRunning (s : TaskStore) (taskId : TaskId) (revision : ℕ) : TaskStore :=
  s.updateTask taskId fun r =>
    { r with revision := revision, lifecycle := .running, eventCursor := r.eventCursor + 1 }

def updateIntent (s : TaskStore) (taskId : TaskId) (revision intent : ℕ) : TaskStore :=
  s.updateTask taskId fun r =>
    { r with revision := revision, intentRevision := intent, eventCursor := r.eventCursor + 1 }

/-- `CANCEL_TASK` and `COMPLETE_TASK`. -/
def endTask (s : TaskStore) (taskId : TaskId) (lifecycle : Lifecycle) (revision : ℕ) :
    TaskStore :=
  s.updateTask taskId fun r =>
    { r with revision := revision, lifecycle := lifecycle, eventCursor := r.eventCursor + 1 }

/-- The updates that move a task out of some lifecycles, with a new revision and event. -/
def moveTask (s : TaskStore) (taskId : TaskId) (source : Lifecycle → Bool) (lifecycle : Lifecycle) :
    TaskStore :=
  s.updateTask taskId fun r =>
    if source r.lifecycle then
      { r with
        revision := r.revision + 1
        lifecycle := lifecycle
        eventCursor := r.eventCursor + 1 }
    else r

/-- The updates that touch the lifecycle alone. -/
def flipTask (s : TaskStore) (taskId : TaskId) (source lifecycle : Lifecycle) : TaskStore :=
  s.updateTask taskId fun r =>
    if r.lifecycle = source then { r with lifecycle := lifecycle } else r

def supersessionResumesTask (s : TaskStore) (taskId : TaskId) : TaskStore :=
  s.flipTask taskId .waiting .running

def pauseRunningTask (s : TaskStore) (taskId : TaskId) : TaskStore :=
  s.flipTask taskId .running .waiting

def releaseWorkflowOffPause (s : TaskStore) (taskId : TaskId) : TaskStore :=
  s.flipTask taskId .paused .running

def blockTaskNotCancelled (s : TaskStore) (taskId : TaskId) : TaskStore :=
  s.moveTask taskId (· ≠ .cancelled) .blocked

def blockTaskOpen (s : TaskStore) (taskId : TaskId) : TaskStore :=
  s.moveTask taskId (fun l => !l.isTerminal) .blocked

def planBlockRunningTask (s : TaskStore) (taskId : TaskId) : TaskStore :=
  s.moveTask taskId (· = .running) .blocked

def planReleaseTask (s : TaskStore) (taskId : TaskId) : TaskStore :=
  s.moveTask taskId (· = .blocked) .running

/-! ## Events -/

def nextCursor (s : TaskStore) : ℕ := (s.events.map EventRow.cursor).foldl max 0 + 1

/-- The aggregate has no event at this revision yet. -/
def HasRoom (s : TaskStore) (aggregate : String × ℕ) : Prop :=
  ∀ e ∈ s.events, (e.aggregateId, e.aggregateRevision) ≠ aggregate

instance (s : TaskStore) (aggregate : String × ℕ) : Decidable (s.HasRoom aggregate) :=
  inferInstanceAs (Decidable (∀ e ∈ s.events, (e.aggregateId, e.aggregateRevision) ≠ aggregate))

/-- One event under the next cursor; an aggregate has one event a revision, and a cursor is
given once. -/
def appendEvent (s : TaskStore) (sessionId : SessionId) (taskId : Option TaskId)
    (aggregate : String × ℕ) (eventType : String) (delta : List (String × Value))
    (origin : String) : Except StoreError TaskStore := do
  require (s.HasRoom aggregate) .eventExists
  require (∀ e ∈ s.events, e.cursor ≠ s.nextCursor) .eventExists
  .ok { s with
    events := s.events ++
      [⟨aggregate.1, aggregate.2, s.nextCursor, sessionId, taskId, eventType, delta, origin⟩] }

/-! ## Questions -/

def questionById (s : TaskStore) (questionId : QuestionId) (taskId : TaskId) :
    Option QuestionRow :=
  s.questions.rows.find? fun q => q.questionId = questionId ∧ q.taskId = taskId

/-- The pending questions of a task. -/
def pendingOf (s : TaskStore) (taskId : TaskId) : List QuestionRow :=
  s.questions.rows.filter fun q => q.taskId = taskId ∧ q.state = .pending

/-- The updates that supersede pending questions. -/
def supersede (s : TaskStore) (dies : QuestionRow → Bool) : TaskStore :=
  { s with
    questions := s.questions.update
      (fun q => if q.state = .pending ∧ dies q then { q with state := .superseded } else q)
      (fun q => by split <;> rfl) }

/-- The rows such an update returns. -/
def killed (s : TaskStore) (dies : QuestionRow → Bool) : List QuestionRow :=
  s.questions.rows.filter fun q => q.state = .pending ∧ dies q

def insertQuestionRow (s : TaskStore) (q : Question) : Except StoreError TaskStore :=
  let row : QuestionRow :=
    ⟨q.questionId, q.taskId, q.questionRevision, q.intentRevision, q, .pending, none, none⟩
  if h : ∀ r ∈ s.questions.rows, r.questionId ≠ row.questionId then
    .ok { s with questions := s.questions.insert row h }
  else .error .storage

def setAnswer (s : TaskStore) (questionId : QuestionId) (selection : AnswerSelection)
    (author : String) : TaskStore :=
  { s with
    questions := s.questions.update
      (fun q =>
        if q.questionId = questionId then
          { q with state := .answered, answer := some selection, answeredOrigin := some author }
        else q)
      (fun q => by split <;> rfl) }

def insertAnswerAttempt (s : TaskStore) (row : AnswerAttemptRow) : TaskStore :=
  { s with answerAttempts := s.answerAttempts ++ [row] }

/-! ## Obligations, evidence and attempts -/

def updateObligation (s : TaskStore) (obligationId : String) (f : ObligationRow → ObligationRow) :
    TaskStore :=
  { s with
    obligations := s.obligations.map fun o => if o.obligationId = obligationId then f o else o }

def taskIdForObligation (s : TaskStore) (obligationId : String) : Option TaskId :=
  (s.obligations.find? (·.obligationId = obligationId)).map ObligationRow.taskId

def obligationsOf (s : TaskStore) (taskId : TaskId) : List ObligationRow :=
  s.obligations.filter (·.taskId = taskId)

def unresolvedObligations (s : TaskStore) (taskId : TaskId) : ℕ :=
  (s.obligationsOf taskId).countP (·.applicability = .unresolved)

def unknownAttempts (s : TaskStore) (taskId : TaskId) : ℕ :=
  s.attempts.countP fun a => a.taskId = taskId ∧ a.state = .unknown

def insertEvidenceRow (s : TaskStore) (row : EvidenceRow) : Except StoreError TaskStore := do
  require (∀ e ∈ s.evidence, e.evidenceId ≠ row.evidenceId) .storage
  .ok { s with evidence := s.evidence ++ [row] }

def satisfyObligation (s : TaskStore) (obligationId : String) : TaskStore :=
  s.updateObligation obligationId fun o => { o with execution := .satisfied }

def staleObligation (s : TaskStore) (obligationId : String) : TaskStore :=
  s.updateObligation obligationId fun o =>
    { o with applicability := .unresolved, execution := .stale }

def unresolvedApplicability (s : TaskStore) (obligationId : String) : TaskStore :=
  s.updateObligation obligationId fun o => { o with applicability := .unresolved }

def reopenObligation (s : TaskStore) (obligationId : String) : TaskStore :=
  s.updateObligation obligationId fun o => { o with execution := .pending }

/-! ## Plan tables -/

def setPlanSelection (s : TaskStore) (taskId : TaskId) (selection : PlanSelectionRecord) :
    TaskStore :=
  { s with planSelections := Function.update s.planSelections taskId (some selection) }

def setPlanRows (s : TaskStore) (taskId : TaskId) (rows : List PlanObligationRecord) : TaskStore :=
  { s with planObligations := Function.update s.planObligations taskId rows }

/-- An `UPDATE` of one task's plan rows. -/
def updatePlanRows (s : TaskStore) (taskId : TaskId) (source : PlanObligationRecord → Bool)
    (f : PlanObligationRecord → PlanObligationRecord) : TaskStore :=
  s.setPlanRows taskId ((s.planObligations taskId).map fun row => if source row then f row else row)

def setPlans (s : TaskStore) (taskId : TaskId) (plans : List PlanRevisionRecord) : TaskStore :=
  { s with plans := Function.update s.plans taskId plans }

def setPlanGateHold (s : TaskStore) (taskId : TaskId) (hold : Option PlanGateHold) : TaskStore :=
  { s with planGateHolds := Function.update s.planGateHolds taskId hold }

def setPlanBlock (s : TaskStore) (taskId : TaskId) (marked : Bool) : TaskStore :=
  { s with planBlocks := Function.update s.planBlocks taskId marked }

end TaskStore

end Rivect
