import Rivect.TaskStore.Tasks
import Rivect.Lib.Run

/-! # One task as its plan sees it

A view keeps what the lifecycle rules read of one task. The moves are what a call can do to a
view, each with what was checked before it; the invariants are proved of the moves.
-/

namespace Rivect

open Lib

structure TaskView where
  lifecycle : Option Lifecycle
  intent : ℕ
  pending : List QuestionRow
  selection : Option PlanSelectionRecord
  rows : List PlanObligationRecord
  plans : List PlanRevisionRecord
  hold : Option PlanGateHold
  marked : Bool

namespace TaskView

def gate (v : TaskView) : PlanGate := Rivect.gate v.selection v.rows v.plans

def held (v : TaskView) : Bool := v.hold.isSome || v.rows.any (·.holdsLifecycle)

/-- The task exists and is not terminal. -/
def IsLive (v : TaskView) : Prop := ∃ l, v.lifecycle = some l ∧ l.isTerminal = false

/-- The hold that the gate leaves of a recorded one. -/
def settledHold (v : TaskView) : Option PlanGateHold :=
  match v.hold, v.gate with
  | none, _ => none
  | some _, .open => none
  | some _, .unassessed => some .unassessed
  | some _, .paused .. => some .paused

def settleHold (v : TaskView) : TaskView := { v with hold := v.settledHold }

/-- The plan's own block ends. -/
inductive Releases : TaskView → TaskView → Prop
  | stays (v : TaskView) : Releases v v
  | releases {v : TaskView} : v.lifecycle = some .blocked → v.marked = true → v.pending = [] →
      Releases v { v with lifecycle := some .running, marked := false }

/-- The lifecycle rule. -/
inductive Settles : TaskView → TaskView → Prop
  | blocks {v : TaskView} : v.lifecycle = some .running → v.held = true →
      Settles v { v with lifecycle := some .blocked, marked := true }
  | releases {v v' : TaskView} : v.lifecycle = some .blocked → v.held = false → Releases v v' →
      Settles v v'
  | stays {v : TaskView} : (v.lifecycle = some .running → v.held = false) → Settles v v

def SettlesState (v v' : TaskView) : Prop := Settles v.settleHold v'

/-- A question lands on a running or waiting task that has no other live one. -/
def Publishes (q : QuestionRow) (v v' : TaskView) : Prop :=
  (v.lifecycle = some .running ∨ v.lifecycle = some .waiting) ∧ q.intentRevision = v.intent ∧
    v' = { v with lifecycle := some .waiting, pending := [q] }

/-- The lifecycles of `source` become the target. -/
def moved (source : Lifecycle → Bool) (target : Lifecycle) (l : Option Lifecycle) :
    Option Lifecycle :=
  l.map fun l => if source l then target else l

/-- The plan rows are rewritten. -/
def Rewrites (v v' : TaskView) : Prop := ∃ rows, v' = { v with rows := rows }

/-- Rows that differ in their outcome alone. -/
def SameRows (rows rows' : List PlanObligationRecord) : Prop :=
  ∃ f : PlanObligationRecord → Option PlanOutcome,
    rows' = rows.map fun row => { row with outcome := f row }

/-- Questions of the old selection die, and with them the wait. -/
inductive DropsQuestions : TaskView → TaskView → Prop
  | keeps (v : TaskView) : DropsQuestions v v
  | drops {v : TaskView} (pending : List QuestionRow) : pending.Sublist v.pending →
      pending.length < v.pending.length →
      DropsQuestions v
        { v with pending := pending, lifecycle := moved (· = .waiting) .running v.lifecycle }

/-- What a foreign block leaves of a lifecycle. -/
def Blocks (l l' : Option Lifecycle) : Prop :=
  (l' = l ∧ ∀ a ∈ l, a.isTerminal) ∨ ((∃ a, l = some a ∧ a ≠ .cancelled) ∧ l' = some .blocked)

inductive Move where
  | stay
  | create
  | publish (question : Question)
  | fork (question : Question) (update : PlanRowUpdate)
  | answer (questionId : QuestionId)
  | steer
  | finish (lifecycle : Lifecycle)
  | pause
  | wait
  | block
  | unresolve
  | select (factsDigest : String)
  | change
  | revise (revision : PlanRevisionWrite)
  | assess (assessment : PlanAssessmentWrite)
  | hold

def Step : Move → TaskView → TaskView → Prop
  | .stay, v, v' => v' = v
  | .create, v, v' =>
    v.lifecycle = none ∧ v' = { v with lifecycle := some .running, intent := 1 }
  | .publish _, v, v' => ∃ q, Publishes q v v'
  | .fork _ _, v, v' =>
    v.IsLive ∧ ∃ v1 q rows v2, Releases v v1 ∧ Publishes q { v1 with rows := rows } v2 ∧
      SettlesState v2 v'
  | .answer questionId, v, v' =>
    v.IsLive ∧ ∃ q ∈ v.pending, q.questionId = questionId ∧ ∃ rows, SameRows v.rows rows ∧
      Settles { v with
        lifecycle := some .running
        pending := v.pending.filter (·.questionId ≠ questionId)
        rows := rows } v'
  | .steer, v, v' =>
    v.IsLive ∧
      Settles { v with
        lifecycle := moved (fun l => l = .waiting ∨ l = .paused) .running v.lifecycle
        intent := v.intent + 1
        pending := v.pending.filter (·.intentRevision = v.intent + 1) } v'
  | .finish lifecycle, v, v' =>
    lifecycle.isTerminal ∧ (v.IsLive ∨ v.lifecycle = some lifecycle) ∧
      v' = { v with lifecycle := some lifecycle, pending := [] }
  | .pause, v, v' =>
    (v.lifecycle = some .running ∨ v.lifecycle = some .waiting) ∧
      v' = { v with lifecycle := some .paused }
  | .wait, v, v' =>
    v.lifecycle = some .running ∧ v' = { v with lifecycle := some .waiting }
  | .block, v, v' => ∃ l, Blocks v.lifecycle l ∧ v' = { v with lifecycle := l, marked := false }
  | .unresolve, v, v' =>
    ∃ l, Blocks v.lifecycle l ∧
      v' = { v with
        lifecycle := l
        marked := false
        rows := v.rows.map fun row => { row with applicability := .unresolved } }
  | .select factsDigest, v, v' =>
    v.IsLive ∧ ∃ v1 selection rows, DropsQuestions v v1 ∧
      selection.revision = v.selection.elim 1 (·.revision + 1) ∧
      selection.factsDigest = factsDigest ∧
      (∀ current ∈ v.selection, current.factsDigest ≠ factsDigest) ∧
      SettlesState { v1 with selection := some selection, rows := rows } v'
  | .change, v, v' => v.IsLive ∧ ∃ rows, SettlesState { v with rows := rows } v'
  | .revise revision, v, v' =>
    v.IsLive ∧ (∃ selection ∈ v.selection, selection.revision = revision.selectionRevision) ∧
      ∃ rows, SettlesState { v with
        rows := rows
        plans := v.plans ++
          [⟨maxRevision v.plans + 1, revision.selectionRevision, revision.body, none, none⟩] } v'
  | .assess assessment, v, v' =>
    let judged := TaskStore.assessable v.plans assessment.planRevision assessment.selectionRevision
    v.IsLive ∧ (∃ selection ∈ v.selection, selection.revision = assessment.selectionRevision) ∧
      (∃ plan ∈ v.plans, judged plan) ∧
      ∃ rows, SettlesState { v with
        rows := rows
        plans := v.plans.map fun plan =>
          if judged plan then
            { plan with
              verdict := some assessment.verdict
              assessment := some assessment.assessment }
          else plan } v'
  | .hold, v, v' =>
    v.IsLive ∧ ∃ hold, (hold = v.hold ∨ v.gate ≠ .open) ∧ SettlesState { v with hold := hold } v'

end TaskView

namespace TaskStore

def lifecycleOf (s : TaskStore) (taskId : TaskId) : Option Lifecycle :=
  (s.tasks taskId).map TaskRow.lifecycle

def view (s : TaskStore) (taskId : TaskId) : TaskView :=
  { lifecycle := s.lifecycleOf taskId
    intent := (s.tasks taskId).elim 0 TaskRow.intentRevision
    pending := s.pendingOf taskId
    selection := s.planSelections taskId
    rows := s.planObligations taskId
    plans := s.plans taskId
    hold := s.planGateHolds taskId
    marked := s.planBlocks taskId }

/-- The moves that a call can make on a task. -/
def Op.makes (taskId : TaskId) : Op → TaskView.Move → Prop
  | _, .stay => True
  | .createTask t .., .create => t = taskId
  | .publishQuestion _ question, .publish q => question.taskId = taskId ∧ q = question
  | .publishPlanFork _ question update, .fork q u =>
    question.taskId = taskId ∧ q = question ∧ u = update
  | .answerQuestion _ t questionId .., .answer q => t = taskId ∧ q = questionId
  | .steerTask _ t .., .steer => t = taskId
  | .cancelTask _ t .., .finish _ => t = taskId
  | .completeIfEligible _ t, .finish l => t = taskId ∧ l = .completed
  | .completeIfEligible _ t, .wait => t = taskId
  | .pauseForWorkflowOff _ t, .pause => t = taskId
  | .invalidateEvidence _, .block => True
  | .markOutcomeUnknown t, .block => t = taskId
  | .markNoReady t, .block => t = taskId
  | .markApplicabilityUnresolved _, .unresolve => True
  | .recordPlanSelection _ t selection, .select digest =>
    t = taskId ∧ digest = selection.factsDigest
  | .recordPlanSelection _ t _, .change => t = taskId
  | .updatePlanRow t _, .change => t = taskId
  | .recordPlanRevision t revision, .revise r => t = taskId ∧ r = revision
  | .recordPlanAssessment t assessment, .assess a => t = taskId ∧ a = assessment
  | .holdForPlanGate t _, .hold => t = taskId
  | .markPlanApplicabilityUnresolved t, .change => t = taskId
  | _, _ => False

end TaskStore

end Rivect
