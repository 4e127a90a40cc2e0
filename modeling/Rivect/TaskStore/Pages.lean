import Rivect.TaskStore.Compaction

/-! # The pages of a session's tasks

The status, todo and scheduler pages list the tasks of a session in the order of their rows. A
cursor carries the session's greatest task revision, and a page is refused once that has moved.
-/

namespace Rivect

open Lib

def WORKFLOW_OFF_BLOCKER_OWNER : String := "workflow"

def WORKFLOW_OFF_BLOCKER_KIND : String := "workflow_off:paused"

def workflowOffBlocker : Blocker :=
  ⟨.dependencyBlocked, WORKFLOW_OFF_BLOCKER_OWNER, .dependency ⟨WORKFLOW_OFF_BLOCKER_KIND⟩⟩

def PlanGateHold.asStr : PlanGateHold → String
  | .unassessed => "unassessed"
  | .paused => "paused"

def PlanGateHold.blocker (hold : PlanGateHold) : Blocker :=
  planBlocker .dependencyBlocked ("plan_gate:" ++ hold.asStr)

/-- A fork's decision shows while it is the pending question, and once. -/
def extendPlanBlockers (blockers plan : List Blocker) (pending : Option QuestionRow) :
    List Blocker :=
  plan.foldl (fun blockers blocker =>
    match blocker.condition with
    | .decision questionId revision =>
      if pending.any (fun q => q.questionId = questionId ∧ q.revision = revision) ∧
          ∀ listed ∈ blockers, listed.condition ≠ blocker.condition then blockers ++ [blocker]
      else blockers
    | _ => blockers ++ [blocker]) blockers

structure TaskStatus where
  taskId : TaskId
  taskRevision : ℕ
  intentRevision : ℕ
  lifecycle : Lifecycle
  blockers : Option (List Blocker)
deriving DecidableEq

structure TodoItem where
  taskId : TaskId
  taskRevision : ℕ
  lifecycle : Lifecycle
  blockers : Option (List Blocker)
deriving DecidableEq

structure SchedulerItem where
  taskId : TaskId
  taskRevision : ℕ
  lifecycle : Lifecycle
  ready : Bool
  blockers : Option (List Blocker)
deriving DecidableEq

structure Page (α : Type) where
  items : List α
  snapshotGeneration : ℕ
  nextCursor : Option (ℕ × ℕ)

namespace TaskStore

/-- The plan's blockers of a task: its rows in their order, then the gate hold. -/
def planBlockers (s : TaskStore) (taskId : TaskId) : List Blocker :=
  (s.planObligations taskId).filterMap (fun row =>
    if row.applicability = .unresolved then
      some (planBlocker .dependencyBlocked row.capability)
    else row.blocker) ++
    (s.planGateHolds taskId).toList.map PlanGateHold.blocker

/-- What keeps a task of this lifecycle, or `none` where nothing does. -/
def blockers (s : TaskStore) (taskId : TaskId) (lifecycle : Lifecycle) : Option (List Blocker) :=
  let pending := latestBy QuestionRow.revision (s.pendingOf taskId)
  let unresolved := s.unresolvedObligations taskId
  let unknown := s.unknownAttempts taskId
  let decision :=
    if lifecycle = .waiting then
      pending.toList.map fun q =>
        ⟨.dependencyBlocked, "state", .decision q.questionId q.revision⟩
    else []
  let obligations :=
    if lifecycle = .blocked ∧ 0 < unresolved then
      [⟨.dependencyBlocked, "state", .dependency ⟨"obligations:" ++ toString unresolved⟩⟩]
    else []
  let attempts :=
    if lifecycle = .blocked ∧ 0 < unknown then
      [⟨.outcomeUnknown, "executor", .reconciliation ⟨"attempts:" ++ toString unknown⟩⟩]
    else []
  let own := decision ++ obligations ++ attempts
  let planned :=
    if lifecycle = .waiting ∨ lifecycle = .blocked ∨ lifecycle = .paused then
      extendPlanBlockers own (s.planBlockers taskId) pending
    else own
  let listed := planned ++ if lifecycle = .paused then [workflowOffBlocker] else []
  if listed ≠ [] then some listed
  else if lifecycle = .blocked then some [⟨.dependencyBlocked, "controller", .noReadyAction⟩]
  else none

/-- The tasks of a session by their rows. -/
def sessionRows (s : TaskStore) (sessionId : SessionId) : List (TaskId × TaskRow) :=
  s.rowids.filterMap fun taskId =>
    (s.tasks taskId).bind fun row => if row.sessionId = sessionId then some (taskId, row) else none

/-- `SESSION_GENERATION`. -/
def sessionGeneration (s : TaskStore) (sessionId : SessionId) : ℕ :=
  ((s.sessionRows sessionId).map fun task => task.2.revision).foldl max 0

def statusPageContext (s : TaskStore) (sessionId : SessionId) (cursor : Option (ℕ × ℕ)) :
    Except StoreError (ℕ × ℕ) := do
  let generation := s.sessionGeneration sessionId
  let offset := cursor.elim 0 Prod.snd
  require (∀ expected ∈ cursor.map Prod.fst, expected = generation)
    (.conflict (.cursorGeneration (cursor.elim 0 Prod.fst) generation))
  require (offset ≤ 2 ^ 63 - 1) (.invalidInput .cursorOffsetOutOfRange)
  .ok (generation, offset)

def nextPageOffset (offset limit : ℕ) : Except StoreError ℕ := do
  require (offset + limit ≤ 2 ^ 63 - 1) (.invalidInput .cursorOffsetOutOfRange)
  .ok (offset + limit)

/-- An item of a page, of the task's row and its blockers. -/
abbrev Item (α : Type) := TaskId → TaskRow → Option (List Blocker) → α

/-- What a page of these items lists, all of it. -/
def listing {α : Type} (s : TaskStore) (item : Item α) (sessionId : SessionId) : List α :=
  (s.sessionRows sessionId).map fun task =>
    item task.1 task.2 (s.blockers task.1 task.2.lifecycle)

/-- One row more than the page takes tells whether another page follows. -/
def sessionPage {α : Type} (s : TaskStore) (item : Item α) (sessionId : SessionId) (limit : ℕ)
    (cursor : Option (ℕ × ℕ)) : Except StoreError (Page α) := do
  let (generation, offset) ← s.statusPageContext sessionId cursor
  let next ← nextPageOffset offset limit
  let rows := ((s.sessionRows sessionId).drop offset).take (limit + 1)
  .ok
    { items := (rows.take limit).map fun task =>
        item task.1 task.2 (s.blockers task.1 task.2.lifecycle)
      snapshotGeneration := generation
      nextCursor := if limit < rows.length then some (generation, next) else none }

def statusItem : Item TaskStatus := fun taskId row blockers =>
  ⟨taskId, row.revision, row.intentRevision, row.lifecycle, blockers⟩

/-- The projection's row is the task's own: triggers rewrite it with every revision and
lifecycle. -/
def todoItem : Item TodoItem := fun taskId row blockers =>
  ⟨taskId, row.revision, row.lifecycle, blockers⟩

def schedulerItem : Item SchedulerItem := fun taskId row blockers =>
  ⟨taskId, row.revision, row.lifecycle, row.lifecycle = .running ∧ blockers = none, blockers⟩

def taskStatusPage (s : TaskStore) := s.sessionPage statusItem

def todoPage (s : TaskStore) := s.sessionPage todoItem

def schedulerPage (s : TaskStore) := s.sessionPage schedulerItem

end TaskStore

end Rivect
