import Mathlib.Data.List.Dedup
import Mathlib.Data.String.Basic
import Rivect.Lib.Entries
import Rivect.TaskStore.Pages

/-! # Why a task waits, as a snapshot lists it

`blockers_in_tx` and `batched_blockers` of `src/state.rs`: the first projects the blockers of one
task, the second those of a page of tasks from one statement for each table.
-/

namespace Rivect

open Lib List

/-- The blocker that a plan row projects: an unresolved row names its own capability. -/
def PlanObligationRecord.projected (row : PlanObligationRecord) : Option Blocker :=
  if row.applicability = .unresolved then some (planBlocker .dependencyBlocked row.capability)
  else row.blocker

def decisionBlocker (q : QuestionRow) : Blocker :=
  ⟨.dependencyBlocked, "state", .decision q.questionId q.revision⟩

def obligationsBlocker (unresolved : ℕ) : Blocker :=
  ⟨.dependencyBlocked, "state", .dependency ⟨"obligations:" ++ toString unresolved⟩⟩

def attemptsBlocker (unknown : ℕ) : Blocker :=
  ⟨.outcomeUnknown, "executor", .reconciliation ⟨"attempts:" ++ toString unknown⟩⟩

def noReadyActionBlocker : Blocker := ⟨.dependencyBlocked, "controller", .noReadyAction⟩

/-- A fork's blocker shows while its question is the pending one and is not listed yet. -/
def Shows (pending : Option QuestionRow) (listed : List Blocker) (blocker : Blocker) : Prop :=
  ∀ questionId revision, blocker.condition = .decision questionId revision →
    (∃ q ∈ pending, q.questionId = questionId ∧ q.revision = revision) ∧
      ∀ b ∈ listed, b.condition ≠ blocker.condition

/-- The lifecycles whose blockers the plan extends. -/
def Lifecycle.projectsPlan : Lifecycle → Bool
  | .waiting | .blocked | .paused => true
  | .running | .completed | .cancelled => false

namespace TaskStore

def pendingQuestion (s : TaskStore) (taskId : TaskId) : Option QuestionRow :=
  latestBy QuestionRow.revision (s.pendingOf taskId)

/-- What the store itself derives, before the plan. -/
def storedBlockers (s : TaskStore) (taskId : TaskId) : Lifecycle → List Blocker
  | .waiting => (s.pendingQuestion taskId).toList.map decisionBlocker
  | .blocked =>
    (if 0 < s.unresolvedObligations taskId then
      [obligationsBlocker (s.unresolvedObligations taskId)] else []) ++
    (if 0 < s.unknownAttempts taskId then [attemptsBlocker (s.unknownAttempts taskId)] else [])
  | .paused => [workflowOffBlocker]
  | .running | .completed | .cancelled => []

def withPlan (s : TaskStore) (taskId : TaskId) (lifecycle : Lifecycle) : List Blocker :=
  if lifecycle.projectsPlan then
    extendPlanBlockers (s.storedBlockers taskId lifecycle) (s.planBlockers taskId)
      (s.pendingQuestion taskId)
  else s.storedBlockers taskId lifecycle

/-- An absent list, never an empty one. -/
def present (blockers : List Blocker) : Option (List Blocker) :=
  if blockers = [] then none else some blockers

def blockersOf (s : TaskStore) (taskId : TaskId) (lifecycle : Lifecycle) : Option (List Blocker) :=
  let blockers := s.withPlan taskId lifecycle
  present (if lifecycle = .blocked ∧ blockers = [] then blockers ++ [noReadyActionBlocker]
    else blockers)

def blockersInTx (s : TaskStore) (taskId : TaskId) : Except StoreError (Option (List Blocker)) := do
  let task ← found (s.tasks taskId) .storage
  .ok (s.blockersOf taskId task.lifecycle)

/-! ## A page of tasks -/

/-- `pending_questions_for_tasks`. -/
def pendingQuestionsForTasks (s : TaskStore) (taskIds : List TaskId) : List QuestionRow :=
  s.questions.rows.filter fun q =>
    q.taskId ∈ taskIds ∧ q.state = .pending ∧ s.pendingQuestion q.taskId = some q

/-- The rows of a `GROUP BY task_id` over a counted table. -/
def countsForTasks (taskIds : List TaskId) (count : TaskId → ℕ) : List (TaskId × ℕ) :=
  (taskIds.dedup.filter fun taskId => 0 < count taskId).map fun taskId => (taskId, count taskId)

abbrev BlockerMap := TaskId → Option (List Blocker)

/-- `entry(..).or_default().push(..)`. -/
def pushTo (blocker : Blocker) (entry : Option (List Blocker)) : Option (List Blocker) :=
  some (entry.getD [] ++ [blocker])

/-- The plan's blockers join an entry; an entry that stays empty is removed again. -/
def extendEntry (pending : Option QuestionRow) (plan : List Blocker)
    (entry : Option (List Blocker)) : Option (List Blocker) :=
  if plan = [] then entry else present (extendPlanBlockers (entry.getD []) plan pending)

/-- The lifecycle that the page holds for a task. -/
def lifecycleIn (tasks : List (TaskId × Lifecycle)) (taskId : TaskId) : Option Lifecycle :=
  (tasks.reverse.find? (·.1 = taskId)).map Prod.snd

def decisionEntry (tasks : List (TaskId × Lifecycle)) (q : QuestionRow)
    (entry : Option (List Blocker)) : Option (List Blocker) :=
  if lifecycleIn tasks q.taskId = some .waiting then
    pushTo (decisionBlocker q) entry
  else entry

def blockedEntry (tasks : List (TaskId × Lifecycle)) (blocker : ℕ → Blocker) (row : TaskId × ℕ)
    (entry : Option (List Blocker)) : Option (List Blocker) :=
  if lifecycleIn tasks row.1 = some .blocked then pushTo (blocker row.2) entry else entry

def planEntry (s : TaskStore) (pending : TaskId → Option QuestionRow)
    (task : TaskId × Lifecycle) (entry : Option (List Blocker)) : Option (List Blocker) :=
  if task.2.projectsPlan then extendEntry (pending task.1) (s.planBlockers task.1) entry
  else entry

/-- The off pause's blocker, and the one of a block that nothing else explains. -/
def closingEntry (task : TaskId × Lifecycle) (entry : Option (List Blocker)) :
    Option (List Blocker) :=
  let entry := if task.2 = .paused then pushTo workflowOffBlocker entry else entry
  if task.2 = .blocked ∧ entry.getD [] = [] then pushTo noReadyActionBlocker entry else entry

def batchedBlockers (s : TaskStore) (tasks : List (TaskId × Lifecycle)) : BlockerMap :=
  let taskIds := tasks.map Prod.fst
  let questions := s.pendingQuestionsForTasks taskIds
  let pending : TaskId → Option QuestionRow := questions.foldl
    (amend QuestionRow.taskId fun q _ => some q) fun _ => none
  let blockers : BlockerMap := questions.foldl
    (amend QuestionRow.taskId (decisionEntry tasks)) fun _ => none
  let blockers := (countsForTasks taskIds s.unresolvedObligations).foldl
    (amend Prod.fst (blockedEntry tasks obligationsBlocker)) blockers
  let blockers := (countsForTasks taskIds s.unknownAttempts).foldl
    (amend Prod.fst (blockedEntry tasks attemptsBlocker)) blockers
  let blockers := tasks.foldl (amend Prod.fst (s.planEntry pending)) blockers
  tasks.foldl (amend Prod.fst closingEntry) blockers

/-! ## One entry of the page -/

variable {s : TaskStore} {taskId : TaskId} {lifecycle : Lifecycle}
  {tasks : List (TaskId × Lifecycle)} {q : QuestionRow}

theorem extendPlanBlockers_shown {pending : Option QuestionRow} {listed plan : List Blocker}
    {blocker : Blocker} (h : Shows pending listed blocker) :
    extendPlanBlockers listed (blocker :: plan) pending =
      extendPlanBlockers (listed ++ [blocker]) plan pending := by
  unfold extendPlanBlockers
  rw [foldl_cons]
  split
  · rename_i questionId revision hcondition
    obtain ⟨⟨q, hq, hnamed⟩, hnew⟩ := h questionId revision hcondition
    obtain rfl : pending = some q := hq
    rw [if_pos ⟨by simpa using hnamed, hnew⟩]
  · rfl

theorem extendPlanBlockers_hidden {pending : Option QuestionRow} {listed plan : List Blocker}
    {blocker : Blocker} (h : ¬ Shows pending listed blocker) :
    extendPlanBlockers listed (blocker :: plan) pending =
      extendPlanBlockers listed plan pending := by
  unfold extendPlanBlockers
  rw [foldl_cons]
  split
  · rename_i questionId revision hcondition
    rw [if_neg]
    rintro ⟨hpending, hnew⟩
    refine h fun questionId' revision' hcondition' => ⟨?_, hnew⟩
    rw [hcondition] at hcondition'
    injection hcondition' with hid hrevision
    subst hid hrevision
    cases pending with
    | none => cases hpending
    | some q => exact ⟨q, rfl, by simpa using hpending⟩
  · rename_i hcondition
    exact absurd (fun questionId revision heq => absurd heq (hcondition questionId revision)) h

@[simp] theorem present_getD (blockers : List Blocker) : (present blockers).getD [] = blockers := by
  unfold present
  split
  · rename_i h
    exact h.symm
  · rfl

theorem pushTo_present (blocker : Blocker) (blockers : List Blocker) :
    pushTo blocker (present blockers) = present (blockers ++ [blocker]) := by
  rw [pushTo, present_getD, present, if_neg (append_ne_nil_of_right_ne_nil _ (by simp))]

theorem extendEntry_present (pending : Option QuestionRow) (plan blockers : List Blocker) :
    extendEntry pending plan (present blockers) =
      present (extendPlanBlockers blockers plan pending) := by
  unfold extendEntry
  split
  · rename_i h
    rw [h]
    rfl
  · rw [present_getD]

theorem pendingQuestion_mem (h : s.pendingQuestion taskId = some q) : q ∈ s.pendingOf taskId :=
  mem_of_latestBy h

theorem mem_pendingQuestionsForTasks {taskIds : List TaskId} :
    q ∈ s.pendingQuestionsForTasks taskIds ↔
      q.taskId ∈ taskIds ∧ s.pendingQuestion q.taskId = some q := by
  unfold pendingQuestionsForTasks
  rw [mem_filter]
  constructor
  · rintro ⟨-, h⟩
    obtain ⟨htask, -, hlatest⟩ := of_decide_eq_true h
    exact ⟨htask, hlatest⟩
  · rintro ⟨htask, hlatest⟩
    obtain ⟨hmem, -, hpending⟩ := mem_pendingOf.mp (pendingQuestion_mem hlatest)
    exact ⟨hmem, decide_eq_true ⟨htask, hpending, hlatest⟩⟩

theorem pendingQuestion_taskId (h : s.pendingQuestion taskId = some q) : q.taskId = taskId :=
  (mem_pendingOf.mp (pendingQuestion_mem h)).2.1

theorem pendingQuestions_nodup (taskIds : List TaskId) :
    ((s.pendingQuestionsForTasks taskIds).map QuestionRow.taskId).Nodup := by
  refine Nodup.map_on ?_ ?_
  · intro q hq r hr htask
    have hq := (mem_pendingQuestionsForTasks.mp hq).2
    rw [htask, (mem_pendingQuestionsForTasks.mp hr).2] at hq
    exact (Option.some.inj hq).symm
  · exact (Nodup.of_map _ s.questions.keyed).filter _

/-- The rows of the page's statement hold a task's own latest question, or nothing of it. -/
theorem pendingQuestions_at {taskIds : List TaskId} (htask : taskId ∈ taskIds) {β : Type}
    (g : QuestionRow → β → β) (entries : TaskId → β) :
    (s.pendingQuestionsForTasks taskIds).foldl (amend QuestionRow.taskId g) entries taskId =
      (s.pendingQuestion taskId).elim (entries taskId) fun q => g q (entries taskId) := by
  cases hlatest : s.pendingQuestion taskId with
  | none =>
    refine amends_of_notMem fun hmem => ?_
    obtain ⟨q, hq, rfl⟩ := mem_map.mp hmem
    rw [(mem_pendingQuestionsForTasks.mp hq).2] at hlatest
    cases hlatest
  | some q =>
    have hq := pendingQuestion_taskId hlatest
    subst hq
    exact amends_of_mem (pendingQuestions_nodup taskIds)
      (mem_pendingQuestionsForTasks.mpr ⟨htask, hlatest⟩)

theorem counts_at {taskIds : List TaskId} (htask : taskId ∈ taskIds) (count : TaskId → ℕ)
    {β : Type} (g : TaskId × ℕ → β → β) (entries : TaskId → β) :
    (countsForTasks taskIds count).foldl (amend Prod.fst g) entries taskId =
      if 0 < count taskId then g (taskId, count taskId) (entries taskId) else entries taskId := by
  have hkeys : (countsForTasks taskIds count).map Prod.fst =
      taskIds.dedup.filter fun taskId => 0 < count taskId := by
    unfold countsForTasks
    rw [map_map]
    exact map_id _
  by_cases hcount : 0 < count taskId
  · have hmem : (taskId, count taskId) ∈ countsForTasks taskIds count :=
      mem_map_of_mem (mem_filter.mpr ⟨mem_dedup.mpr htask, by simpa using hcount⟩)
    rw [if_pos hcount]
    refine amends_of_mem ?_ hmem
    rw [hkeys]
    exact (nodup_dedup taskIds).filter _
  · rw [if_neg hcount]
    refine amends_of_notMem fun hmem => ?_
    rw [hkeys, mem_filter] at hmem
    exact hcount (by simpa using hmem.2)

/-! ## Both projections -/

/-- Tasks with their stored lifecycles, each once. -/
structure StoredPage (s : TaskStore) (tasks : List (TaskId × Lifecycle)) : Prop where
  distinct : (tasks.map Prod.fst).Nodup
  stored : ∀ task ∈ tasks, s.lifecycleOf task.1 = some task.2

theorem StoredPage.lookup (hpage : StoredPage s tasks) (htask : (taskId, lifecycle) ∈ tasks) :
    lifecycleIn tasks taskId = some lifecycle := by
  unfold lifecycleIn
  cases hfind : tasks.reverse.find? (·.1 = taskId) with
  | none =>
    have hnone := find?_eq_none.mp hfind (taskId, lifecycle) (mem_reverse.mpr htask)
    exact absurd (decide_eq_true rfl) hnone
  | some task =>
    have hmem := mem_reverse.mp (mem_of_find?_eq_some hfind)
    have hkey : task.1 = taskId := by simpa using find?_some hfind
    have hstored := hpage.stored task hmem
    rw [hkey, hpage.stored _ htask] at hstored
    exact hstored.symm

theorem StoredPage.amend_at {β : Type} (hpage : StoredPage s tasks)
    (htask : (taskId, lifecycle) ∈ tasks) (g : TaskId × Lifecycle → β → β)
    (entries : TaskId → β) :
    tasks.foldl (amend Prod.fst g) entries taskId = g (taskId, lifecycle) (entries taskId) :=
  amends_of_mem hpage.distinct htask

/-- What the statements before the plan's leave of an entry: no off pause yet. -/
def queried (s : TaskStore) (taskId : TaskId) (lifecycle : Lifecycle) : List Blocker :=
  if lifecycle = .paused then [] else s.storedBlockers taskId lifecycle

/-- What the plan's statement leaves of it. -/
def planned (s : TaskStore) (taskId : TaskId) (lifecycle : Lifecycle) : List Blocker :=
  if lifecycle.projectsPlan then
    extendPlanBlockers (s.queried taskId lifecycle) (s.planBlockers taskId)
      (s.pendingQuestion taskId)
  else s.queried taskId lifecycle

theorem pending_at {taskIds : List TaskId} (htask : taskId ∈ taskIds) :
    (s.pendingQuestionsForTasks taskIds).foldl
      (amend QuestionRow.taskId fun q (_ : Option QuestionRow) => some q) (fun _ => none) taskId =
      s.pendingQuestion taskId := by
  rw [pendingQuestions_at htask]
  cases s.pendingQuestion taskId <;> rfl

section

variable (hpage : StoredPage s tasks) (htask : (taskId, lifecycle) ∈ tasks)
include hpage htask

theorem decisions_at :
    (s.pendingQuestionsForTasks (tasks.map Prod.fst)).foldl
      (amend QuestionRow.taskId (decisionEntry tasks)) (fun _ => none) taskId =
      present (if lifecycle = .waiting then s.storedBlockers taskId .waiting else []) := by
  rw [pendingQuestions_at (mem_map_of_mem htask), storedBlockers]
  cases hlatest : s.pendingQuestion taskId with
  | none => simp [present]
  | some q =>
    rw [Option.elim_some, decisionEntry, pendingQuestion_taskId hlatest, hpage.lookup htask]
    by_cases hwaiting : lifecycle = .waiting
    · subst hwaiting
      rfl
    · rw [if_neg hwaiting, if_neg fun h => hwaiting (Option.some.inj h)]
      rfl

theorem blocked_at
    (count : TaskId → ℕ) (blocker : ℕ → Blocker) {entries : BlockerMap} {listed : List Blocker}
    (h : entries taskId = present listed) :
    (countsForTasks (tasks.map Prod.fst) count).foldl
      (amend Prod.fst (blockedEntry tasks blocker)) entries taskId =
      present (listed ++
        if lifecycle = .blocked ∧ 0 < count taskId then [blocker (count taskId)] else []) := by
  rw [counts_at (mem_map_of_mem htask), h, blockedEntry, hpage.lookup htask]
  by_cases hcount : 0 < count taskId
  · by_cases hblocked : lifecycle = .blocked
    · simp [hcount, hblocked, pushTo_present]
    · simp [hcount, hblocked]
  · simp [hcount]

theorem batchedBlockers_at :
    s.batchedBlockers tasks taskId =
      closingEntry (taskId, lifecycle) (present (s.planned taskId lifecycle)) := by
  have hqueried := blocked_at hpage htask s.unknownAttempts attemptsBlocker
    (blocked_at hpage htask s.unresolvedObligations obligationsBlocker (decisions_at hpage htask))
  have hlisted : ((if lifecycle = .waiting then s.storedBlockers taskId .waiting else []) ++
      if lifecycle = .blocked ∧ 0 < s.unresolvedObligations taskId then
        [obligationsBlocker (s.unresolvedObligations taskId)] else []) ++
      (if lifecycle = .blocked ∧ 0 < s.unknownAttempts taskId then
        [attemptsBlocker (s.unknownAttempts taskId)] else []) = s.queried taskId lifecycle := by
    cases lifecycle <;> simp [queried, storedBlockers]
  rw [hlisted] at hqueried
  unfold batchedBlockers
  rw [hpage.amend_at htask, hpage.amend_at htask, hqueried, planEntry,
    pending_at (mem_map_of_mem htask), planned]
  split
  · rw [extendEntry_present]
  · rfl

end

theorem blockers_planned (s : TaskStore) (taskId : TaskId) (lifecycle : Lifecycle) :
    s.blockers taskId lifecycle =
      let listed :=
        s.planned taskId lifecycle ++ if lifecycle = .paused then [workflowOffBlocker] else []
      if listed ≠ [] then some listed
      else if lifecycle = .blocked then some [noReadyActionBlocker] else none := by
  cases lifecycle with
  | blocked => simp [blockers, planned, queried, storedBlockers, Lifecycle.projectsPlan,
      pendingQuestion, obligationsBlocker, attemptsBlocker, noReadyActionBlocker]
  | waiting =>
    simp [blockers, planned, queried, storedBlockers, Lifecycle.projectsPlan, pendingQuestion]
    rfl
  | paused => simp [blockers, planned, queried, Lifecycle.projectsPlan, pendingQuestion]
  | running => rfl
  | completed => rfl
  | cancelled => rfl

theorem closingEntry_present (taskId : TaskId) (lifecycle : Lifecycle) (blockers : List Blocker) :
    closingEntry (taskId, lifecycle) (present blockers) =
      let listed := blockers ++ if lifecycle = .paused then [workflowOffBlocker] else []
      if listed ≠ [] then some listed
      else if lifecycle = .blocked then some [noReadyActionBlocker] else none := by
  cases lifecycle with
  | paused =>
    have hclosing : closingEntry (taskId, .paused) (present blockers) =
        pushTo workflowOffBlocker (present blockers) := rfl
    rw [hclosing, pushTo_present]
    simp [present]
  | _ => cases blockers <;> simp [closingEntry, present, pushTo]

theorem batchedBlockers_eq (hpage : StoredPage s tasks) (htask : (taskId, lifecycle) ∈ tasks) :
    s.batchedBlockers tasks taskId = s.blockers taskId lifecycle := by
  rw [batchedBlockers_at hpage htask, closingEntry_present, blockers_planned]

/-! ## Where the two differ -/

theorem extendPlanBlockers_cons (listed plan : List Blocker) (pending : Option QuestionRow) :
    extendPlanBlockers (workflowOffBlocker :: listed) plan pending =
      workflowOffBlocker :: extendPlanBlockers listed plan pending := by
  induction plan generalizing listed with
  | nil => rfl
  | cons blocker plan ih =>
    have hshows : Shows pending (workflowOffBlocker :: listed) blocker ↔
        Shows pending listed blocker := by
      refine forall₃_congr fun questionId revision hcondition => ?_
      rw [forall_mem_cons, hcondition]
      exact and_congr_right fun _ => and_iff_right nofun
    by_cases h : Shows pending listed blocker
    · rw [extendPlanBlockers_shown (hshows.mpr h), extendPlanBlockers_shown h, cons_append, ih]
    · rw [extendPlanBlockers_hidden fun hmark => h (hshows.mp hmark), extendPlanBlockers_hidden h,
        ih]

theorem cons_eq_append_iff {α : Type} (a : α) (l : List α) :
    a :: l = l ++ [a] ↔ ∀ b ∈ l, b = a := by
  constructor
  · intro h b hb
    induction l generalizing b with
    | nil => cases hb
    | cons c l ih =>
      injection h with hhead htail
      subst hhead
      rcases mem_cons.mp hb with rfl | hb
      · rfl
      · exact ih htail b hb
  · intro h
    rw [eq_replicate_of_mem h, ← replicate_succ, ← replicate_succ']

/-- The blockers of the plan that a snapshot of a paused task shows. -/
def shownPlan (s : TaskStore) (taskId : TaskId) : List Blocker :=
  extendPlanBlockers [] (s.planBlockers taskId) (s.pendingQuestion taskId)

theorem present_ne_nil {blockers : List Blocker} (h : blockers ≠ []) :
    present blockers = some blockers := if_neg h

theorem blockersOf_paused (s : TaskStore) (taskId : TaskId) :
    s.blockersOf taskId .paused = some (workflowOffBlocker :: s.shownPlan taskId) := by
  have hplan : s.withPlan taskId .paused = workflowOffBlocker :: s.shownPlan taskId :=
    extendPlanBlockers_cons _ _ _
  rw [blockersOf, hplan]
  rfl

/-- Of a paused task the pages list the off pause last, a snapshot lists it first. -/
theorem blockers_paused (s : TaskStore) (taskId : TaskId) :
    s.blockers taskId .paused = some (s.shownPlan taskId ++ [workflowOffBlocker]) := by
  rw [blockers_planned]
  exact if_pos (concat_ne_nil _ _)

theorem blockers_of_not_paused (s : TaskStore) (taskId : TaskId) {lifecycle : Lifecycle}
    (h : lifecycle ≠ .paused) : s.blockers taskId lifecycle = s.blockersOf taskId lifecycle := by
  have hplanned : s.planned taskId lifecycle = s.withPlan taskId lifecycle := by
    unfold planned withPlan queried
    rw [if_neg h]
  rw [blockers_planned, blockersOf, hplanned, if_neg h, append_nil]
  generalize s.withPlan taskId lifecycle = blockers
  cases lifecycle <;> cases blockers <;> simp [present]

theorem blockers_eq_iff (s : TaskStore) (taskId : TaskId) (lifecycle : Lifecycle) :
    s.blockers taskId lifecycle = s.blockersOf taskId lifecycle ↔
      (lifecycle = .paused → ∀ b ∈ s.shownPlan taskId, b = workflowOffBlocker) := by
  by_cases hpaused : lifecycle = .paused
  · subst hpaused
    rw [blockers_paused, blockersOf_paused, ← cons_eq_append_iff, Option.some.injEq]
    exact ⟨fun h _ => h.symm, fun h => (h rfl).symm⟩
  · exact iff_of_true (s.blockers_of_not_paused taskId hpaused) fun h => absurd h hpaused

/-- A page and the snapshots agree on every task of the page exactly where no paused one shows a
blocker of its plan other than the off pause's own. -/
theorem projections_agree (s : TaskStore) (tasks : List (TaskId × Lifecycle))
    (hpage : StoredPage s tasks) :
    (∀ task ∈ tasks, s.blockersInTx task.1 = .ok (s.batchedBlockers tasks task.1)) ↔
      ∀ task ∈ tasks, task.2 = .paused → ∀ b ∈ s.shownPlan task.1, b = workflowOffBlocker := by
  refine forall₂_congr fun task htask => ?_
  obtain ⟨taskId, lifecycle⟩ := task
  obtain ⟨row, hrow, hlifecycle⟩ := lifecycleOf_eq_some.mp (hpage.stored _ htask)
  have hsingle : s.blockersInTx taskId = .ok (s.blockersOf taskId lifecycle) := by
    rw [blockersInTx, hrow, found_some, ok_bind, hlifecycle]
  rw [hsingle, batchedBlockers_eq hpage htask, ← blockers_eq_iff]
  exact ⟨fun h => (Except.ok.inj h).symm, fun h => by rw [h]⟩

/-- A plan whose one row no handler of this build can close. -/
def unhandledPlan : PlanSelectionWrite :=
  ⟨"facts", .deliver, [⟨"deliver", .required, false, none,
    some ⟨.capabilityUnavailable, "plan", .dependency ⟨"deliver"⟩⟩⟩]⟩

def pausedWithPlan : TaskStore :=
  after [created, .recordPlanSelection ⟨"session"⟩ ⟨"task"⟩ unhandledPlan,
    .pauseForWorkflowOff ⟨"session"⟩ ⟨"task"⟩]

theorem pausedWithPlan_page : StoredPage pausedWithPlan [(⟨"task"⟩, .paused)] where
  distinct := nodup_singleton _
  stored := by
    rintro task htask
    obtain rfl := mem_singleton.mp htask
    rfl

theorem projections_agree_paused :
    (∀ task ∈ [((⟨"task"⟩ : TaskId), Lifecycle.paused)],
        pausedWithPlan.blockersInTx task.1 =
          .ok (pausedWithPlan.batchedBlockers [(⟨"task"⟩, .paused)] task.1)) ↔
      ∀ task ∈ [((⟨"task"⟩ : TaskId), Lifecycle.paused)], task.2 = .paused →
        ∀ b ∈ pausedWithPlan.shownPlan task.1, b = workflowOffBlocker :=
  projections_agree _ _ pausedWithPlan_page

/-- The snapshot lists the off pause first, the page lists it last. -/
theorem not_projections_agree :
    StoredPage pausedWithPlan [(⟨"task"⟩, .paused)] ∧
      pausedWithPlan.blockersInTx ⟨"task"⟩ ≠
        .ok (pausedWithPlan.batchedBlockers [(⟨"task"⟩, .paused)] ⟨"task"⟩) := by
  refine ⟨pausedWithPlan_page, ?_⟩
  decide

end TaskStore

end Rivect
