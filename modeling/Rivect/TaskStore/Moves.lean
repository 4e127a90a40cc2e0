import Mathlib.Data.List.Fold
import Mathlib.Data.List.MinMax
import Rivect.TaskStore.Records

/-! # Every call is a move of its task

What each call does to the views: the task it names makes one of its moves, and the other tasks
stay as they were.
-/

namespace Rivect.TaskStore

open Lib TaskView List
open Within (skip map_fst ok_iff)

variable {s s' s'' : TaskStore} {taskId u : TaskId}

/-- Only the named task's view changes, and it changes as `R` allows. -/
def Changes (taskId : TaskId) (R : TaskView → TaskView → Prop) (s s' : TaskStore) : Prop :=
  (∀ u, u ≠ taskId → s'.view u = s.view u) ∧ R (s.view taskId) (s'.view taskId)

/-- Every task makes one of the call's moves. -/
def Moves (op : Op) (s s' : TaskStore) : Prop :=
  ∀ u, ∃ m, op.makes u m ∧ Step m (s.view u) (s'.view u)

namespace Changes

variable {R R' : TaskView → TaskView → Prop}

theorem imp (h : Changes taskId R s s')
    (hR : ∀ v', R (s.view taskId) v' → R' (s.view taskId) v') : Changes taskId R' s s' :=
  ⟨h.1, hR _ h.2⟩

theorem trans (h : Changes taskId R s s') (h' : Changes taskId R' s' s'') :
    Changes taskId (fun v v'' => ∃ v', R v v' ∧ R' v' v'') s s'' :=
  ⟨fun u hu => (h'.1 u hu).trans (h.1 u hu), _, h.2, h'.2⟩

theorem moves {op : Op} {m : Move} (h : Changes taskId (Step m) s s') (hm : op.makes taskId m) :
    Moves op s s' := by
  intro u
  by_cases hu : u = taskId
  · subst hu
    exact ⟨m, hm, h.2⟩
  · refine ⟨.stay, ?_, h.1 u hu⟩
    cases op <;> trivial

end Changes

theorem makes_stay (op : Op) : op.makes u .stay := by
  cases op <;> trivial

theorem Moves.of_view {op : Op} (h : ∀ u, s'.view u = s.view u) : Moves op s s' :=
  fun u => ⟨.stay, makes_stay op, h u⟩

/-! ## Single statements -/

theorem lifecycleOf_eq_some {l : Lifecycle} :
    s.lifecycleOf taskId = some l ↔ ∃ task, s.tasks taskId = some task ∧ task.lifecycle = l := by
  simp [lifecycleOf]

@[simp] theorem updateTask_tasks_self (f : TaskRow → TaskRow) :
    (s.updateTask taskId f).tasks taskId = (s.tasks taskId).map f := by
  simp [updateTask]

theorem updateTask_changes (f : TaskRow → TaskRow) :
    Changes taskId (fun v v' => v' = { v with
      lifecycle := ((s.tasks taskId).map f).map TaskRow.lifecycle
      intent := ((s.tasks taskId).map f).elim 0 TaskRow.intentRevision })
      s (s.updateTask taskId f) := by
  constructor
  · intro u hu
    simp [view, lifecycleOf, updateTask, pendingOf, Function.update_of_ne hu]
  · simp [view, lifecycleOf, updateTask, pendingOf]

theorem setPlanBlock_changes (marked : Bool) :
    Changes taskId (fun v v' => v' = { v with marked := marked }) s
      (s.setPlanBlock taskId marked) := by
  constructor
  · intro u hu
    simp [view, lifecycleOf, setPlanBlock, pendingOf, Function.update_of_ne hu]
  · simp [view, lifecycleOf, setPlanBlock, pendingOf]

theorem setPlanGateHold_changes (hold : Option PlanGateHold) :
    Changes taskId (fun v v' => v' = { v with hold := hold }) s
      (s.setPlanGateHold taskId hold) := by
  constructor
  · intro u hu
    simp [view, lifecycleOf, setPlanGateHold, pendingOf, Function.update_of_ne hu]
  · simp [view, lifecycleOf, setPlanGateHold, pendingOf]

theorem setPlanRows_changes (rows : List PlanObligationRecord) :
    Changes taskId (fun v v' => v' = { v with rows := rows }) s (s.setPlanRows taskId rows) := by
  constructor
  · intro u hu
    simp [view, lifecycleOf, setPlanRows, pendingOf, Function.update_of_ne hu]
  · simp [view, lifecycleOf, setPlanRows, pendingOf]

theorem setPlans_changes (plans : List PlanRevisionRecord) :
    Changes taskId (fun v v' => v' = { v with plans := plans }) s (s.setPlans taskId plans) := by
  constructor
  · intro u hu
    simp [view, lifecycleOf, setPlans, pendingOf, Function.update_of_ne hu]
  · simp [view, lifecycleOf, setPlans, pendingOf]

theorem setPlanSelection_changes (selection : PlanSelectionRecord) :
    Changes taskId (fun v v' => v' = { v with selection := some selection }) s
      (s.setPlanSelection taskId selection) := by
  constructor
  · intro u hu
    simp [view, lifecycleOf, setPlanSelection, pendingOf, Function.update_of_ne hu]
  · simp [view, lifecycleOf, setPlanSelection, pendingOf]

theorem le_foldl_max {l : List ℕ} {n : ℕ} (h : n ∈ l) : n ≤ l.foldl max 0 := by
  rw [foldl_eq_foldr]
  exact le_max_of_le' 0 h le_rfl

theorem cursor_ne_nextCursor {e : EventRow} (h : e ∈ s.events) : e.cursor ≠ s.nextCursor :=
  (Nat.lt_succ_of_le (le_foldl_max (mem_map_of_mem h))).ne

/-- The journal is no part of a view. -/
def Journals (s s' : TaskStore) : Prop := ∃ events, s' = { s with events := events }

theorem Journals.trans (h : Journals s s') (h' : Journals s' s'') : Journals s s'' := by
  obtain ⟨_, rfl⟩ := h
  obtain ⟨events, rfl⟩ := h'
  exact ⟨events, rfl⟩

theorem Journals.view (h : Journals s s') (u : TaskId) : s'.view u = s.view u := by
  obtain ⟨_, rfl⟩ := h
  rfl

theorem appendEvent_journals (sessionId : SessionId) (task : Option TaskId)
    (aggregate : String × ℕ) (eventType : String) (delta : List (String × Value))
    (origin : String) :
    Within Refuses (Journals s) (s.appendEvent sessionId task aggregate eventType delta origin) := by
  apply skip
  intro _
  apply skip
  intro _
  exact ⟨_, rfl⟩

theorem journalDeaths_journals (sessionId : SessionId) (killed : List QuestionRow)
    (cause : QuestionRow → List (String × Value)) (origin : String) :
    Within Refuses (Journals s) (s.journalDeaths sessionId taskId killed cause origin) := by
  apply Within.foldlM (I := fun _ s' => Journals s s')
  · intro seen s' q _ hs'
    exact (appendEvent_journals _ _ _ _ _ _).imp fun _ h => hs'.trans h
  · exact ⟨_, rfl⟩

theorem storedU64_within (value : ℕ) :
    Within Refuses (fun stored => stored = value) (storedU64 value) := by
  apply Within.guard
  intro _
  rfl

/-! ## Questions -/

theorem filter_map_ite {α : Type*} {l : List α} {p c : α → Prop} [DecidablePred p]
    [DecidablePred c] {f : α → α} (hf : ∀ a, c a → ¬ p (f a)) :
    (l.map fun a => if c a then f a else a).filter (fun a => p a) =
      (l.filter fun a => p a).filter fun a => ¬ c a := by
  induction l with
  | nil => rfl
  | cons a l ih =>
    by_cases hc : c a
    · by_cases hp : p a <;> simp_all
    · by_cases hp : p a <;> simp_all

theorem mem_pendingOf {q : QuestionRow} :
    q ∈ s.pendingOf u ↔ q ∈ s.questions.rows ∧ q.taskId = u ∧ q.state = .pending := by
  simp [pendingOf]

theorem pendingOf_supersede (dies : QuestionRow → Bool) :
    (s.supersede dies).pendingOf u = (s.pendingOf u).filter fun q => !dies q := by
  unfold pendingOf supersede
  simp only [QuestionTable.update]
  rw [filter_map_ite fun q _ => by simp]
  apply filter_congr
  intro q hq
  simp [(mem_pendingOf.mp hq).2.2]

theorem pendingOf_setAnswer (questionId : QuestionId) (selection : AnswerSelection)
    (author : String) :
    (s.setAnswer questionId selection author).pendingOf u =
      (s.pendingOf u).filter (·.questionId ≠ questionId) := by
  unfold pendingOf setAnswer
  simp only [QuestionTable.update]
  rw [filter_map_ite fun q _ => by simp]

theorem supersede_changes (dies : QuestionRow → Bool)
    (hdies : ∀ q, dies q = true → q.taskId = taskId) :
    Changes taskId (fun v v' => v' = { v with pending := v.pending.filter fun q => !dies q }) s
      (s.supersede dies) := by
  constructor
  · intro u hu
    simp only [view, pendingOf_supersede]
    congr 1
    rw [filter_eq_self]
    intro q hq
    by_contra hdie
    exact hu ((mem_pendingOf.mp hq).2.1.symm.trans (hdies q (by simpa using hdie)))
  · simp only [view, pendingOf_supersede]
    rfl

theorem supersedePendingQuestions_changes (sessionId : SessionId) (liveIntent : ℕ)
    (origin : String) :
    Within Refuses
      (Changes taskId (fun v v' =>
        v' = { v with pending := v.pending.filter (·.intentRevision = liveIntent) }) s)
      (s.supersedePendingQuestions sessionId taskId liveIntent origin) := by
  apply (journalDeaths_journals _ _ _ _).imp
  intro s' hs'
  have hkill := supersede_changes (s := s)
    (fun q => decide (q.taskId = taskId ∧ q.intentRevision ≠ liveIntent))
    fun q hq => (of_decide_eq_true hq).1
  refine ⟨fun u hu => (hs'.view u).trans (hkill.1 u hu), ?_⟩
  rw [hs'.view, hkill.2]
  congr 1
  apply filter_congr
  intro q hq
  simp [(mem_pendingOf.mp hq).2.1]

theorem supersedeTerminalQuestions_changes (sessionId : SessionId) (lifecycle : Lifecycle)
    (origin : String) :
    Within Refuses (Changes taskId (fun v v' => v' = { v with pending := [] }) s)
      (s.supersedeTerminalQuestions sessionId taskId lifecycle origin) := by
  apply (journalDeaths_journals _ _ _ _).imp
  intro s' hs'
  have hkill := supersede_changes (s := s) (fun q => decide (q.taskId = taskId))
    fun q hq => of_decide_eq_true hq
  refine ⟨fun u hu => (hs'.view u).trans (hkill.1 u hu), ?_⟩
  rw [hs'.view, hkill.2]
  congr 1
  rw [filter_eq_nil_iff]
  intro q hq
  simp [(mem_pendingOf.mp hq).2.1]

/-! ## The settlement -/

theorem updateTask_moved (source : Lifecycle → Bool) (target : Lifecycle)
    {f : TaskRow → TaskRow}
    (hl : ∀ r, (f r).lifecycle = if source r.lifecycle then target else r.lifecycle)
    (hi : ∀ r, (f r).intentRevision = r.intentRevision) :
    Changes taskId (fun v v' => v' = { v with lifecycle := moved source target v.lifecycle }) s
      (s.updateTask taskId f) := by
  refine ⟨(updateTask_changes f).1, ?_⟩
  rw [(updateTask_changes f).2]
  cases h : s.tasks taskId with
  | none => simp [view, lifecycleOf, h, moved]
  | some task => simp [view, lifecycleOf, h, moved, hl, hi]

theorem moveTask_changes (source : Lifecycle → Bool) (lifecycle : Lifecycle) :
    Changes taskId (fun v v' => v' = { v with lifecycle := moved source lifecycle v.lifecycle }) s
      (s.moveTask taskId source lifecycle) := by
  apply updateTask_moved
  · intro r
    split <;> rfl
  · intro r
    split <;> rfl

theorem flipTask_changes (source lifecycle : Lifecycle) :
    Changes taskId
      (fun v v' => v' = { v with lifecycle := moved (· = source) lifecycle v.lifecycle }) s
      (s.flipTask taskId source lifecycle) := by
  apply updateTask_moved
  · intro r
    by_cases h : r.lifecycle = source <;> simp [h]
  · intro r
    split <;> rfl

theorem view_lifecycle {l : Lifecycle} {task : TaskRow} (h : s.tasks taskId = some task)
    (hl : task.lifecycle = l) : (s.view taskId).lifecycle = some l := by
  simp [view, lifecycleOf, h, hl]

theorem view_isLive {task : TaskRow} (h : s.tasks taskId = some task)
    (hl : task.lifecycle.isTerminal = false) : (s.view taskId).IsLive :=
  ⟨_, view_lifecycle h rfl, hl⟩

theorem releasePlanOwnedBlock_changes (h : s.lifecycleOf taskId = some .blocked) :
    Changes taskId Releases s (s.releasePlanOwnedBlock taskId) := by
  unfold releasePlanOwnedBlock
  split
  · next hrel =>
    have hl : (s.view taskId).lifecycle = some .blocked := h
    have hpending : (s.view taskId).pending = [] := by
      apply eq_nil_of_length_eq_zero
      have := hrel.2
      exact Nat.eq_zero_of_add_eq_zero_left this
    apply ((moveTask_changes _ _).trans (setPlanBlock_changes false)).imp
    rintro v' ⟨_, rfl, rfl⟩
    rw [show moved (· = .blocked) .running (s.view taskId).lifecycle = some .running by
      simp [hl, moved]]
    exact .releases hl hrel.1 hpending
  · exact ⟨fun _ _ => rfl, .stays _⟩

theorem settlePlanLifecycle_changes :
    Within Refuses (Changes taskId Settles s) (s.settlePlanLifecycle taskId) := by
  apply Within.look
  intro task htask
  have hview := fun {l} => view_lifecycle (l := l) htask
  have hstays : (task.lifecycle = .running → s.heldOn taskId = false) →
      Changes taskId Settles s s := by
    intro h
    refine ⟨fun _ _ => rfl, .stays fun hr => h ?_⟩
    rw [hview rfl] at hr
    exact Option.some.inj hr
  split
  · next hl =>
    split
    · next hheld =>
      apply ((moveTask_changes _ _).trans (setPlanBlock_changes true)).imp
      rintro v' ⟨_, rfl, rfl⟩
      rw [show moved (· = .running) .blocked (s.view taskId).lifecycle = some .blocked by
        simp [hview hl, moved]]
      exact .blocks (hview hl) hheld
    · next hheld => exact hstays fun _ => by simpa using hheld
  · next hl =>
    split
    · exact hstays fun h => by simp [h] at hl
    · next hheld =>
      apply (releasePlanOwnedBlock_changes (hview hl)).imp
      intro v' hrel
      exact .releases (hview hl) (show s.heldOn taskId = false by simpa using hheld) hrel
  all_goals
    next hl => exact hstays fun h => by simp [h] at hl

theorem settlePlanGateHold_changes :
    Changes taskId (fun v v' => v' = v.settleHold) s (s.settlePlanGateHold taskId) := by
  have hset : ∀ hold, (s.view taskId).settledHold = hold →
      Changes taskId (fun v v' => v' = v.settleHold) s (s.setPlanGateHold taskId hold) := by
    rintro hold rfl
    exact setPlanGateHold_changes _
  have hstay : (s.view taskId).settledHold = s.planGateHolds taskId →
      Changes taskId (fun v v' => v' = v.settleHold) s s := by
    intro h
    refine ⟨fun _ _ => rfl, ?_⟩
    change s.view taskId = { s.view taskId with hold := (s.view taskId).settledHold }
    rw [h]
    rfl
  have hgate : (s.view taskId).gate = s.gateOn taskId := rfl
  have hhold : (s.view taskId).hold = s.planGateHolds taskId := rfl
  unfold settlePlanGateHold
  split
  · next h =>
    apply hstay
    simp [settledHold, hhold, h]
  · next h =>
    split
    · next hg =>
      apply hset
      simp [settledHold, hhold, hgate, h, hg]
    · next hg =>
      have hsettled : (s.view taskId).settledHold = some .unassessed := by
        simp [settledHold, hhold, hgate, h, hg]
      split
      · exact hset _ hsettled
      · next hkind => exact hstay (by rw [hsettled, h, not_not.mp hkind])
    · next hg =>
      have hsettled : (s.view taskId).settledHold = some .paused := by
        simp [settledHold, hhold, hgate, h, hg]
      split
      · exact hset _ hsettled
      · next hkind => exact hstay (by rw [hsettled, h, not_not.mp hkind])

theorem settlePlanState_changes :
    Within Refuses (Changes taskId SettlesState s) (s.settlePlanState taskId) := by
  apply settlePlanLifecycle_changes.imp
  intro s' hs'
  apply (settlePlanGateHold_changes.trans hs').imp
  rintro v' ⟨_, rfl, h⟩
  exact h

/-- A settlement closes what the statements before it did. -/
theorem settlePlanState_after {R : TaskView → TaskView → Prop} (h : Changes taskId R s s') :
    Within Refuses (Changes taskId (fun v v' => ∃ v1, R v v1 ∧ SettlesState v1 v') s)
      (s'.settlePlanState taskId) :=
  settlePlanState_changes.imp fun _ h' => h.trans h'

theorem requireOpenTask_isLive :
    Within Refuses (fun _ => (s.view taskId).IsLive) (s.requireOpenTask taskId) := by
  apply Within.look
  intro task htask
  apply (Within.require fun _ => trivial).imp
  exact fun _ hl => view_isLive htask hl

theorem checkPlanBinding_within (selectionRevision : ℕ) (factsDigest : String) :
    Within Refuses
      (fun _ => (s.view taskId).IsLive ∧ ∃ selection, s.planSelections taskId = some selection ∧
        selection.revision = selectionRevision ∧ selection.factsDigest = factsDigest)
      (s.checkPlanBinding taskId selectionRevision factsDigest) := by
  apply Within.bind requireOpenTask_isLive
  intro _ hlive
  apply Within.look
  intro selection hselection
  apply (Within.require fun _ => trivial).imp
  exact fun _ h => ⟨hlive, selection, hselection, h⟩

theorem rewrites_trans {v v' v'' : TaskView} (h : Rewrites v v') (h' : Rewrites v' v'') :
    Rewrites v v'' := by
  obtain ⟨_, rfl⟩ := h
  obtain ⟨rows, rfl⟩ := h'
  exact ⟨rows, rfl⟩

theorem updatePlanRows_changes (source : PlanObligationRecord → Bool)
    (f : PlanObligationRecord → PlanObligationRecord) :
    Changes taskId Rewrites s (s.updatePlanRows taskId source f) :=
  (setPlanRows_changes _).imp fun _ h => ⟨_, h⟩

theorem applyPlanRowChange_changes (capability handler : String) (change : PlanRowChange) :
    Within Refuses (Changes taskId Rewrites s)
      (s.applyPlanRowChange taskId capability handler change) := by
  apply skip
  intro _
  apply skip
  intro _
  apply skip
  intro _
  exact updatePlanRows_changes _ _

theorem applyPlanRowChanges_changes (handler : String) (changes : List (String × PlanRowChange)) :
    Within Refuses (Changes taskId Rewrites s)
      (changes.foldlM (fun s change => s.applyPlanRowChange taskId change.1 handler change.2)
        s) := by
  apply Within.foldlM (I := fun _ s' => Changes taskId Rewrites s s')
  · intro seen s' change _ hs'
    apply (applyPlanRowChange_changes _ _ _).imp
    intro s'' hs''
    apply (hs'.trans hs'').imp
    rintro v' ⟨_, h, h'⟩
    exact rewrites_trans h h'
  · exact ⟨fun _ _ => rfl, _, rfl⟩

/-! ## The plan writes -/

theorem updatePlanRow_moves (update : PlanRowUpdate) :
    Within Refuses (Moves (.updatePlanRow taskId update) s) (s.updatePlanRow taskId update) := by
  apply Within.bind (checkPlanBinding_within _ _)
  rintro _ ⟨hlive, -⟩
  apply Within.bind (applyPlanRowChange_changes _ _ _)
  intro s1 h1
  apply (settlePlanState_after h1).imp
  intro s' h
  apply Changes.moves (m := .change) ?_ (by rfl)
  apply h.imp
  rintro v' ⟨_, ⟨rows, rfl⟩, hset⟩
  exact ⟨hlive, rows, hset⟩

theorem recordPlanRevision_changes (revision : PlanRevisionWrite) :
    Within Refuses (fun r => Changes taskId (Step (.revise revision)) s r.1)
      (s.recordPlanRevision taskId revision) := by
  apply Within.bind (checkPlanBinding_within _ _)
  rintro _ ⟨hlive, selection, hselection, hrevision, -⟩
  apply Within.bind (storedU64_within _)
  rintro _ rfl
  apply Within.bind (applyPlanRowChange_changes _ _ _)
  intro s1 h1
  apply Within.bind
    (settlePlanState_after (((setPlans_changes _).trans h1).trans (updatePlanRows_changes _ _)))
  intro s' h
  apply h.imp
  rintro v' ⟨_, ⟨_, ⟨_, rfl, _, rfl⟩, rows, rfl⟩, hset⟩
  exact ⟨hlive, ⟨selection, hselection, hrevision⟩, rows, hset⟩

theorem recordPlanRevision_moves (revision : PlanRevisionWrite) :
    Within Refuses (fun r => Moves (.recordPlanRevision taskId revision) s r.1)
      (s.recordPlanRevision taskId revision) :=
  (recordPlanRevision_changes revision).imp fun _ h =>
    Changes.moves (m := .revise revision) h (by exact ⟨rfl, rfl⟩)

theorem recordPlanAssessment_moves (assessment : PlanAssessmentWrite) :
    Within Refuses (Moves (.recordPlanAssessment taskId assessment) s)
      (s.recordPlanAssessment taskId assessment) := by
  apply Within.bind (checkPlanBinding_within _ _)
  rintro _ ⟨hlive, selection, hselection, hrevision, -⟩
  apply Within.bind (storedU64_within _)
  rintro _ rfl
  apply Within.guard
  intro hjudged
  apply Within.bind (applyPlanRowChanges_changes _ _)
  intro s1 h1
  apply (settlePlanState_after ((setPlans_changes _).trans h1)).imp
  intro s' h
  apply Changes.moves (m := .assess assessment) ?_ (by exact ⟨rfl, rfl⟩)
  apply h.imp
  rintro v' ⟨_, ⟨_, rfl, rows, rfl⟩, hset⟩
  exact ⟨hlive, ⟨selection, hselection, hrevision⟩, by simpa [view] using hjudged, rows, hset⟩

theorem holdForPlanGate_moves (observed : PlanGateHold) :
    Within Refuses (fun r => Moves (.holdForPlanGate taskId observed) s r.1)
      (s.holdForPlanGate taskId observed) := by
  apply Within.bind requireOpenTask_isLive
  intro _ hlive
  have hstep : Changes taskId
      (fun v v' => ∃ hold, (hold = v.hold ∨ v.gate ≠ .open) ∧ v' = { v with hold := hold }) s
      (if s.gateOn taskId ≠ .open then s.setPlanGateHold taskId (some observed) else s) := by
    split
    · next hgate => exact (setPlanGateHold_changes _).imp fun _ h => ⟨_, .inr hgate, h⟩
    · exact ⟨fun _ _ => rfl, _, .inl rfl, rfl⟩
  apply Within.bind (settlePlanState_after hstep)
  intro s' h
  apply Changes.moves (m := .hold) ?_ (by rfl)
  apply h.imp
  rintro v' ⟨_, ⟨hold, hhold, rfl⟩, hset⟩
  exact ⟨hlive, hold, hhold, hset⟩

theorem markPlanApplicabilityUnresolved_moves :
    Within Refuses (Moves (.markPlanApplicabilityUnresolved taskId) s)
      (s.markPlanApplicabilityUnresolved taskId) := by
  apply Within.bind requireOpenTask_isLive
  intro _ hlive
  split
  · exact Moves.of_view fun _ => rfl
  · apply (settlePlanState_after (setPlanRows_changes _)).imp
    intro s' h
    apply Changes.moves (m := .change) ?_ (by rfl)
    apply h.imp
    rintro v' ⟨_, rfl, hset⟩
    exact ⟨hlive, _, hset⟩

/-! ## A new selection -/

/-- What the loop over the replaced rows has done: some questions died, or none yet. -/
def Superseding (s : TaskStore) (taskId : TaskId) (acc : TaskStore × Bool) : Prop :=
  Changes taskId (fun v v' => ∃ pending, v' = { v with pending := pending } ∧
    pending.Sublist v.pending ∧ (acc.2 = false → pending = v.pending) ∧
    (acc.2 = true → pending.length < v.pending.length)) s acc.1

theorem mem_killed {dies : QuestionRow → Bool} {q : QuestionRow} :
    q ∈ s.killed dies ↔ q ∈ s.questions.rows ∧ q.state = .pending ∧ dies q = true := by
  simp [killed]

theorem supersedePlanQuestion_within (sessionId : SessionId) (selectionRevision next : ℕ)
    {acc : TaskStore × Bool} (row : PlanObligationRecord) (h : Superseding s taskId acc) :
    Within Refuses (Superseding s taskId)
      (supersedePlanQuestion sessionId taskId selectionRevision next acc row) := by
  unfold supersedePlanQuestion
  split
  · next _ _ questionId _ _ =>
    apply Within.bind (storedU64_within _)
    rintro revision rfl
    dsimp only
    split
    · exact h
    · next q rest hkilled =>
      apply Within.bind (appendEvent_journals _ _ _ _ _ _)
      intro s1 hs1
      have hq := (mem_killed (q := q)).mp (by rw [hkilled]; exact mem_cons_self)
      have hdies := of_decide_eq_true hq.2.2
      obtain ⟨hother, pending, hview, hsub, -, -⟩ := h
      have hkill := supersede_changes (s := acc.1)
        (fun q => decide (q.questionId = questionId ∧ q.taskId = taskId ∧
          q.revision = revision)) fun q hq => (of_decide_eq_true hq).2.1
      have hmem : q ∈ pending := by
        rw [← show acc.1.pendingOf taskId = pending from congrArg TaskView.pending hview]
        exact mem_pendingOf.mpr ⟨hq.1, hdies.2.1, hq.2.1⟩
      refine ⟨fun u hu => ((hs1.view u).trans (hkill.1 u hu)).trans (hother u hu), _,
        by rw [hs1.view, hkill.2, hview], filter_sublist.trans hsub, by simp, fun _ => ?_⟩
      apply Nat.lt_of_lt_of_le _ hsub.length_le
      exact length_filter_lt_length_iff_exists.mpr ⟨q, hmem, by simp [hdies]⟩
  · exact h

theorem supersedePlanQuestions_changes (sessionId : SessionId) (selectionRevision next : ℕ) :
    Within Refuses (Changes taskId DropsQuestions s)
      (s.supersedePlanQuestions sessionId taskId selectionRevision next) := by
  apply Within.bind
  · apply Within.foldlM (I := fun _ acc => Superseding s taskId acc)
    · intro seen row acc _ hacc
      exact supersedePlanQuestion_within _ _ _ row hacc
    · exact ⟨fun _ _ => rfl, _, rfl, Sublist.refl _, fun _ => rfl, by simp⟩
  rintro ⟨s1, superseded⟩ ⟨hother, pending, hview, hsub, hkept, hlt⟩
  rw [ok_iff]
  cases superseded with
  | false =>
    refine ⟨hother, ?_⟩
    rw [if_neg (by decide)]
    rw [hview, hkept rfl]
    exact .keeps _
  | true =>
    rw [if_pos rfl]
    have hflip : Changes taskId
        (fun v v' => v' = { v with lifecycle := moved (· = .waiting) .running v.lifecycle }) s1
        (s1.flipTask taskId .waiting .running) := flipTask_changes _ _
    refine ⟨fun u hu => (hflip.1 u hu).trans (hother u hu), ?_⟩
    rw [supersessionResumesTask, hflip.2, hview]
    exact .drops pending hsub (hlt rfl)

theorem supersedeReplaced_changes (sessionId : SessionId) (next : ℕ) :
    Within Refuses (Changes taskId DropsQuestions s)
      (s.supersedeReplaced sessionId taskId next) := by
  unfold supersedeReplaced
  split
  · exact supersedePlanQuestions_changes _ _ _
  · exact ⟨fun _ _ => rfl, .keeps _⟩

theorem recordPlanSelection_changes (sessionId : SessionId) (selection : PlanSelectionWrite)
    (hfresh : (s.planSelections taskId).filter (·.factsDigest = selection.factsDigest) = none) :
    Within Refuses (fun r => Changes taskId (Step (.select selection.factsDigest)) s r.1)
      (s.recordPlanSelection sessionId taskId selection) := by
  apply Within.bind requireOpenTask_isLive
  intro _ hlive
  rw [hfresh]
  apply Within.bind (supersedeReplaced_changes _ _)
  intro s1 h1
  apply Within.bind (storedU64_within _)
  rintro _ rfl
  apply Within.guard
  intro _
  apply Within.bind (settlePlanState_after
    ((h1.trans (setPlanSelection_changes _)).trans (setPlanRows_changes _)))
  intro s' h
  apply h.imp
  rintro v' ⟨_, ⟨_, ⟨v1, hv1, rfl⟩, rfl⟩, hset⟩
  refine ⟨hlive, v1, _, _, hv1, rfl, rfl, ?_, hset⟩
  intro current hcurrent
  have := Option.filter_eq_none_iff.mp hfresh current hcurrent
  simpa using this

theorem recordPlanSelection_moves (sessionId : SessionId) (selection : PlanSelectionWrite) :
    Within Refuses (fun r => Moves (.recordPlanSelection sessionId taskId selection) s r.1)
      (s.recordPlanSelection sessionId taskId selection) := by
  cases hcurrent : (s.planSelections taskId).filter (·.factsDigest = selection.factsDigest) with
  | none =>
    exact (recordPlanSelection_changes sessionId selection hcurrent).imp fun _ h =>
      Changes.moves (m := .select selection.factsDigest) h (by exact ⟨rfl, rfl⟩)
  | some current =>
    apply Within.bind requireOpenTask_isLive
    intro _ hlive
    rw [hcurrent]
    dsimp only
    unfold resetRecoveredPlanRows
    split
    · exact Moves.of_view fun _ => rfl
    · dsimp only
      split
      · apply Within.bind (settlePlanState_after (setPlanRows_changes _))
        intro s' h
        apply Changes.moves (m := .change) ?_ (by rfl)
        apply h.imp
        rintro v' ⟨_, rfl, hset⟩
        exact ⟨hlive, _, hset⟩
      · exact Moves.of_view fun _ => rfl

/-! ## The task operations -/

theorem Creates.changes {params : CreateParams} (h : Creates taskId params s s') :
    Changes taskId (Step .create) s s' := by
  obtain ⟨habsent, -, _, _, _, rfl⟩ := h
  constructor
  · intro u hu
    simp [view, lifecycleOf, pendingOf, Function.update_of_ne hu]
  · exact ⟨by simp [view, lifecycleOf, habsent], by simp [view, lifecycleOf, pendingOf]⟩

theorem createTask_moves (criterionId : ℕ → String) (commandId : String)
    (params : CreateParams) :
    Within Refuses (fun r => Moves (.createTask taskId criterionId commandId params) s r.1)
      (s.createTask taskId criterionId commandId params) := by
  apply (createTask_creates criterionId commandId params).imp
  rintro r (hsame | ⟨-, hcreates⟩)
  · exact Moves.of_view fun _ => by rw [hsame]
  · exact hcreates.changes.moves (by rfl)

theorem insertQuestionRow_changes (question : Question) :
    Within Refuses
      (Changes question.taskId (fun v v' => ∃ q, q.intentRevision = question.intentRevision ∧
        v' = { v with pending := v.pending ++ [q] }) s) (s.insertQuestionRow question) := by
  unfold insertQuestionRow
  dsimp only
  split
  · constructor
    · intro u hu
      simp [view, lifecycleOf, pendingOf, QuestionTable.insert, Ne.symm hu]
    · refine ⟨⟨question.questionId, question.taskId, question.questionRevision,
        question.intentRevision, question, .pending, none, none⟩, rfl, ?_⟩
      simp [view, lifecycleOf, pendingOf, QuestionTable.insert]
  · trivial

theorem view_intent {task : TaskRow} (h : s.tasks taskId = some task) :
    (s.view taskId).intent = task.intentRevision := by
  simp [view, h]

theorem insertQuestion_changes (sessionId : SessionId) (question : Question) :
    Within Refuses (Changes question.taskId (fun v v' => ∃ q, Publishes q v v') s)
      (s.insertQuestion sessionId question) := by
  apply Within.look
  intro task htask
  apply Within.guard
  intro hlifecycle
  apply Within.guard
  intro hintent
  apply Within.bind (supersedePendingQuestions_changes _ _ _)
  intro s1 h1
  apply Within.guard
  intro hempty
  apply Within.bind (insertQuestionRow_changes question)
  intro s2 h2
  have h3 := (h1.trans h2).trans (updateTask_moved (fun _ => true) .waiting
    (f := fun r =>
      { r with
        revision := task.revision + 1
        lifecycle := .waiting
        eventCursor := r.eventCursor + 1 }) (fun _ => rfl) (fun _ => rfl))
  apply (appendEvent_journals _ _ _ _ _ _).imp
  intro s' hs'
  refine ⟨fun u hu => (hs'.view u).trans (h3.1 u hu), ?_⟩
  rw [hs'.view]
  obtain ⟨_, ⟨v1, rfl, q, hq, rfl⟩, hview⟩ := h3.2
  have hpending : (s.view question.taskId).pending.filter
      (·.intentRevision = task.intentRevision) = [] :=
    (congrArg TaskView.pending h1.2).symm.trans hempty
  refine ⟨q, ?_, hq.trans (hintent.trans (view_intent htask).symm), ?_⟩
  · rw [view_lifecycle htask rfl]
    simpa using hlifecycle
  · refine hview.trans ?_
    rw [hpending, view_lifecycle htask rfl]
    rfl

theorem publishQuestion_moves (sessionId : SessionId) (question : Question) :
    Within Refuses (Moves (.publishQuestion sessionId question) s)
      (s.publishQuestion sessionId question) := by
  apply (insertQuestion_changes sessionId question).imp
  intro s' h
  exact Changes.moves (m := .publish question) h (by exact ⟨rfl, rfl⟩)

theorem publishPlanFork_moves (sessionId : SessionId) (question : Question)
    (update : PlanRowUpdate) :
    Within Refuses (Moves (.publishPlanFork sessionId question update) s)
      (s.publishPlanFork sessionId question update) := by
  apply Within.bind (checkPlanBinding_within _ _)
  rintro _ ⟨hlive, -⟩
  apply Within.look
  intro task htask
  have hrel : Changes question.taskId Releases s
      (if task.lifecycle = .blocked then s.releasePlanOwnedBlock question.taskId else s) := by
    split
    · next hl => exact releasePlanOwnedBlock_changes (view_lifecycle htask hl)
    · exact ⟨fun _ _ => rfl, .stays _⟩
  apply Within.bind (applyPlanRowChange_changes _ _ _)
  intro s1 h1
  apply Within.bind (insertQuestion_changes sessionId question)
  intro s2 h2
  apply (settlePlanState_after ((hrel.trans h1).trans h2)).imp
  intro s' h
  apply Changes.moves (m := .fork question update) ?_ (by exact ⟨rfl, rfl, rfl⟩)
  apply h.imp
  rintro v' ⟨v2, ⟨_, ⟨v1, hv1, rows, rfl⟩, q, hpub⟩, hset⟩
  exact ⟨hlive, v1, q, rows, v2, hv1, hpub, hset⟩

theorem question_unique {q r : QuestionRow} (hq : q ∈ s.questions.rows)
    (hr : r ∈ s.questions.rows) (h : q.questionId = r.questionId) : q = r :=
  inj_on_of_nodup_map s.questions.keyed hq hr h

theorem questionById_some {questionId : QuestionId} {q : QuestionRow}
    (h : s.questionById questionId taskId = some q) :
    q ∈ s.questions.rows ∧ q.questionId = questionId ∧ q.taskId = taskId := by
  have hq := find?_some h
  exact ⟨mem_of_find?_eq_some h, of_decide_eq_true hq⟩

theorem setAnswer_changes {questionId : QuestionId} {q : QuestionRow}
    (hq : s.questionById questionId taskId = some q) (selection : AnswerSelection)
    (author : String) :
    Changes taskId
      (fun v v' => v' = { v with pending := v.pending.filter (·.questionId ≠ questionId) }) s
      (s.setAnswer questionId selection author) := by
  obtain ⟨hmem, rfl, rfl⟩ := questionById_some hq
  constructor
  · intro u hu
    simp only [view, pendingOf_setAnswer]
    congr 1
    rw [filter_eq_self]
    intro r hr
    obtain ⟨hrmem, hrtask, -⟩ := mem_pendingOf.mp hr
    by_contra hid
    have := question_unique hrmem hmem (by simpa using hid)
    exact hu (hrtask.symm.trans (congrArg QuestionRow.taskId this))
  · simp only [view, pendingOf_setAnswer]
    rfl

theorem retainAnsweredPlanFork_changes (questionId : QuestionId) (questionRevision : ℕ) :
    Changes taskId (fun v v' => ∃ rows, SameRows v.rows rows ∧ v' = { v with rows := rows }) s
      (s.retainAnsweredPlanFork taskId questionId questionRevision) := by
  have hstay : Changes taskId
      (fun v v' => ∃ rows, SameRows v.rows rows ∧ v' = { v with rows := rows }) s s :=
    ⟨fun _ _ => rfl, s.planObligations taskId, ⟨PlanObligationRecord.outcome, by simp [view]⟩,
      rfl⟩
  unfold retainAnsweredPlanFork
  split
  · exact hstay
  · next selection _ =>
    split
    · exact hstay
    · next row _ =>
      apply (setPlanRows_changes _).imp
      intro v' h
      refine ⟨_, ⟨fun r => if r.capability = row.capability then
        some (.answeredFork questionId questionRevision selection.revision selection.factsDigest)
        else r.outcome, ?_⟩, h⟩
      apply map_congr_left
      intro r _
      by_cases hr : r.capability = row.capability <;> simp [hr]

section

variable (sessionId : SessionId)
include sessionId

theorem answerQuestionCommit_changes (questionId : QuestionId)
    (questionRevision : ℕ) (selection : AnswerSelection) (author : String) :
    Within Refuses (fun r => Changes taskId (Step (.answer questionId)) s r.1)
      (s.answerQuestionCommit sessionId taskId questionId questionRevision selection author) := by
  apply Within.look
  intro task htask
  apply Within.guard
  intro hlive
  apply Within.look
  intro q hq
  apply Within.guard
  intro hpending
  apply skip
  intro _
  apply skip
  intro _
  apply skip
  intro _
  apply Within.bind (appendEvent_journals _ _ _ _ _ _)
  intro s1 hs1
  apply Within.bind settlePlanLifecycle_changes
  intro s2 h2
  apply skip
  intro _
  have hset := (setAnswer_changes hq selection author).trans (updateTask_moved
    (fun _ => true) .running (f := fun r =>
      { r with
        revision := task.revision + 1
        lifecycle := .running
        eventCursor := r.eventCursor + 1 }) (fun _ => rfl) (fun _ => rfl))
  have hjournal : Changes taskId (fun v v' => v' = v) _ (s1.insertAnswerAttempt
      ⟨questionId, taskId, questionRevision, .selection selection, author, .applied, none⟩) :=
    ⟨fun u _ => hs1.view u, hs1.view taskId⟩
  apply (((hset.trans hjournal).trans (retainAnsweredPlanFork_changes _ _)).trans h2).imp
  rintro v' ⟨_, ⟨_, ⟨_, ⟨_, rfl, rfl⟩, rfl⟩, rows, hrows, rfl⟩, hsettle⟩
  obtain ⟨hmem, hid, htaskId⟩ := questionById_some hq
  refine ⟨view_isLive htask hlive, q, mem_pendingOf.mpr ⟨hmem, htaskId, hpending⟩, hid, rows,
    hrows, ?_⟩
  rw [view_lifecycle htask rfl] at hsettle
  exact hsettle

theorem answerQuestion_moves (questionId : QuestionId)
    (questionRevision : ℕ) (selection : AnswerSelection) (author : String) :
    Moves (.answerQuestion sessionId taskId questionId questionRevision selection author) s
      (s.answerQuestion sessionId taskId questionId questionRevision selection author).1 := by
  have h : Within Refuses (fun r => Changes taskId (Step (.answer questionId)) s r.1)
      (s.answerQuestionCommit sessionId taskId questionId questionRevision selection author) :=
    answerQuestionCommit_changes _ _ _ _ _
  unfold answerQuestion
  split
  · next s' result hok =>
    rw [hok] at h
    exact Changes.moves (m := .answer questionId) h (by exact ⟨rfl, rfl⟩)
  · exact Moves.of_view fun _ => rfl

theorem pauseForWorkflowOff_moves :
    Within Refuses (fun r => Moves (.pauseForWorkflowOff sessionId taskId) s r.1)
      (s.pauseForWorkflowOff sessionId taskId) := by
  apply Within.look
  intro task htask
  split
  · next hl =>
    apply Within.bind (appendEvent_journals _ _ _ _ _ _)
    intro s' hs'
    apply Changes.moves (m := .pause) ?_ (by rfl)
    have hmove : Changes taskId
        (fun v v' => v' = { v with
          lifecycle := moved (fun l => l = .running ∨ l = .waiting) .paused v.lifecycle }) s
        (s.moveTask taskId (fun l => l = .running ∨ l = .waiting) .paused) := moveTask_changes _ _
    refine ⟨fun u hu => (hs'.view u).trans (hmove.1 u hu), ?_, ?_⟩
    · rw [view_lifecycle htask rfl]
      simpa using hl
    · rw [hs'.view, hmove.2, view_lifecycle htask rfl]
      simp [moved, hl]
  · exact Moves.of_view fun _ => rfl

theorem steerTask_moves (intent revision : ℕ) (instruction : String) :
    Within Refuses
      (fun r => Moves (.steerTask sessionId taskId intent revision instruction) s r.1)
      (s.steerTask sessionId taskId intent revision instruction) := by
  apply Within.look
  intro task htask
  apply Within.guard
  intro hlive
  apply skip
  intro _
  apply skip
  intro _
  apply Within.bind (supersedePendingQuestions_changes _ _ _)
  intro s1 h1
  apply Within.bind (appendEvent_journals _ _ _ _ _ _)
  intro s2 hs2
  apply Within.bind settlePlanLifecycle_changes
  intro s3 h3
  apply skip
  intro _
  apply Changes.moves (m := .steer) ?_ (by rfl)
  have hintent : Changes taskId
      (fun v v' => v' = { v with intent := v.intent + 1 }) s
      (s.updateIntent taskId (task.revision + 1) (task.intentRevision + 1)) := by
    refine ⟨(updateTask_changes _).1, ?_⟩
    rw [updateIntent, (updateTask_changes _).2]
    simp [view, lifecycleOf, htask]
  have hjournal : Changes taskId (fun v v' => v' = v) _ s2 :=
    ⟨fun u _ => hs2.view u, hs2.view taskId⟩
  apply (((((hintent.trans h1).trans (flipTask_changes .waiting .running)).trans hjournal).trans
    (flipTask_changes .paused .running)).trans h3).imp
  rintro v' ⟨_, ⟨_, ⟨_, ⟨_, ⟨_, rfl, rfl⟩, rfl⟩, rfl⟩, rfl⟩, hsettle⟩
  refine ⟨view_isLive htask hlive, ?_⟩
  have hmoved : ∀ l, moved (· = .paused) .running (moved (· = .waiting) .running l) =
      moved (fun l => l = .waiting ∨ l = .paused) .running l := by
    intro l
    cases l with
    | none => rfl
    | some l => cases l <;> rfl
  rw [← view_intent htask] at hsettle
  simpa only [hmoved] using hsettle

theorem endTask_changes {lifecycle : Lifecycle} (revision : ℕ)
    (origin : String) :
    Within Refuses
      (Changes taskId (fun v v' => v' = { v with
        lifecycle := moved (fun _ => true) lifecycle v.lifecycle
        pending := [] }) s)
      ((s.endTask taskId lifecycle revision).supersedeTerminalQuestions sessionId taskId lifecycle
        origin) := by
  apply (supersedeTerminalQuestions_changes _ _ _).imp
  intro s' h
  have hend : Changes taskId (fun v v' => v' =
      { v with lifecycle := moved (fun _ => true) lifecycle v.lifecycle }) s
      (s.endTask taskId lifecycle revision) :=
    updateTask_moved _ _ (fun _ => rfl) (fun _ => rfl)
  apply (hend.trans h).imp
  rintro v' ⟨_, rfl, rfl⟩
  rfl

theorem cancelTaskWithOrigin_moves (intent : ℕ) (reason : Option String)
    (origin : String) :
    Within Refuses (fun r => Moves (.cancelTask sessionId taskId intent reason origin) s r.1)
      (s.cancelTaskWithOrigin sessionId taskId intent reason origin) := by
  apply Within.look
  intro task htask
  apply skip
  intro _
  split
  · next hterm =>
    apply Within.bind (supersedeTerminalQuestions_changes _ _ _)
    intro s1 h1
    apply skip
    intro _
    apply Changes.moves (m := .finish task.lifecycle) ?_ (by rfl)
    apply h1.imp
    rintro v' rfl
    refine ⟨hterm, .inr (view_lifecycle htask rfl), ?_⟩
    rw [view_lifecycle htask rfl]
  · next hterm =>
    apply Within.bind (endTask_changes _ _ _)
    intro s1 h1
    apply Within.bind (appendEvent_journals _ _ _ _ _ _)
    intro s2 hs2
    apply skip
    intro _
    apply Changes.moves (m := .finish .cancelled) ?_ (by rfl)
    refine ⟨fun u hu => (hs2.view u).trans (h1.1 u hu), rfl,
      .inl (view_isLive htask (by simpa using hterm)), ?_⟩
    refine (hs2.view taskId).trans (h1.2.trans ?_)
    rw [view_lifecycle htask rfl]
    rfl

theorem completeTask_changes {task : TaskRow}
    (htask : s.tasks taskId = some task) (hlive : task.lifecycle.isTerminal = false) :
    Within Refuses (Changes taskId (Step (.finish .completed)) s)
      (s.completeTask sessionId taskId task) := by
  apply skip
  intro _
  apply Within.bind (endTask_changes _ _ _)
  intro s1 h1
  apply (appendEvent_journals _ _ _ _ _ _).imp
  intro s' hs'
  refine ⟨fun u hu => (hs'.view u).trans (h1.1 u hu), rfl, .inl (view_isLive htask hlive), ?_⟩
  refine (hs'.view taskId).trans (h1.2.trans ?_)
  rw [view_lifecycle htask rfl]
  rfl

theorem completeIfEligible_moves :
    Moves (.completeIfEligible sessionId taskId) s (s.completeIfEligible sessionId taskId).1 := by
  unfold completeIfEligible
  split
  · exact Moves.of_view fun _ => rfl
  · next task htask =>
    split
    · exact Moves.of_view fun _ => rfl
    · next hlive =>
      dsimp only
      split
      · by_cases hl : task.lifecycle = .running
        · apply Changes.moves (m := .wait) ?_ (by rfl)
          apply (flipTask_changes _ _).imp
          rintro v' rfl
          refine ⟨view_lifecycle htask hl, ?_⟩
          rw [view_lifecycle htask hl]
          rfl
        · have hstay : Changes taskId (Step .stay) s (s.pauseRunningTask taskId) := by
            apply (flipTask_changes _ _).imp
            rintro v' rfl
            rw [show moved (· = .running) .waiting (s.view taskId).lifecycle =
              (s.view taskId).lifecycle by simp [view_lifecycle htask rfl, moved, hl]]
            rfl
          exact hstay.moves (makes_stay _)
      · have h := completeTask_changes sessionId htask (by simpa using hlive)
        split
        · next s' hok =>
          rw [hok] at h
          exact Changes.moves (m := .finish .completed) h (by exact ⟨rfl, rfl⟩)
        · exact Moves.of_view fun _ => rfl

end

/-! ## Evidence and foreign blocks -/

theorem blocks_moved {source : Lifecycle → Bool} {l : Option Lifecycle}
    (h : ∀ a, source a = false → a.isTerminal) (hcancelled : source .cancelled = false) :
    Blocks l (moved source .blocked l) := by
  cases l with
  | none => exact .inl ⟨rfl, by simp⟩
  | some a =>
    cases ha : source a with
    | true =>
      refine .inr ⟨⟨a, rfl, ?_⟩, by simp [moved, ha]⟩
      rintro rfl
      simp [hcancelled] at ha
    | false => exact .inl ⟨by simp [moved, ha], by simpa using h a ha⟩

theorem cancelled_isTerminal (a : Lifecycle) (h : decide (a ≠ .cancelled) = false) :
    a.isTerminal := by
  obtain rfl : a = .cancelled := by simpa using h
  rfl

theorem blockForeign_changes {source : Lifecycle → Bool}
    (h : ∀ a, source a = false → a.isTerminal) (hcancelled : source .cancelled = false) :
    Changes taskId (Step .block) s ((s.moveTask taskId source .blocked).clearPlanBlock taskId) := by
  apply ((moveTask_changes _ _).trans (setPlanBlock_changes false)).imp
  rintro v' ⟨_, rfl, rfl⟩
  exact ⟨_, blocks_moved h hcancelled, rfl⟩

theorem markOutcomeUnknown_moves :
    Moves (.markOutcomeUnknown taskId) s (s.markOutcomeUnknown taskId) := by
  apply Changes.moves (m := .block) ?_ (by rfl)
  exact blockForeign_changes (by simp) rfl

theorem markNoReady_moves : Moves (.markNoReady taskId) s (s.markNoReady taskId) := by
  apply Changes.moves (m := .block) ?_ (by rfl)
  exact blockForeign_changes (by simp) rfl

theorem invalidateEvidence_spec (s : TaskStore) (evidenceId : String) :
    (∃ e taskId s', s.evidence.find? (·.evidenceId = evidenceId) = some e ∧
        s.taskIdForObligation e.obligationId = some taskId ∧
        s.invalidateEvidence evidenceId = .ok (s', taskId) ∧
        Changes taskId (Step .block) s s') ∨
      ((∃ err, s.invalidateEvidence evidenceId = .error err) ∧
        ∀ e, s.evidence.find? (·.evidenceId = evidenceId) = some e →
          s.taskIdForObligation e.obligationId = none) := by
  unfold invalidateEvidence
  cases he : s.evidence.find? (·.evidenceId = evidenceId) with
  | none => exact .inr ⟨⟨_, rfl⟩, by simp⟩
  | some e =>
    rw [found_some, ok_bind]
    cases ht : s.taskIdForObligation e.obligationId with
    | none =>
      right
      refine ⟨⟨.storage, rfl⟩, fun e' he' => ?_⟩
      obtain rfl := Option.some.inj he'
      exact ht
    | some taskId =>
      left
      exact ⟨e, taskId, _, rfl, ht, rfl, blockForeign_changes cancelled_isTerminal rfl⟩

theorem invalidateEvidence_moves (evidenceId : String) :
    Within Refuses (fun r => Moves (.invalidateEvidence evidenceId) s r.1)
      (s.invalidateEvidence evidenceId) := by
  obtain ⟨e, taskId, s', -, -, hok, h⟩ | ⟨⟨err, herr⟩, -⟩ := invalidateEvidence_spec s evidenceId
  · rw [hok]
    exact h.moves trivial
  · rw [herr]
    trivial

/-- The obligation names a task, whose rows go unresolved, or the call fails. -/
theorem markApplicabilityUnresolved_spec {obligationId : String}
    (hplan : PLAN_OBLIGATION_PREFIX.toList.isPrefixOf obligationId.toList = false) :
    (∃ taskId s', s.taskIdForObligation obligationId = some taskId ∧
        s.markApplicabilityUnresolved obligationId = .ok (s', some taskId) ∧
        Changes taskId (Step .unresolve) s s') ∨
      (s.markApplicabilityUnresolved obligationId = .error (.notFound .obligation) ∧
        s.taskIdForObligation obligationId = none) := by
  unfold markApplicabilityUnresolved
  rw [if_neg (by simp [hplan])]
  cases ht : s.taskIdForObligation obligationId with
  | none => exact .inr ⟨rfl, rfl⟩
  | some taskId =>
    -- the obligation's own row is no part of a view
    have h : Changes taskId (Step .unresolve) (s.unresolvedApplicability obligationId)
        ((((s.unresolvedApplicability obligationId).unresolvePlanRows
          taskId).blockTaskNotCancelled taskId).clearPlanBlock taskId) := by
      apply ((setPlanRows_changes _).trans (blockForeign_changes cancelled_isTerminal rfl)).imp
      rintro v' ⟨_, rfl, l, hl, rfl⟩
      exact ⟨l, hl, rfl⟩
    exact .inl ⟨taskId, _, rfl, rfl, h⟩

theorem markApplicabilityUnresolved_moves (obligationId : String) :
    Within Refuses (fun r => Moves (.markApplicabilityUnresolved obligationId) s r.1)
      (s.markApplicabilityUnresolved obligationId) := by
  cases hplan : PLAN_OBLIGATION_PREFIX.toList.isPrefixOf obligationId.toList with
  | true =>
    unfold markApplicabilityUnresolved
    rw [if_pos hplan]
    exact Moves.of_view fun _ => rfl
  | false =>
    obtain ⟨taskId, s', -, hok, h⟩ | ⟨herr, -⟩ := markApplicabilityUnresolved_spec (s := s) hplan
    · rw [hok]
      exact h.moves trivial
    · rw [herr]
      trivial

/-! ## Every call -/

theorem commit_moves {op : Op} {body : Except StoreError TaskStore}
    (h : Within Refuses (Moves op s) body) : Moves op s (s.commit body).1 :=
  commit_within (.of_view fun _ => rfl) h

/-- Whatever a call does, every task makes one of its moves. -/
theorem perform_moves (s : TaskStore) (op : Op) : Moves op s (s.perform op).1 := by
  cases op with
  | createTask => exact commit_moves (map_fst (createTask_moves _ _ _))
  | publishQuestion => exact commit_moves (publishQuestion_moves _ _)
  | publishPlanFork => exact commit_moves (publishPlanFork_moves _ _ _)
  | answerQuestion => exact answerQuestion_moves _ _ _ _ _
  | recordDeniedAttempt => exact Moves.of_view fun _ => rfl
  | pauseForWorkflowOff => exact commit_moves (map_fst (pauseForWorkflowOff_moves _))
  | steerTask => exact commit_moves (map_fst (steerTask_moves _ _ _ _))
  | cancelTask => exact commit_moves (map_fst (cancelTaskWithOrigin_moves _ _ _ _))
  | invalidateEvidence => exact commit_moves (map_fst (invalidateEvidence_moves _))
  | markApplicabilityUnresolved =>
    exact commit_moves (map_fst (markApplicabilityUnresolved_moves _))
  | markOutcomeUnknown => exact markOutcomeUnknown_moves
  | markNoReady => exact markNoReady_moves
  | completeIfEligible => exact completeIfEligible_moves _
  | recordPlanSelection => exact commit_moves (map_fst (recordPlanSelection_moves _ _))
  | updatePlanRow => exact commit_moves (updatePlanRow_moves _)
  | recordPlanRevision => exact commit_moves (map_fst (recordPlanRevision_moves _))
  | recordPlanAssessment => exact commit_moves (recordPlanAssessment_moves _)
  | holdForPlanGate => exact commit_moves (map_fst (holdForPlanGate_moves _))
  | markPlanApplicabilityUnresolved => exact commit_moves markPlanApplicabilityUnresolved_moves
  | _ => exact Moves.of_view (perform_records rfl).1.view

end Rivect.TaskStore
