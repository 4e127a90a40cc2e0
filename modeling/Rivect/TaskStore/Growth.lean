import Rivect.TaskStore.Answers

/-! # Rows grow older

No call takes a row of a task or of a question back: revisions never decrease, a cancelled task
stays cancelled and a question leaves `pending` once. The outbox only grows.
-/

namespace Rivect.TaskStore

open Lib TaskView List

variable {s s' s'' : TaskStore} {taskId : TaskId}

/-- What a task's row keeps of an earlier one. Without a new revision only its lifecycle is
flipped, and none to `blocked`. -/
structure Later (row row' : TaskRow) : Prop where
  session : row'.sessionId = row.sessionId
  revision : row.revision ≤ row'.revision
  intent : row.intentRevision ≤ row'.intentRevision
  cancelled : row.lifecycle = .cancelled → row' = row
  flips : row'.revision = row.revision → row' = { row with lifecycle := row'.lifecycle } ∧
    (row'.lifecycle = .blocked → row.lifecycle = .blocked)

/-- A question leaves `pending` once. -/
inductive Ages : QuestionRow → QuestionRow → Prop
  | stays (q : QuestionRow) : Ages q q
  | leaves {q : QuestionRow} (state : QuestionState) (answer : Option AnswerSelection)
      (origin : Option String) : q.state = .pending → state ≠ .pending →
      Ages q { q with state := state, answer := answer, answeredOrigin := origin }

/-- Rows of tasks are only added, after all others. -/
def Extends (s s' : TaskStore) : Prop :=
  ∃ new, s'.rowids = s.rowids ++ new ∧ new.Nodup ∧ (∀ t ∈ new, s.tasks t = none) ∧
    ∀ t, s'.tasks t ≠ none ↔ s.tasks t ≠ none ∨ t ∈ new

structure Evolves (s s' : TaskStore) : Prop where
  rows : Extends s s'
  tasks : ∀ t row, s.tasks t = some row → ∃ row', s'.tasks t = some row' ∧ Later row row'
  questions : ∀ q ∈ s.questions.rows, ∃ q' ∈ s'.questions.rows, Ages q q'
  events : s.events <+: s'.events

theorem Later.refl (row : TaskRow) : Later row row := ⟨rfl, le_rfl, le_rfl, fun _ => rfl, fun _ => ⟨rfl, id⟩⟩

theorem Later.trans {a b c : TaskRow} (h : Later a b) (h' : Later b c) : Later a c where
  session := h'.session.trans h.session
  revision := h.revision.trans h'.revision
  intent := h.intent.trans h'.intent
  cancelled hc := by
    obtain rfl := h.cancelled hc
    exact h'.cancelled hc
  flips hrevision := by
    have := h.revision
    have := h'.revision
    obtain ⟨hb, hblocked⟩ := h.flips (by omega)
    obtain ⟨hc, hblocked'⟩ := h'.flips (by omega)
    exact ⟨by rw [hc, hb], fun hl => hblocked (hblocked' hl)⟩

theorem Ages.trans {a b c : QuestionRow} (h : Ages a b) (h' : Ages b c) : Ages a c := by
  cases h with
  | stays => exact h'
  | leaves state answer origin hp hs =>
    cases h' with
    | stays => exact .leaves state answer origin hp hs
    | leaves _ _ _ hp' => exact absurd hp' hs

theorem Ages.same {q q' : QuestionRow} (h : Ages q q') (hq : q.state ≠ .pending) : q' = q := by
  cases h with
  | stays => rfl
  | leaves _ _ _ hp => exact absurd hp hq

theorem Ages.questionId {q q' : QuestionRow} (h : Ages q q') : q'.questionId = q.questionId := by
  cases h <;> rfl

theorem Extends.of_rowids (hr : s'.rowids = s.rowids)
    (ht : ∀ t, s'.tasks t = none ↔ s.tasks t = none) : Extends s s' :=
  ⟨[], by simp [hr], .nil, by simp, fun t => by simp [ht t]⟩

theorem Extends.trans (h : Extends s s') (h' : Extends s' s'') : Extends s s'' := by
  obtain ⟨new, hrows, hnodup, hfree, htasks⟩ := h
  obtain ⟨new', hrows', hnodup', hfree', htasks'⟩ := h'
  refine ⟨new ++ new', by rw [hrows', hrows, append_assoc], ?_, ?_, fun t => ?_⟩
  · refine nodup_append.mpr ⟨hnodup, hnodup', ?_⟩
    rintro a ha b hb rfl
    exact (htasks a).mpr (.inr ha) (hfree' a hb)
  · intro t ht
    rcases mem_append.mp ht with ht | ht
    · exact hfree t ht
    · by_contra hne
      exact (htasks t).mpr (.inl hne) (hfree' t ht)
  · rw [htasks', htasks, mem_append, or_assoc]

namespace Evolves

theorem refl (s : TaskStore) : Evolves s s :=
  ⟨.of_rowids rfl fun _ => .rfl, fun _ row h => ⟨row, h, .refl row⟩, fun q hq => ⟨q, hq, .stays q⟩, prefix_refl _⟩

theorem trans (h : Evolves s s') (h' : Evolves s' s'') : Evolves s s'' where
  rows := h.rows.trans h'.rows
  tasks t row hrow := by
    obtain ⟨row', hrow', hlater⟩ := h.tasks t row hrow
    obtain ⟨row'', hrow'', hlater'⟩ := h'.tasks t row' hrow'
    exact ⟨row'', hrow'', hlater.trans hlater'⟩
  questions q hq := by
    obtain ⟨q', hq', hages⟩ := h.questions q hq
    obtain ⟨q'', hq'', hages'⟩ := h'.questions q' hq'
    exact ⟨q'', hq'', hages.trans hages'⟩
  events := h.events.trans h'.events

theorem of_events (ht : s'.tasks = s.tasks) (hr : s'.rowids = s.rowids)
    (hq : s'.questions = s.questions) (he : s.events <+: s'.events) : Evolves s s' :=
  ⟨.of_rowids hr fun t => by rw [ht], fun t row hrow => ⟨row, by rw [ht, hrow], .refl row⟩,
    fun q hmem => ⟨q, by rw [hq]; exact hmem, .stays q⟩, he⟩

theorem of_tables (ht : s'.tasks = s.tasks) (hq : s'.questions = s.questions)
    (he : s'.events = s.events) (hr : s'.rowids = s.rowids) : Evolves s s' :=
  .of_events ht hr hq (he ▸ prefix_refl _)

end Evolves

/-! ## Statements -/

theorem updateTask_tasks_of_ne (f : TaskRow → TaskRow) {t : TaskId} (ht : t ≠ taskId) :
    (s.updateTask taskId f).tasks t = s.tasks t := Function.update_of_ne ht _ _

theorem updateTask_absent (f : TaskRow → TaskRow) (t : TaskId) :
    (s.updateTask taskId f).tasks t = none ↔ s.tasks t = none := by
  by_cases ht : t = taskId
  · subst ht
    simp [updateTask]
  · rw [updateTask_tasks_of_ne f ht]

theorem updateTask_evolves {f : TaskRow → TaskRow}
    (hf : ∀ row, s.tasks taskId = some row → Later row (f row)) :
    Evolves s (s.updateTask taskId f) := by
  refine ⟨.of_rowids rfl (updateTask_absent f), fun t row hrow => ?_,
    fun q hq => ⟨q, hq, .stays q⟩, prefix_refl _⟩
  by_cases ht : t = taskId
  · subst ht
    exact ⟨f row, updateTask_task hrow f, hf row hrow⟩
  · exact ⟨row, (updateTask_tasks_of_ne f ht).trans hrow, .refl row⟩

theorem moveTask_later {source : Lifecycle → Bool} (hsource : source .cancelled = false)
    (lifecycle : Lifecycle) (row : TaskRow) :
    Later row (if source row.lifecycle then
      { row with
        revision := row.revision + 1
        lifecycle := lifecycle
        eventCursor := row.eventCursor + 1 }
    else row) := by
  split
  · next hs =>
    refine ⟨rfl, Nat.le_succ _, le_rfl, fun hc => ?_, fun h => absurd h (Nat.succ_ne_self _)⟩
    simp [hc, hsource] at hs
  · exact .refl row

theorem flipTask_later {source lifecycle : Lifecycle} (hsource : source ≠ .cancelled)
    (htarget : lifecycle ≠ .blocked) (row : TaskRow) :
    Later row (if row.lifecycle = source then { row with lifecycle := lifecycle } else row) := by
  split
  · next hs =>
    exact ⟨rfl, le_rfl, le_rfl, fun hc => absurd (hs.symm.trans hc) hsource,
      fun _ => ⟨rfl, fun hc => absurd hc htarget⟩⟩
  · exact .refl row

theorem nextRevision_later {row : TaskRow} (hrow : s.tasks taskId = some row)
    (hlive : row.lifecycle ≠ .cancelled) {f : TaskRow → TaskRow}
    (hsession : (f row).sessionId = row.sessionId) (hrevision : (f row).revision = row.revision + 1)
    (hintent : row.intentRevision ≤ (f row).intentRevision) :
    ∀ row', s.tasks taskId = some row' → Later row' (f row') := by
  intro row' hrow'
  obtain rfl := Option.mem_unique hrow hrow'
  exact ⟨hsession, by omega, hintent, fun hc => absurd hc hlive, fun h => by omega⟩

theorem not_cancelled {l : Lifecycle} (h : l.isTerminal = false) : l ≠ .cancelled := by
  rintro rfl
  cases h

theorem supersede_ages (dies : QuestionRow → Bool) {q : QuestionRow}
    (hq : q ∈ s.questions.rows) : ∃ q' ∈ (s.supersede dies).questions.rows, Ages q q' := by
  refine ⟨_, mem_map_of_mem hq, ?_⟩
  split
  · next hdies => exact .leaves .superseded q.answer q.answeredOrigin hdies.1 (by simp)
  · exact .stays q

theorem supersede_evolves (dies : QuestionRow → Bool) : Evolves s (s.supersede dies) :=
  ⟨.of_rowids rfl fun _ => .rfl, fun _ row hrow => ⟨row, hrow, .refl row⟩,
    fun _ hq => supersede_ages dies hq, prefix_refl _⟩

theorem insertQuestions_evolves {row : QuestionRow}
    (hfree : ∀ q ∈ s.questions.rows, q.questionId ≠ row.questionId) :
    Evolves s { s with questions := s.questions.insert row hfree } :=
  ⟨.of_rowids rfl fun _ => .rfl, fun _ row hrow => ⟨row, hrow, .refl row⟩,
    fun q hq => ⟨q, mem_append_left _ hq, .stays q⟩, prefix_refl _⟩

theorem setAnswer_ages {questionId : QuestionId} {q : QuestionRow}
    (hq : s.questionById questionId taskId = some q) (hpending : q.state = .pending)
    (selection : AnswerSelection) (author : String) {r : QuestionRow}
    (hr : r ∈ s.questions.rows) :
    Ages r (if r.questionId = questionId then
      { r with state := .answered, answer := some selection, answeredOrigin := some author }
      else r) := by
  obtain ⟨hmem, rfl, -⟩ := questionById_some hq
  split
  · next hid =>
    obtain rfl := question_unique hr hmem hid
    exact .leaves .answered (some selection) (some author) hpending (by simp)
  · exact .stays r

theorem setAnswer_evolves {questionId : QuestionId} {q : QuestionRow}
    (hq : s.questionById questionId taskId = some q) (hpending : q.state = .pending)
    (selection : AnswerSelection) (author : String) :
    Evolves s (s.setAnswer questionId selection author) :=
  ⟨.of_rowids rfl fun _ => .rfl, fun _ row hrow => ⟨row, hrow, .refl row⟩,
    fun _ hr => ⟨_, mem_map_of_mem hr, setAnswer_ages hq hpending selection author hr⟩,
    prefix_refl _⟩

/-! ## The settlement -/

theorem settlePlanGateHold_tables (s : TaskStore) (taskId : TaskId) :
    (s.settlePlanGateHold taskId).tasks = s.tasks ∧
      (s.settlePlanGateHold taskId).questions = s.questions ∧
      (s.settlePlanGateHold taskId).events = s.events ∧
      (s.settlePlanGateHold taskId).rowids = s.rowids := by
  unfold settlePlanGateHold
  split
  · exact ⟨rfl, rfl, rfl, rfl⟩
  · split
    · exact ⟨rfl, rfl, rfl, rfl⟩
    · split <;> exact ⟨rfl, rfl, rfl, rfl⟩
    · split <;> exact ⟨rfl, rfl, rfl, rfl⟩

/-! ## Calls -/

theorem insertTaskRow_evolves (habsent : s.tasks taskId = none) (params : CreateParams) :
    Evolves s { s with
      tasks := Function.update s.tasks taskId
        (some ⟨params.sessionId, 1, 1, 1, .running, params.goal, 1⟩)
      rowids := s.rowids ++ [taskId]
      constraints := Function.update s.constraints taskId params.constraints } := by
  refine ⟨⟨[taskId], rfl, nodup_singleton _, by simpa using habsent, fun t => ?_⟩,
    fun t row hrow => ⟨row, ?_, .refl row⟩, fun q hq => ⟨q, hq, .stays q⟩, prefix_refl _⟩
  · by_cases ht : t = taskId
    · simp [ht]
    · simp [ht]
  have ht : t ≠ taskId := by
    rintro rfl
    simp [habsent] at hrow
  simp [Function.update_of_ne ht, hrow]

theorem retainAnsweredPlanFork_tables (s : TaskStore) (taskId : TaskId) (questionId : QuestionId) (questionRevision : ℕ) :
    (s.retainAnsweredPlanFork taskId questionId questionRevision).tasks = s.tasks ∧
      (s.retainAnsweredPlanFork taskId questionId questionRevision).questions = s.questions ∧
      (s.retainAnsweredPlanFork taskId questionId questionRevision).events = s.events ∧
      (s.retainAnsweredPlanFork taskId questionId questionRevision).rowids = s.rowids := by
  unfold retainAnsweredPlanFork
  split
  · exact ⟨rfl, rfl, rfl, rfl⟩
  · split <;> exact ⟨rfl, rfl, rfl, rfl⟩

end Rivect.TaskStore
