import Rivect.TaskStore.Answers

/-! # What ends a pause or a foreign block

The workflow pause and the foreign blocks are nothing but a lifecycle. A step is lawful if it
leaves a paused task to the next steer and an answer does not set a foreign block running.
-/

namespace Rivect.TaskStore

open Lib TaskView

variable {s s' : TaskStore} {taskId : TaskId} {v v' : TaskView}

def Op.steers (taskId : TaskId) : Op → Prop
  | .steerTask _ t .. => t = taskId
  | _ => False

def Op.answers (taskId : TaskId) : Op → Prop
  | .answerQuestion _ t .. => t = taskId
  | _ => False

/-- An obligation that is unresolved or an attempt that is unknown. -/
def ForeignHold (s : TaskStore) (taskId : TaskId) : Prop :=
  0 < s.unresolvedObligations taskId ∨ 0 < s.unknownAttempts taskId

/-- What one call may do to the pause and to the foreign block of one task. -/
structure Lawful (s : TaskStore) (op : Op) (taskId : TaskId) : Prop where
  paused : s.lifecycleOf taskId = some .paused → ¬ op.steers taskId →
    (s.perform op).1.lifecycleOf taskId = some .paused ∨
      (s.perform op).1.lifecycleOf taskId = some .completed ∨
      (s.perform op).1.lifecycleOf taskId = some .cancelled
  blocked : op.answers taskId → (s.perform op).2 = .ok () →
    s.lifecycleOf taskId = some .blocked → s.ForeignHold taskId →
      (s.perform op).1.lifecycleOf taskId = some .blocked

/-- The calls that break it: an answer that applies to a paused task, or to a foreign block that
the plan does not hold as well, and a foreign block of a paused task. -/
def Slips (s : TaskStore) (op : Op) (taskId : TaskId) : Prop :=
  match op with
  | .answerQuestion _ t questionId questionRevision selection _ =>
    t = taskId ∧ s.Answers taskId questionId questionRevision selection ∧
      (s.lifecycleOf taskId = some .paused ∨
        (s.lifecycleOf taskId = some .blocked ∧ s.ForeignHold taskId ∧
          s.heldOn taskId = false))
  | .markOutcomeUnknown t | .markNoReady t =>
    t = taskId ∧ s.lifecycleOf taskId = some .paused
  | .invalidateEvidence evidenceId =>
    s.lifecycleOf taskId = some .paused ∧
      ∃ e, s.evidence.find? (·.evidenceId = evidenceId) = some e ∧
        s.taskIdForObligation e.obligationId = some taskId
  | .markApplicabilityUnresolved obligationId =>
    s.lifecycleOf taskId = some .paused ∧
      PLAN_OBLIGATION_PREFIX.toList.isPrefixOf obligationId.toList = false ∧
      s.taskIdForObligation obligationId = some taskId
  | _ => False

/-! ## The moves of a paused task -/

theorem settles_of_paused (h : Settles v v') (hl : v.lifecycle = some .paused) :
    v'.lifecycle = some .paused := by
  cases h with
  | stays => exact hl
  | blocks hrun => simp [hl] at hrun
  | releases hblocked => simp [hl] at hblocked

theorem step_of_paused {m : Move} (h : Step m v v') (hl : v.lifecycle = some .paused) :
    v'.lifecycle = some .paused ∨ v'.lifecycle = some .completed ∨
      v'.lifecycle = some .cancelled ∨ m = .steer ∨ (∃ q, m = .answer q) ∨ m = .block ∨
      m = .unresolve := by
  cases m with
  | stay =>
    rw [show v' = v from h]
    exact .inl hl
  | create => exact absurd h.1 (by simp [hl])
  | publish question =>
    obtain ⟨q, hpub, -⟩ := h
    simp [hl] at hpub
  | fork question update =>
    obtain ⟨-, v1, q, rows, v2, hrel, ⟨hpub, -⟩, -⟩ := h
    obtain rfl | ⟨hblocked, -⟩ := hrel.cases
    · simp [hl] at hpub
    · simp [hl] at hblocked
  | finish lifecycle =>
    obtain ⟨hterm, -, rfl⟩ := h
    cases lifecycle <;> simp_all [Lifecycle.isTerminal]
  | pause => exact absurd h.1 (by simp [hl])
  | wait => exact absurd h.1 (by simp [hl])
  | select | change | revise | assess | hold =>
    obtain ⟨-, v1, _, _, _, _, hdrop, hset⟩ := settles_of_writesPlan (by trivial) h
    left
    apply settles_of_paused hset
    cases hdrop with
    | keeps => exact hl
    | drops => simp [settleHold, hl, moved]
  | steer => simp
  | answer => simp
  | block => simp
  | unresolve => simp

/-! ## Exactly the slips break the law -/

theorem lifecycleOf_eq_view : s.lifecycleOf taskId = (s.view taskId).lifecycle := rfl

/-- A call that leaves the view alone, or answers nothing, is lawful. -/
theorem lawful_of_view {op : Op} (hview : (s.perform op).1.view taskId = s.view taskId)
    (hanswers : op.answers taskId → (s.perform op).2 ≠ .ok ()) : Lawful s op taskId where
  paused hl _ := by
    rw [lifecycleOf_eq_view, hview]
    exact .inl hl
  blocked hop hok := absurd hok (hanswers hop)

/-- What an applied answer leaves: the plan's own hold decides. -/
theorem lifecycle_of_answer {q : QuestionId} (h : Step (.answer q) v v') :
    v'.lifecycle = some (if v.held then .blocked else .running) := by
  obtain ⟨-, -, -, -, rows, hrows, hset⟩ := h
  have hheld : (v.hold.isSome || rows.any (·.holdsLifecycle)) = v.held := by
    rw [held, hrows.any (p := (·.holdsLifecycle)) fun _ _ => rfl]
  cases hset with
  | stays hrun =>
    have : v.held = false := hheld.symm.trans (hrun rfl)
    simp [this]
  | blocks _ hrun =>
    have : v.held = true := hheld.symm.trans hrun
    simp [this]
  | releases hl => simp at hl

theorem lifecycle_of_block {l : Option Lifecycle} (h : Blocks (some .paused) l) :
    l = some .blocked := by
  rcases h with ⟨-, h⟩ | ⟨-, h⟩
  · exact absurd (h _ rfl) (by decide)
  · exact h

theorem not_lawful_of_blocked {op : Op} (hl : s.lifecycleOf taskId = some .paused)
    (hsteer : ¬ op.steers taskId) (h : (s.perform op).1.lifecycleOf taskId = some .blocked) :
    ¬ Lawful s op taskId := by
  intro hlawful
  have := hlawful.paused hl hsteer
  simp [h] at this

theorem lawful_iff_of_blocks {op : Op} {t : TaskId} {m : Move}
    (h : Changes t (Step m) s (s.perform op).1)
    (hm : ∀ v v', Step m v v' → Blocks v.lifecycle v'.lifecycle)
    (hsteers : ¬ op.steers taskId) (hanswers : ¬ op.answers taskId) :
    Lawful s op taskId ↔ ¬ (t = taskId ∧ s.lifecycleOf taskId = some .paused) := by
  by_cases ht : t = taskId
  · subst ht
    constructor
    · rintro hlawful ⟨-, hl⟩
      have hblocks := hm _ _ h.2
      rw [← lifecycleOf_eq_view, hl] at hblocks
      exact not_lawful_of_blocked hl hsteers (lifecycle_of_block hblocks) hlawful
    · intro hpaused
      exact ⟨fun hl => absurd ⟨rfl, hl⟩ hpaused, fun hop => absurd hop hanswers⟩
  · refine iff_of_true ?_ fun h => ht h.1
    exact lawful_of_view (h.1 taskId (Ne.symm ht)) fun hop => absurd hop hanswers

theorem blocks_of_block {v v' : TaskView} (h : Step .block v v') :
    Blocks v.lifecycle v'.lifecycle := by
  obtain ⟨l, hl, rfl⟩ := h
  exact hl

theorem blocks_of_unresolve {v v' : TaskView} (h : Step .unresolve v v') :
    Blocks v.lifecycle v'.lifecycle := by
  obtain ⟨l, hl, rfl⟩ := h
  exact hl

theorem lawful_of_moves {op : Op} (hanswers : ¬ op.answers taskId)
    (hmakes : ∀ m, op.makes taskId m → m = .steer ∨ (∃ q, m = .answer q) ∨ m = .block ∨
      m = .unresolve → op.steers taskId) : Lawful s op taskId where
  paused hl hsteer := by
    obtain ⟨m, hm, hstep⟩ := perform_moves s op taskId
    rcases step_of_paused hstep hl with h | h | h | h
    · exact .inl h
    · exact .inr (.inl h)
    · exact .inr (.inr h)
    · exact absurd (hmakes m hm h) hsteer
  blocked hop := absurd hop hanswers

theorem lawful_iff (op : Op) : Lawful s op taskId ↔ ¬ Slips s op taskId := by
  cases op with
  | answerQuestion sessionId t questionId questionRevision selection author =>
    by_cases ht : t = taskId
    · subst ht
      -- only an answer that is applied moves the task
      by_cases ha : s.Answers t questionId questionRevision selection
      · obtain ⟨s', result, hperf, -, hchange⟩ :=
          answerQuestion_applied ha sessionId author
        have hs' : (s.perform (.answerQuestion sessionId t questionId questionRevision selection
            author)) = (s', .ok ()) := by
          simp only [perform, hperf]
          rfl
        have hl' : s'.lifecycleOf t = some (if s.heldOn t then .blocked else .running) :=
          lifecycle_of_answer hchange.2
        constructor
        · rintro hlawful ⟨-, -, hl | ⟨hl, hforeign, hheld⟩⟩
          · have := hlawful.paused hl id
            rw [hs', hl'] at this
            split at this <;> simp at this
          · have := hlawful.blocked rfl (by rw [hs']) hl hforeign
            rw [hs', hl'] at this
            simp [hheld] at this
        · intro hslip
          constructor
          · intro hl
            exact absurd ⟨rfl, ha, .inl hl⟩ hslip
          · intro _ _ hl hforeign
            rw [hs', hl']
            cases hheld : s.heldOn t with
            | true => rfl
            | false => exact absurd ⟨rfl, ha, .inr ⟨hl, hforeign, hheld⟩⟩ hslip
      · obtain ⟨e, he⟩ := answerQuestion_denied ha sessionId author
        have hslip : ¬ Slips s (.answerQuestion sessionId t questionId questionRevision selection
            author) t := fun h => ha h.2.1
        refine iff_of_true (lawful_of_view ?_ fun _ => ?_) hslip
        · simp only [perform, he]
          rfl
        · simp only [perform, he]
          exact fun h => by cases h
    · refine iff_of_true (lawful_of_moves ht ?_) fun h => ht h.1
      intro m hm h
      rcases h with rfl | ⟨q, rfl⟩ | rfl | rfl
      · exact hm
      · exact absurd hm.1 ht
      · exact hm
      · exact hm
  | markOutcomeUnknown t =>
    exact lawful_iff_of_blocks (m := .block)
      (blockForeign_changes (by simp) rfl) (fun _ _ => blocks_of_block) id id
  | markNoReady t =>
    exact lawful_iff_of_blocks (m := .block)
      (blockForeign_changes (by simp) rfl) (fun _ _ => blocks_of_block) id id
  | invalidateEvidence evidenceId =>
    -- known evidence blocks the task of its obligation; unknown evidence changes nothing
    rcases invalidateEvidence_spec s evidenceId with
      ⟨e, t, s', he, ht, hok, hchange⟩ | ⟨⟨err, herr⟩, hnone⟩
    · have hs' : (s.perform (.invalidateEvidence evidenceId)).1 = s' := by
        simp only [perform, hok]
        rfl
      rw [lawful_iff_of_blocks (m := .block) (hs' ▸ hchange) (fun _ _ => blocks_of_block) id id]
      apply not_congr
      constructor
      · rintro ⟨rfl, hl⟩
        exact ⟨hl, e, he, ht⟩
      · rintro ⟨hl, e', he', ht'⟩
        obtain rfl := Option.mem_unique he he'
        exact ⟨Option.mem_unique ht ht', hl⟩
    · refine iff_of_true (lawful_of_view ?_ fun hop => absurd hop id) ?_
      · simp only [perform, herr]
        rfl
      · rintro ⟨-, e, he, ht⟩
        simp [hnone e he] at ht
  | markApplicabilityUnresolved obligationId =>
    cases hplan : PLAN_OBLIGATION_PREFIX.toList.isPrefixOf obligationId.toList with
    | true =>
      refine iff_of_true (lawful_of_view ?_ fun hop => absurd hop id) fun h => ?_
      · simp only [perform, markApplicabilityUnresolved, hplan]
        rfl
      · exact absurd h.2.1 (by simp [hplan])
    | false =>
      rcases markApplicabilityUnresolved_spec (s := s) hplan with
        ⟨t, s', ht, hok, hchange⟩ | ⟨herr, hnone⟩
      · have hs' : (s.perform (.markApplicabilityUnresolved obligationId)).1 = s' := by
          simp only [perform, hok]
          rfl
        rw [lawful_iff_of_blocks (m := .unresolve) (hs' ▸ hchange)
          (fun _ _ => blocks_of_unresolve) id id]
        apply not_congr
        constructor
        · rintro ⟨rfl, hl⟩
          exact ⟨hl, hplan, ht⟩
        · rintro ⟨hl, -, ht'⟩
          exact ⟨Option.mem_unique ht ht', hl⟩
      · refine iff_of_true (lawful_of_view ?_ fun hop => absurd hop id) ?_
        · simp only [perform, herr]
          rfl
        · rintro ⟨-, -, ht⟩
          simp [hnone] at ht
  | _ =>
    refine iff_of_true (lawful_of_moves id ?_) id
    intro m hm h
    rcases h with rfl | ⟨q, rfl⟩ | rfl | rfl <;> first | exact hm | exact hm.elim

/-- The calls of a run from a new store meet `P`, each in the state it is made in. -/
def AtEveryCall (P : TaskStore → Op → Prop) (ops : List Op) : Prop :=
  ∀ pre op post, ops = pre ++ op :: post → P (after pre) op

/-- In a run every call keeps the pause and the foreign blocks of every task exactly if none of
its calls slips. -/
theorem pause_survives (ops : List Op) :
    AtEveryCall (fun s op => ∀ taskId, Lawful s op taskId) ops ↔
      AtEveryCall (fun s op => ∀ taskId, ¬ Slips s op taskId) ops := by
  constructor
  · intro h pre op post hops taskId
    exact (lawful_iff op).mp (h pre op post hops taskId)
  · intro h pre op post hops taskId
    exact (lawful_iff op).mpr (h pre op post hops taskId)

/-- A question with one option. -/
def question : Question :=
  ⟨⟨"question"⟩, 1, ⟨"task"⟩, 1, "Which form should we use?",
    [⟨⟨"brief"⟩, "Brief answer", "The essentials.", .enabled⟩], ⟨"brief"⟩, "enough"⟩

/-- The question is answered after the pause: the task runs again without a steer. -/
theorem not_pause_survives :
    ¬ AtEveryCall (fun s op => ∀ taskId, Lawful s op taskId)
      [created, .publishQuestion ⟨"session"⟩ question, .pauseForWorkflowOff ⟨"session"⟩ ⟨"task"⟩,
        .answerQuestion ⟨"session"⟩ ⟨"task"⟩ ⟨"question"⟩ 1 (.option ⟨"brief"⟩) "human"] := by
  intro h
  have hlawful := h [_, _, _] _ [] rfl ⟨"task"⟩
  have hpaused : (after [created, .publishQuestion ⟨"session"⟩ question,
      .pauseForWorkflowOff ⟨"session"⟩ ⟨"task"⟩]).lifecycleOf ⟨"task"⟩ = some .paused := rfl
  have := hlawful.paused hpaused id
  revert this
  decide

end Rivect.TaskStore
