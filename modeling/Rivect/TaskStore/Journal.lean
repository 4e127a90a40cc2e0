import Rivect.TaskStore.Growth

/-! # The outbox

What the outbox says of the rows between two transactions, and what the statements of a
transaction keep of it: no event that is appended finds its place taken.
-/

namespace Rivect.TaskStore

open Lib TaskView List Option

/-- What the generated ids of a run name; no id names two kinds. -/
structure Ids where
  task : String → Prop
  question : String → Prop
  checkpoint : String → Prop
  task_question : ∀ id, task id → ¬ question id
  task_checkpoint : ∀ id, task id → ¬ checkpoint id
  question_checkpoint : ∀ id, question id → ¬ checkpoint id

variable {s s' s'' : TaskStore} {taskId : TaskId} {ids : Ids} {owed : List QuestionId} {m n : ℕ}
  {left : Option (TaskId × Lifecycle)}

def QUESTION_SUPERSEDED : String := "question.superseded"

/-- The row that an event is about. -/
inductive Names (ids : Ids) (s : TaskStore) (e : EventRow) : Prop
  | task {t : TaskId} {row : TaskRow} : s.tasks t = some row → e.aggregateId = t.val →
      e.aggregateRevision ≤ row.revision → e.eventType ≠ QUESTION_SUPERSEDED → Names ids s e
  | question {q : QuestionRow} : q ∈ s.questions.rows → q.state = .superseded →
      e.aggregateId = q.questionId.val → e.aggregateRevision = q.revision →
      e.eventType = QUESTION_SUPERSEDED → Names ids s e
  | checkpoint : ids.checkpoint e.aggregateId → e.eventType ≠ QUESTION_SUPERSEDED → Names ids s e

/-- The death of a superseded question. -/
def Reports (e : EventRow) (q : QuestionRow) : Prop :=
  e.aggregateId = q.questionId.val ∧ e.aggregateRevision = q.revision ∧
    e.eventType = QUESTION_SUPERSEDED

/-- The outbox agrees with the rows; `owed` are the deaths that this transaction still has to
report. -/
structure Journaled (ids : Ids) (owed : List QuestionId) (s : TaskStore) : Prop where
  tasks : ∀ t row, s.tasks t = some row → ids.task t.val
  questions : ∀ q ∈ s.questions.rows, ids.question q.questionId.val
  cursors : s.events.map EventRow.cursor = range' 1 s.events.length
  ordered : s.events.Pairwise fun e e' =>
    e.aggregateId = e'.aggregateId → e.aggregateRevision < e'.aggregateRevision
  names : ∀ e ∈ s.events, Names ids s e
  reported : ∀ q ∈ s.questions.rows, q.state = .superseded →
    q.questionId ∈ owed ∨ ∃ e ∈ s.events, Reports e q
  unreported : ∀ id ∈ owed, ∀ e ∈ s.events, e.aggregateId ≠ id.val

theorem Names.mono {e : EventRow} (h : Names ids s e) (hs : Evolves s s') : Names ids s' e := by
  cases h with
  | task ht hid hrevision htype =>
    obtain ⟨row', ht', hlater⟩ := hs.tasks _ _ ht
    exact .task ht' hid (hrevision.trans hlater.revision) htype
  | question hq hstate hid hrevision htype =>
    obtain ⟨q', hq', hages⟩ := hs.questions _ hq
    obtain rfl := hages.same (by simp [hstate])
    exact .question hq' hstate hid hrevision htype
  | checkpoint hid htype => exact .checkpoint hid htype

/-- A transaction's part that appends no event of a task, and raises no revision above `n` more. -/
structure Quiet (ids : Ids) (n : ℕ) (s s' : TaskStore) : Prop extends Evolves s s' where
  bump : ∀ t row row', s.tasks t = some row → s'.tasks t = some row' →
    row'.revision ≤ row.revision + n
  quiet : ∀ e ∈ s'.events, e ∈ s.events ∨ ¬ ids.task e.aggregateId

theorem Quiet.refl (s : TaskStore) : Quiet ids n s s where
  toEvolves := .refl s
  bump t row row' h h' := by
    obtain rfl := mem_unique h h'
    omega
  quiet e he := .inl he

theorem Quiet.trans (h : Quiet ids m s s') (h' : Quiet ids n s' s'') : Quiet ids (m + n) s s'' where
  toEvolves := h.toEvolves.trans h'.toEvolves
  bump t row row'' hrow hrow'' := by
    obtain ⟨row', hrow', -⟩ := h.tasks t row hrow
    have := h.bump t row row' hrow hrow'
    have := h'.bump t row' row'' hrow' hrow''
    omega
  quiet e he := by
    rcases h'.quiet e he with he' | he'
    · exact h.quiet e he'
    · exact .inr he'

/-- Both at once: the outbox stays consistent over a quiet part. -/
structure Keeps (ids : Ids) (n : ℕ) (s s' : TaskStore) : Prop where
  journaled : Journaled ids [] s'
  quiet : Quiet ids n s s'

theorem Keeps.trans (h : Keeps ids m s s') (h' : Keeps ids n s' s'') : Keeps ids (m + n) s s'' :=
  ⟨h'.journaled, h.quiet.trans h'.quiet⟩

theorem Keeps.refl (h : Journaled ids [] s) : Keeps ids n s s := ⟨h, .refl s⟩

/-! ## Statements that write no event -/

theorem Journaled.updateTask (h : Journaled ids owed s) {f : TaskRow → TaskRow}
    (hf : ∀ row, s.tasks taskId = some row → Later row (f row)) :
    Journaled ids owed (s.updateTask taskId f) ∧ Evolves s (s.updateTask taskId f) := by
  have hev : Evolves s (s.updateTask taskId f) := updateTask_evolves hf
  refine ⟨⟨?_, h.questions, h.cursors, h.ordered, fun e he => (h.names e he).mono hev, h.reported,
    h.unreported⟩, hev⟩
  intro t row hrow
  by_cases ht : t = taskId
  · subst ht
    cases hrow' : s.tasks t with
    | none => simp [hrow'] at hrow
    | some row' => exact h.tasks t row' hrow'
  · rw [updateTask_tasks_of_ne _ ht] at hrow
    exact h.tasks t row hrow

section

variable (h : Journaled ids [] s)
include h

theorem Keeps.updateTask {f : TaskRow → TaskRow}
    (hf : ∀ row, s.tasks taskId = some row → Later row (f row))
    (hn : ∀ row, s.tasks taskId = some row → (f row).revision ≤ row.revision + n) :
    Keeps ids n s (s.updateTask taskId f) := by
  obtain ⟨hj, hev⟩ := h.updateTask hf
  refine ⟨hj, hev, fun t row row' hrow hrow' => ?_, fun e he => .inl he⟩
  by_cases ht : t = taskId
  · subst ht
    rw [updateTask_task hrow] at hrow'
    obtain rfl := some.inj hrow'
    exact hn row hrow
  · rw [updateTask_tasks_of_ne _ ht] at hrow'
    obtain rfl := mem_unique hrow hrow'
    omega

theorem Keeps.of_tables (ht : s'.tasks = s.tasks)
    (hq : s'.questions = s.questions) (he : s'.events = s.events)
    (hr : s'.rowids = s.rowids) : Keeps ids n s s' := by
  have hev : Evolves s s' := .of_tables ht hq he hr
  refine ⟨⟨?_, ?_, ?_, ?_, ?_, ?_, ?_⟩, hev, ?_, ?_⟩
  · rw [ht]
    exact h.tasks
  · rw [hq]
    exact h.questions
  · rw [he]
    exact h.cursors
  · rw [he]
    exact h.ordered
  · rw [he]
    exact fun e hmem => (h.names e hmem).mono hev
  · rw [hq, he]
    exact h.reported
  · simp
  · intro t row row' hrow hrow'
    rw [ht] at hrow'
    obtain rfl := mem_unique hrow hrow'
    omega
  · rw [he]
    exact fun e hmem => .inl hmem

theorem Keeps.of_records {T : TaskId → Prop} (hs : Records T s s') : Keeps ids 0 s s' := by
  obtain ⟨_, _, _, _, _, rfl⟩ := hs.rest
  exact .of_tables h rfl rfl rfl rfl

theorem moveTask_keeps (taskId : TaskId) (source : Lifecycle → Bool)
    (lifecycle : Lifecycle) (hsource : source .cancelled = false) : Keeps ids 1 s (s.moveTask taskId source lifecycle) := by
  apply Keeps.updateTask h fun row _ => moveTask_later hsource lifecycle row
  intro row _
  split <;> simp

theorem flipTask_keeps (taskId : TaskId) (source lifecycle : Lifecycle)
    (hsource : source ≠ .cancelled) (htarget : lifecycle ≠ .blocked) :
    Keeps ids 0 s (s.flipTask taskId source lifecycle) := by
  apply Keeps.updateTask h fun row _ => flipTask_later hsource htarget row
  intro row _
  split <;> simp

theorem releasePlanOwnedBlock_keeps :
    Keeps ids 1 s (s.releasePlanOwnedBlock taskId) := by
  unfold releasePlanOwnedBlock
  split
  · have hmove := moveTask_keeps h taskId (· = .blocked) .running rfl
    exact hmove.trans (n := 0) (.of_tables hmove.journaled rfl rfl rfl rfl)
  · exact .refl h

theorem settlePlanLifecycle_keeps :
    Within Appends (Keeps ids 1 s) (s.settlePlanLifecycle taskId) := by
  apply Within.bind (Within.found fun _ => by simp)
  intro task _
  split
  · split
    · have hmove := moveTask_keeps h taskId (· = .running) .blocked rfl
      exact hmove.trans (n := 0) (.of_tables hmove.journaled rfl rfl rfl rfl)
    · exact .refl h
  · split
    · exact .refl h
    · exact releasePlanOwnedBlock_keeps h
  all_goals exact .refl h

theorem settlePlanState_keeps :
    Within Appends (Keeps ids 1 s) (s.settlePlanState taskId) := by
  obtain ⟨ht, hq, he, hr⟩ := settlePlanGateHold_tables s taskId
  have hhold : Keeps ids 0 s (s.settlePlanGateHold taskId) := .of_tables h ht hq he hr
  apply (settlePlanLifecycle_keeps hhold.journaled).imp
  intro s' hs'
  have := hhold.trans hs'
  rwa [Nat.zero_add] at this

end

/-! ## The outbox -/

theorem foldl_max_range' (n : ℕ) : (range' 1 n).foldl max 0 = n := by
  induction n with
  | zero => rfl
  | succ n ih =>
    rw [range'_concat, foldl_append, ih]
    simp [Nat.add_comm]

theorem Journaled.nextCursor (h : Journaled ids owed s) : s.nextCursor = s.events.length + 1 := by
  rw [TaskStore.nextCursor, h.cursors, foldl_max_range']

/-- The row that an append writes. -/
def eventRow (s : TaskStore) (sessionId : SessionId) (task : Option TaskId)
    (aggregate : String × ℕ) (eventType : String) (delta : List (String × Value))
    (origin : String) : EventRow :=
  ⟨aggregate.1, aggregate.2, s.nextCursor, sessionId, task, eventType, delta, origin⟩

/-- An event past its aggregate's last revision is appended, and the outbox stays consistent. It
pays the deaths that are no longer owed. -/
theorem Journaled.append (h : Journaled ids owed s) {aggregate : String × ℕ} {e : EventRow}
    {sessionId : SessionId} {task : Option TaskId} {eventType : String}
    {delta : List (String × Value)} {origin : String}
    (he : s.eventRow sessionId task aggregate eventType delta origin = e)
    (hroom : ∀ e ∈ s.events, e.aggregateId = aggregate.1 → e.aggregateRevision < aggregate.2)
    (hname : Names ids s e) {left : List QuestionId} (hleft : left ⊆ owed)
    (hfree : ∀ id ∈ left, aggregate.1 ≠ id.val)
    (hpaid : ∀ q ∈ s.questions.rows, q.questionId ∈ owed → q.questionId ∈ left ∨ Reports e q) :
    s.appendEvent sessionId task aggregate eventType delta origin =
        .ok { s with events := s.events ++ [e] } ∧
      Journaled ids left { s with events := s.events ++ [e] } := by
  have hid : e.aggregateId = aggregate.1 := by rw [← he]; rfl
  have hrevision : e.aggregateRevision = aggregate.2 := by rw [← he]; rfl
  have hcursor : e.cursor = s.events.length + 1 := by rw [← he, ← h.nextCursor]; rfl
  constructor
  · unfold appendEvent
    rw [require_pos, ok_bind, require_pos fun e he => cursor_ne_nextCursor he, ok_bind, ← he]
    · rfl
    · intro e' he' heq
      have := hroom e' he' (congrArg Prod.fst heq)
      rw [show e'.aggregateRevision = aggregate.2 from congrArg Prod.snd heq] at this
      exact this.ne rfl
  · have hev : Evolves s { s with events := s.events ++ [e] } :=
      .of_events rfl rfl rfl (prefix_append _ _)
    refine ⟨h.tasks, h.questions, ?_, ?_, ?_, ?_, ?_⟩
    · simp [h.cursors, hcursor, range'_concat, Nat.add_comm]
    · refine pairwise_append.mpr ⟨h.ordered, by simp, ?_⟩
      intro a ha b hb hab
      obtain rfl := mem_singleton.mp hb
      rw [hrevision]
      exact hroom a ha (hab.trans hid)
    · intro e' he'
      rcases mem_append.mp he' with he' | he'
      · exact (h.names e' he').mono hev
      · rw [mem_singleton.mp he']
        exact hname.mono hev
    · intro q hq hstate
      rcases h.reported q hq hstate with howed | ⟨e', he', hreports⟩
      · rcases hpaid q hq howed with hin | hreports
        · exact .inl hin
        · exact .inr ⟨e, by simp, hreports⟩
      · exact .inr ⟨e', by simp [he'], hreports⟩
    · intro id hin e' he'
      rcases mem_append.mp he' with he' | he'
      · exact h.unreported id (hleft hin) e' he'
      · rw [mem_singleton.mp he', hid]
        exact hfree id hin

theorem Journaled.of_task (h : Journaled ids owed s) {e : EventRow} (he : e ∈ s.events)
    (hid : e.aggregateId = taskId.val) (htask : ids.task taskId.val) :
    ∃ row, s.tasks taskId = some row ∧ e.aggregateRevision ≤ row.revision := by
  cases h.names e he with
  | @task t row ht hid' hrevision _ =>
    obtain rfl : t = taskId := by
      cases t
      cases taskId
      simpa [hid] using hid'.symm
    exact ⟨row, ht, hrevision⟩
  | question hq _ hid' =>
    have := h.questions _ hq
    rw [← hid', hid] at this
    exact absurd this (ids.task_question _ htask)
  | checkpoint hid' =>
    rw [hid] at hid'
    exact absurd hid' (ids.task_checkpoint _ htask)

theorem Journaled.of_question (h : Journaled ids owed s) {q : QuestionRow}
    (hq : q ∈ s.questions.rows) (hstate : q.state ≠ .superseded) {e : EventRow}
    (he : e ∈ s.events) : e.aggregateId ≠ q.questionId.val := by
  intro hid
  have hquestion := h.questions q hq
  cases h.names e he with
  | task ht hid' =>
    have := h.tasks _ _ ht
    rw [← hid', hid] at this
    exact ids.task_question _ this hquestion
  | @question q' hq' hstate' hid' =>
    have hsame : q'.questionId = q.questionId := by
      have hval := hid'.symm.trans hid
      cases hq1 : q'.questionId
      cases hq2 : q.questionId
      simpa [hq1, hq2] using hval
    obtain rfl := question_unique hq' hq hsame
    exact hstate hstate'
  | checkpoint hid' =>
    rw [hid] at hid'
    exact ids.question_checkpoint _ hquestion hid'

/-! ## Questions that die -/

theorem Journaled.supersede (h : Journaled ids [] s) (dies : QuestionRow → Bool) :
    Journaled ids ((s.killed dies).map QuestionRow.questionId) (s.supersede dies) ∧
      Quiet ids 0 s (s.supersede dies) := by
  have hev : Evolves s (s.supersede dies) := supersede_evolves dies
  have hids : ∀ q' ∈ (s.supersede dies).questions.rows, ∃ q ∈ s.questions.rows,
      q' = if q.state = .pending ∧ dies q then { q with state := .superseded } else q := by
    intro q' hq'
    obtain ⟨q, hq, rfl⟩ := mem_map.mp hq'
    exact ⟨q, hq, rfl⟩
  refine ⟨⟨h.tasks, ?_, h.cursors, h.ordered, fun e he => (h.names e he).mono hev, ?_, ?_⟩, hev,
    ?_, fun e he => .inl he⟩
  · intro q' hq'
    obtain ⟨q, hq, rfl⟩ := hids q' hq'
    have := h.questions q hq
    split <;> exact this
  · intro q' hq' hstate
    obtain ⟨q, hq, rfl⟩ := hids q' hq'
    split at hstate
    · next hdies =>
      left
      rw [if_pos hdies]
      exact mem_map.mpr ⟨q, mem_killed.mpr ⟨hq, hdies⟩, rfl⟩
    · next hdies =>
      rw [if_neg hdies]
      exact .inr ((h.reported q hq hstate).resolve_left (by simp))
  · intro id hid e he
    obtain ⟨q, hq, rfl⟩ := mem_map.mp hid
    obtain ⟨hmem, hpending, -⟩ := mem_killed.mp hq
    exact h.of_question hmem (by simp [hpending]) he
  · intro t row row' hrow hrow'
    obtain rfl := mem_unique hrow hrow'
    exact le_rfl

theorem killed_superseded {dies : QuestionRow → Bool} {q : QuestionRow} (h : q ∈ s.killed dies) :
    { q with state := .superseded } ∈ (s.supersede dies).questions.rows := by
  obtain ⟨hmem, hdies⟩ := mem_killed.mp h
  refine mem_map.mpr ⟨q, hmem, ?_⟩
  rw [if_pos hdies]

/-- What a report of deaths leaves as it was. -/
structure Reported (s s' : TaskStore) : Prop where
  tasks : s'.tasks = s.tasks
  rowids : s'.rowids = s.rowids
  questions : s'.questions = s.questions
  events : s.events <+: s'.events
  deaths : ∀ e ∈ s'.events, e ∈ s.events ∨ ∃ q ∈ s.questions.rows, e.aggregateId = q.questionId.val

theorem Journaled.report {q : QuestionRow} (h : Journaled ids (q.questionId :: owed) s)
    (hnodup : q.questionId ∉ owed) (hq : { q with state := .superseded } ∈ s.questions.rows)
    (taskId : TaskId) (sessionId : SessionId) (delta : List (String × Value)) (origin : String) :
    ∃ s', s.appendEvent sessionId (some taskId) (q.questionId.val, q.revision) "question.superseded"
        delta origin = .ok s' ∧ Journaled ids owed s' ∧ Reported s s' ∧ Journals s s' := by
  have hfree : ∀ id ∈ owed, q.questionId.val ≠ id.val := by
    intro id hid heq
    apply hnodup
    cases id
    cases hval : q.questionId
    simp_all
  obtain ⟨hok, hj⟩ := h.append
    (show s.eventRow sessionId (some taskId) (q.questionId.val, q.revision) "question.superseded"
      delta origin = _ from rfl)
    (fun e he hid => absurd hid (h.unreported _ (by simp) e he))
    (.question hq rfl rfl rfl rfl) (subset_cons_self _ _) hfree (fun r hr hin => by
      rcases mem_cons.mp hin with hid | hin
      · right
        obtain rfl := question_unique hr hq hid
        exact ⟨rfl, rfl, rfl⟩
      · exact .inl hin)
  refine ⟨_, hok, hj, ⟨rfl, rfl, rfl, prefix_append _ _, ?_⟩, _, rfl⟩
  intro e he
  rcases mem_append.mp he with he | he
  · exact .inl he
  · right
    rw [mem_singleton.mp he]
    exact ⟨_, hq, rfl⟩

theorem Reported.trans (h : Reported s s') (h' : Reported s' s'') : Reported s s'' where
  tasks := h'.tasks.trans h.tasks
  rowids := h'.rowids.trans h.rowids
  questions := h'.questions.trans h.questions
  events := h.events.trans h'.events
  deaths e he := by
    rcases h'.deaths e he with he | he
    · exact h.deaths e he
    · rw [h.questions] at he
      exact .inr he

theorem Reported.quiet (h : Reported s s') (hj : Journaled ids owed s) : Quiet ids 0 s s' where
  toEvolves := .of_events h.tasks h.rowids h.questions h.events
  bump t row row' hrow hrow' := by
    rw [h.tasks] at hrow'
    obtain rfl := mem_unique hrow hrow'
    exact le_rfl
  quiet e he := by
    rcases h.deaths e he with he | ⟨q, hq, hid⟩
    · exact .inl he
    · right
      intro htask
      rw [hid] at htask
      exact ids.task_question _ htask (hj.questions q hq)

theorem Journaled.reports {killed : List QuestionRow}
    (h : Journaled ids (killed.map QuestionRow.questionId) s)
    (hnodup : (killed.map QuestionRow.questionId).Nodup)
    (hkilled : ∀ q ∈ killed, { q with state := .superseded } ∈ s.questions.rows)
    (taskId : TaskId) (sessionId : SessionId) (cause : QuestionRow → List (String × Value)) (origin : String) :
    ∃ s', s.journalDeaths sessionId taskId killed cause origin = .ok s' ∧ Journaled ids [] s' ∧
      Reported s s' := by
  induction killed generalizing s with
  | nil => exact ⟨s, rfl, h, ⟨rfl, rfl, rfl, prefix_refl _, fun e he => .inl he⟩⟩
  | cons q rest ih =>
    rw [map_cons, nodup_cons] at hnodup
    obtain ⟨s1, hok, hj, hreported, -⟩ := h.report hnodup.1
      (hkilled q (by simp)) taskId sessionId
      ([("question_id", .string q.questionId.val), ("question_revision", .number q.revision)] ++
        cause q) origin
    have hrest : ∀ r ∈ rest, { r with state := .superseded } ∈ s1.questions.rows := by
      intro r hr
      rw [hreported.questions]
      exact hkilled r (by simp [hr])
    obtain ⟨s', hok', hj', hreported'⟩ := ih hj hnodup.2 hrest
    refine ⟨s', ?_, hj', hreported.trans hreported'⟩
    unfold journalDeaths at hok' ⊢
    rw [foldlM_cons, hok, ok_bind]
    exact hok'

theorem supersede_keeps (h : Journaled ids [] s) (dies : QuestionRow → Bool)
    (sessionId : SessionId) (cause : QuestionRow → List (String × Value)) (origin : String) :
    Within Appends (fun s' => Keeps ids 0 s s' ∧ s'.tasks = s.tasks)
      ((s.supersede dies).journalDeaths sessionId taskId (s.killed dies) cause origin) := by
  obtain ⟨hj, hquiet⟩ := h.supersede dies
  have hnodup : ((s.killed dies).map QuestionRow.questionId).Nodup :=
    s.questions.keyed.sublist (filter_sublist.map _)
  obtain ⟨s', hok, hj', hreported⟩ := hj.reports hnodup
    (fun q hq => killed_superseded hq) taskId sessionId cause origin
  rw [hok]
  exact ⟨⟨hj', hquiet.trans (hreported.quiet hj)⟩, hreported.tasks⟩

theorem supersedePendingQuestions_keeps (h : Journaled ids [] s) (sessionId : SessionId)
    (liveIntent : ℕ) (origin : String) :
    Within Appends (fun s' => Keeps ids 0 s s' ∧ s'.tasks = s.tasks)
      (s.supersedePendingQuestions sessionId taskId liveIntent origin) :=
  supersede_keeps h _ _ _ _

theorem supersedeTerminalQuestions_keeps (h : Journaled ids [] s) (sessionId : SessionId)
    (lifecycle : Lifecycle) (origin : String) :
    Within Appends (fun s' => Keeps ids 0 s s' ∧ s'.tasks = s.tasks)
      (s.supersedeTerminalQuestions sessionId taskId lifecycle origin) :=
  supersede_keeps h _ _ _ _

theorem killed_one {dies : QuestionRow → Bool} {questionId : QuestionId}
    (hdies : ∀ q, dies q = true → q.questionId = questionId) {q : QuestionRow}
    {rest : List QuestionRow} (h : s.killed dies = q :: rest) :
    q.questionId = questionId ∧ rest = [] := by
  have hid : ∀ r ∈ s.killed dies, r.questionId = questionId :=
    fun r hr => hdies r (mem_killed.mp hr).2.2
  have hnodup : ((s.killed dies).map QuestionRow.questionId).Nodup :=
    s.questions.keyed.sublist (filter_sublist.map _)
  rw [h] at hid hnodup
  refine ⟨hid q (by simp), ?_⟩
  rw [eq_nil_iff_forall_not_mem]
  intro r hr
  rw [map_cons, nodup_cons, hid q (by simp), ← hid r (by simp [hr])] at hnodup
  exact hnodup.1 (mem_map_of_mem hr)

theorem storedU64_appends (value : ℕ) :
    Within Appends (fun stored => stored = value) (storedU64 value) := by
  apply Within.bind (Within.require fun _ => by simp)
  intro _ _
  rfl

theorem supersedePlanQuestion_keeps (sessionId : SessionId) (selectionRevision next : ℕ)
    {acc : TaskStore × Bool} (row : PlanObligationRecord) (h : Journaled ids [] acc.1) :
    Within Appends (fun acc' => Keeps ids 0 acc.1 acc'.1)
      (supersedePlanQuestion sessionId taskId selectionRevision next acc row) := by
  unfold supersedePlanQuestion
  split
  · next _ _ questionId _ _ =>
    apply Within.bind (storedU64_appends _)
    rintro revision rfl
    dsimp only
    split
    · exact .refl h
    · next q rest hkilled =>
      have hdies : ∀ q : QuestionRow, decide (q.questionId = questionId ∧ q.taskId = taskId ∧
          q.revision = revision) = true → q.questionId = questionId :=
        fun q hq => (of_decide_eq_true hq).1
      obtain ⟨hid, rfl⟩ := killed_one hdies hkilled
      obtain ⟨hj, hquiet⟩ := h.supersede _
      rw [hkilled] at hj
      obtain ⟨s', hok, hj', hreported, -⟩ := hj.report (by simp)
        (killed_superseded (by rw [hkilled]; simp)) taskId sessionId
        [("question_id", .string questionId.val), ("question_revision", .number q.revision),
          ("selection_revision", .number selectionRevision),
          ("next_selection_revision", .number next)] "state"
      rw [← hid] at hok ⊢
      rw [hok]
      exact ⟨hj', hquiet.trans (hreported.quiet hj)⟩
  · exact .refl h

theorem supersedePlanQuestions_keeps (h : Journaled ids [] s) (sessionId : SessionId)
    (selectionRevision next : ℕ) :
    Within Appends (Keeps ids 0 s)
      (s.supersedePlanQuestions sessionId taskId selectionRevision next) := by
  apply Within.bind
  · apply Within.foldlM (I := fun _ acc => Keeps ids 0 s acc.1)
    · intro seen row acc _ hacc
      apply (supersedePlanQuestion_keeps _ _ _ row hacc.journaled).imp
      exact fun _ h' => hacc.trans h'
    · exact .refl h
  rintro ⟨s1, superseded⟩ h1
  rw [Within.ok_iff]
  split
  · exact h1.trans (flipTask_keeps h1.journaled _ _ _ (by simp) (by simp))
  · exact h1

theorem supersedeReplaced_keeps (h : Journaled ids [] s) (sessionId : SessionId) (next : ℕ) :
    Within Appends (Keeps ids 0 s) (s.supersedeReplaced sessionId taskId next) := by
  unfold supersedeReplaced
  split
  · exact supersedePlanQuestions_keeps h _ _ _
  · exact .refl h

/-! ## Questions that are asked and answered -/

theorem Keeps.insert (h : Journaled ids [] s) {row : QuestionRow}
    (hid : ids.question row.questionId.val) (hpending : row.state = .pending)
    (hfree : ∀ q ∈ s.questions.rows, q.questionId ≠ row.questionId) :
    Keeps ids 0 s { s with questions := s.questions.insert row hfree } := by
  have hev : Evolves s { s with questions := s.questions.insert row hfree } :=
    insertQuestions_evolves hfree
  refine ⟨⟨h.tasks, ?_, h.cursors, h.ordered, fun e he => (h.names e he).mono hev, ?_, ?_⟩, hev,
    ?_, fun e he => .inl he⟩
  · intro q hq
    rcases mem_append.mp hq with hq | hq
    · exact h.questions q hq
    · rw [mem_singleton.mp hq]
      exact hid
  · intro q hq hstate
    rcases mem_append.mp hq with hq | hq
    · exact h.reported q hq hstate
    · rw [mem_singleton.mp hq, hpending] at hstate
      cases hstate
  · simp
  · intro t row row' hrow hrow'
    obtain rfl := mem_unique hrow hrow'
    exact le_rfl

theorem insertQuestionRow_keeps (h : Journaled ids [] s) {question : Question}
    (hid : ids.question question.questionId.val) :
    Within Appends (fun s' => Keeps ids 0 s s' ∧ s'.tasks = s.tasks)
      (s.insertQuestionRow question) := by
  unfold insertQuestionRow
  dsimp only
  split
  · exact ⟨.insert h hid rfl _, rfl⟩
  · exact fun he => by cases he

theorem setAnswer_keeps (h : Journaled ids [] s) {questionId : QuestionId} {q : QuestionRow}
    (hq : s.questionById questionId taskId = some q) (hpending : q.state = .pending)
    (selection : AnswerSelection) (author : String) :
    Keeps ids 0 s (s.setAnswer questionId selection author) := by
  have hev : Evolves s (s.setAnswer questionId selection author) :=
    setAnswer_evolves hq hpending selection author
  refine ⟨⟨h.tasks, ?_, h.cursors, h.ordered, fun e he => (h.names e he).mono hev, ?_, ?_⟩, hev,
    ?_, fun e he => .inl he⟩
  · intro r' hr'
    obtain ⟨r, hr, rfl⟩ := mem_map.mp hr'
    rw [(setAnswer_ages hq hpending selection author hr).questionId]
    exact h.questions r hr
  · intro r' hr' hstate
    obtain ⟨r, hr, rfl⟩ := mem_map.mp hr'
    by_cases hid : r.questionId = questionId
    · simp [hid] at hstate
    · rw [if_neg hid] at hstate ⊢
      exact h.reported r hr hstate
  · simp
  · intro t row row' hrow hrow'
    obtain rfl := mem_unique hrow hrow'
    exact le_rfl

/-! ## Transactions -/

/-- The revision that the plan's settlement adds to a task left in a lifecycle: one where the row
is in another lifecycle now. -/
def settled (left : Option (TaskId × Lifecycle)) (t : TaskId) (row : TaskRow) : ℕ :=
  if left.any fun p => p.1 = t ∧ p.2 ≠ row.lifecycle then 1 else 0

/-- What a transaction leaves. A new event of a task carries the revision that the task's row has
at the commit, less what a settlement after it added. -/
structure Commits (ids : Ids) (left : Option (TaskId × Lifecycle)) (s s' : TaskStore) :
    Prop where
  journaled : Journaled ids [] s'
  evolves : Evolves s s'
  carried : ∀ e ∈ s'.events, e ∈ s.events ∨ ¬ ids.task e.aggregateId ∨
    ∃ t row, e.aggregateId = t.val ∧ s'.tasks t = some row ∧
      row.revision = e.aggregateRevision + settled left t row

theorem Keeps.commits (h : Keeps ids n s s') : Commits ids left s s' where
  journaled := h.journaled
  evolves := h.quiet.toEvolves
  carried e he := (h.quiet.quiet e he).imp_right .inl

theorem Keeps.then_commits (h : Keeps ids n s s') (h' : Commits ids left s' s'') :
    Commits ids left s s'' where
  journaled := h'.journaled
  evolves := h.quiet.toEvolves.trans h'.evolves
  carried e he := by
    rcases h'.carried e he with he | he
    · exact (h.quiet.quiet e he).imp_right .inl
    · exact .inr he

theorem Commits.then_keeps (h : Commits ids none s s') (h' : Keeps ids 0 s' s'') :
    Commits ids none s s'' where
  journaled := h'.journaled
  evolves := h.evolves.trans h'.quiet.toEvolves
  carried e he := by
    rcases h'.quiet.quiet e he with he | he
    · rcases h.carried e he with he | he | ⟨t, row, hid, hrow, hrevision⟩
      · exact .inl he
      · exact .inr (.inl he)
      · obtain ⟨row', hrow', hlater⟩ := h'.quiet.tasks t row hrow
        have hsame := le_antisymm (h'.quiet.bump t row row' hrow hrow') hlater.revision
        exact .inr (.inr ⟨t, row', hid, hrow', hsame.trans hrevision⟩)
    · exact .inr (.inl he)

theorem appendTaskEvent_commits {row : TaskRow} (h : Journaled ids [] s)
    (htask : ids.task taskId.val) (hs : Keeps ids n s s') (hrow : s'.tasks taskId = some row)
    (hlast : ∀ last, s.tasks taskId = some last → last.revision < row.revision)
    (sessionId : SessionId) (task : Option TaskId) {eventType : String}
    (htype : eventType ≠ QUESTION_SUPERSEDED) (delta : List (String × Value)) (origin : String) :
    Within Appends (Commits ids none s)
      (s'.appendEvent sessionId task (taskId.val, row.revision) eventType delta origin) := by
  have hroom : ∀ e ∈ s'.events, e.aggregateId = taskId.val → e.aggregateRevision < row.revision := by
    intro e he hid
    rcases hs.quiet.quiet e he with he | he
    · obtain ⟨last, hlast', hle⟩ := h.of_task he hid htask
      exact lt_of_le_of_lt hle (hlast last hlast')
    · rw [hid] at he
      exact absurd htask he
  obtain ⟨hok, hj⟩ := hs.journaled.append
    (show s'.eventRow sessionId task (taskId.val, row.revision) eventType delta origin = _ from rfl)
    hroom (.task hrow rfl le_rfl htype) (Subset.refl _) (by simp) (by simp)
  rw [hok]
  refine ⟨hj, hs.quiet.toEvolves.trans (.of_events rfl rfl rfl (prefix_append _ _)), ?_⟩
  intro e he
  rcases mem_append.mp he with he | he
  · exact (hs.quiet.quiet e he).imp_right .inl
  · right; right
    rw [mem_singleton.mp he]
    exact ⟨taskId, row, rfl, hrow, rfl⟩

end Rivect.TaskStore
