import Rivect.TaskStore.View

/-! # Criteria, obligations, evidence and attempts

The creation of a task, the calls that write no other table, and the tasks whose unresolved
obligations and unknown attempts they count anew.
-/

namespace Rivect.TaskStore

open Lib List

variable {s s' s'' : TaskStore} {taskId u : TaskId} {T : TaskId → Prop}

/-- Any refusal. -/
abbrev Refuses : StoreError → Prop := fun _ => True

/-- Every failure but that of an event that found its place taken. -/
abbrev Appends : StoreError → Prop := (· ≠ .eventExists)

theorem look_appends {α β : Type} {Q : β → Prop} {o : Option α} {e : StoreError}
    {f : α → Except StoreError β} (he : Appends e) (hf : ∀ a, o = some a → Within Appends Q (f a)) :
    Within Appends Q (found o e >>= f) := Within.bind (Within.found fun _ => he) hf

theorem guard_appends {β : Type} {Q : β → Prop} {c : Prop} [Decidable c] {e : StoreError}
    {f : Unit → Except StoreError β} (he : Appends e) (hf : c → Within Appends Q (f ())) :
    Within Appends Q (require c e >>= f) := Within.bind (Within.require fun _ => he) fun _ => hf

/-! ## Creation -/

/-- A new task: its row, its criteria, its event and its receipt. -/
structure Creates (taskId : TaskId) (params : CreateParams) (s s' : TaskStore) : Prop where
  absent : s.tasks taskId = none
  criteria : ∀ c ∈ s'.criteria, c ∈ s.criteria ∨ c.taskId = taskId
  rest : ∃ criteria event receipts, s' = { s with
    tasks := Function.update s.tasks taskId
      (some ⟨params.sessionId, 1, 1, 1, .running, params.goal, 1⟩)
    rowids := s.rowids ++ [taskId]
    constraints := Function.update s.constraints taskId params.constraints
    criteria := criteria
    events := s.events ++ [event]
    receipts := receipts }

theorem insertTask_criteria (criterionId : ℕ → String) (params : CreateParams) :
    Within Refuses (fun s' => s.tasks taskId = none ∧ ∃ criteria,
      (∀ c ∈ criteria, c ∈ s.criteria ∨ c.taskId = taskId) ∧ s' = { s with
        tasks := Function.update s.tasks taskId
          (some ⟨params.sessionId, 1, 1, 1, .running, params.goal, 1⟩)
        rowids := s.rowids ++ [taskId]
        constraints := Function.update s.constraints taskId params.constraints
        criteria := criteria }) (s.insertTask taskId criterionId params) := by
  apply Within.guard
  intro habsent
  apply Within.foldlM (I := fun _ (s' : TaskStore) => s.tasks taskId = none ∧ ∃ criteria,
    (∀ c ∈ criteria, c ∈ s.criteria ∨ c.taskId = taskId) ∧ s' = { s with
      tasks := _, rowids := _, constraints := _, criteria := criteria })
  · rintro _ text s' - ⟨-, criteria, hc, rfl⟩
    apply Within.skip
    refine fun _ => ⟨habsent, _, fun c hmem => ?_, rfl⟩
    rcases mem_append.mp hmem with hmem | hmem
    · exact hc c hmem
    · exact .inr (by rw [mem_singleton.mp hmem])
  · exact ⟨habsent, s.criteria, fun _ => .inl, rfl⟩

theorem createTask_creates (criterionId : ℕ → String) (commandId : String)
    (params : CreateParams) :
    Within Refuses (fun r => r.1 = s ∨
        s.receipt commandId = none ∧ Creates taskId params s r.1)
      (s.createTask taskId criterionId commandId params) := by
  apply Within.skip
  intro _
  split
  · apply Within.skip
    exact fun _ => .inl rfl
  · next hreceipt =>
    apply Within.bind (insertTask_criteria criterionId params)
    rintro _ ⟨habsent, criteria, hcriteria, rfl⟩
    unfold appendEvent recordReceipt
    simp only [bind_assoc, ok_bind]
    apply Within.skip
    intro _
    apply Within.skip
    intro _
    apply Within.skip
    exact fun _ => .inr ⟨hreceipt, habsent, hcriteria, _, _, _, rfl⟩

/-! ## Records -/

/-- Only criteria, obligations, evidence, attempts or receipts are written, and the tasks outside
`T` count as before. -/
structure Records (T : TaskId → Prop) (s s' : TaskStore) : Prop where
  rest : ∃ criteria obligations evidence attempts receipts, s' = { s with
    criteria := criteria
    obligations := obligations
    evidence := evidence
    attempts := attempts
    receipts := receipts }
  unresolved : ∀ u, ¬ T u → s'.unresolvedObligations u = s.unresolvedObligations u
  unknown : ∀ u, ¬ T u → s'.unknownAttempts u = s.unknownAttempts u

namespace Records

/-- The statements that write neither obligations nor attempts. -/
theorem uncounted (s : TaskStore) (criteria : List CriterionRow) (evidence : List EvidenceRow)
    (receipts : List ReceiptRow) : Records T s { s with
      criteria := criteria
      evidence := evidence
      receipts := receipts } :=
  ⟨⟨_, _, _, _, _, rfl⟩, fun _ _ => rfl, fun _ _ => rfl⟩

theorem refl (s : TaskStore) : Records T s s := uncounted s _ _ _

theorem trans (h : Records T s s') (h' : Records T s' s'') : Records T s s'' := by
  obtain ⟨_, _, _, _, _, rfl⟩ := h.rest
  obtain ⟨_, _, _, _, _, rfl⟩ := h'.rest
  exact ⟨⟨_, _, _, _, _, rfl⟩, fun u hu => (h'.unresolved u hu).trans (h.unresolved u hu),
    fun u hu => (h'.unknown u hu).trans (h.unknown u hu)⟩

theorem view (h : Records T s s') (u : TaskId) : s'.view u = s.view u := by
  obtain ⟨_, _, _, _, _, rfl⟩ := h.rest
  rfl

end Records

theorem updateObligation_records {obligationId : String} {f : ObligationRow → ObligationRow}
    (htask : ∀ o, (f o).taskId = o.taskId)
    (hT : ∀ o ∈ s.obligations, o.obligationId = obligationId →
      T o.taskId ∨ (f o).applicability = o.applicability) :
    Records T s (s.updateObligation obligationId f) := by
  refine ⟨⟨_, _, _, _, _, rfl⟩, fun u hu => ?_, fun _ _ => rfl⟩
  simp only [unresolvedObligations, obligationsOf, updateObligation, countP_filter,
    countP_map]
  apply countP_congr
  intro o ho
  simp only [Function.comp_apply, Bool.and_eq_true, decide_eq_true_eq]
  split
  · next hid =>
    rw [htask o]
    rcases hT o ho hid with hmine | hsame
    · exact iff_of_false (fun h => hu (h.2 ▸ hmine)) fun h => hu (h.2 ▸ hmine)
    · rw [hsame]
  · rfl

theorem insertObligations_records (obligationId : ℕ → String) (missing : List (String × ℕ)) :
    Records T s (insertObligations taskId obligationId s missing).1 ∧
      (insertObligations taskId obligationId s missing).2 ≠ .error .eventExists := by
  induction missing generalizing s with
  | nil => exact ⟨.refl s, nofun⟩
  | cons c rest ih =>
    have hw : Within Appends (Records T s) (s.insertObligation (obligationId c.2) taskId c.1) := by
      apply guard_appends (by simp)
      refine fun _ => ⟨⟨_, _, _, _, _, rfl⟩, fun u _ => ?_, fun _ _ => rfl⟩
      simp [unresolvedObligations, obligationsOf, countP_filter]
    unfold insertObligations
    split
    · next s' hok => exact ⟨(hw.of_ok hok).trans ih.1, ih.2⟩
    · next e herr =>
      refine ⟨.refl s, ?_⟩
      simpa only [ne_eq, Except.error.injEq] using hw.of_error herr

theorem recordEvidence_records (row : EvidenceRow) (obligationId : String) :
    Within Appends (Records T s)
      (s.insertEvidenceRow row >>= fun s => .ok (s.satisfyObligation obligationId)) := by
  apply Within.bind (P := Records T s)
  · apply guard_appends (by simp)
    exact fun _ => .uncounted s _ _ _
  · exact fun _ h => h.trans (updateObligation_records (fun _ => rfl) fun _ _ _ => .inr rfl)

/-- The calls that write one of these tables alone. -/
def Op.recordsOnly : Op → Bool
  | .materializeObligations .. | .planAttempt .. | .setAttemptState .. | .insertEvidence ..
  | .insertEvidenceForTask .. | .deleteScopedRecord .. => true
  | _ => false

/-- The task has an obligation of this id. -/
def Owes (s : TaskStore) (obligationId : String) (taskId : TaskId) : Prop :=
  ∃ o ∈ s.obligations, o.obligationId = obligationId ∧ o.taskId = taskId

theorem taskIdForObligation_some {obligationId : String}
    (h : s.taskIdForObligation obligationId = some taskId) : s.Owes obligationId taskId := by
  obtain ⟨o, ho, rfl⟩ := Option.map_eq_some_iff.mp h
  exact ⟨o, mem_of_find?_eq_some ho, by simpa using find?_some ho, rfl⟩

/-- An obligation goes unresolved, perhaps with a record that goes stale. -/
theorem doubt_records (evidence : List EvidenceRow) {obligationId : String}
    {f : ObligationRow → ObligationRow} (htask : ∀ o, (f o).taskId = o.taskId) :
    Records (s.Owes obligationId) s
      ({ s with evidence := evidence }.updateObligation obligationId f) :=
  (Records.uncounted s _ evidence _).trans
    (updateObligation_records htask fun o ho hid => .inl ⟨o, ho, hid, rfl⟩)

/-- The task's unresolved obligations or unknown attempts may count anew. -/
def Op.recounts (s : TaskStore) : Op → TaskId → Prop
  | .setAttemptState attemptId state _, taskId => ∃ a ∈ s.attempts, a.attemptId = attemptId ∧
    a.taskId = taskId ∧ ¬ (a.state = .unknown ↔ state = .unknown)
  | .invalidateEvidence evidenceId, taskId =>
    ∃ e ∈ s.evidence, e.evidenceId = evidenceId ∧ s.Owes e.obligationId taskId
  | .markApplicabilityUnresolved obligationId, taskId => s.Owes obligationId taskId
  | _, _ => False

/-- A call lands where its body does, or leaves the tables alone. -/
theorem commit_within {E : StoreError → Prop} {P : TaskStore → Prop}
    {body : Except StoreError TaskStore} (hs : P s) (h : Within E P body) :
    P (s.commit body).1 := by
  cases body with
  | ok s' => exact h
  | error e => exact hs

theorem commit_appends {P : TaskStore → Prop} {body : Except StoreError TaskStore} (hs : P s)
    (h : Within Appends P body) :
    P (s.commit body).1 ∧ (s.commit body).2 ≠ .error .eventExists := by
  refine ⟨commit_within hs h, ?_⟩
  cases body with
  | ok s' => exact nofun
  | error e => simpa only [commit, ne_eq, Except.error.injEq] using h.of_error rfl

theorem perform_records {op : Op} (hop : op.recordsOnly = true) :
    Records (op.recounts s) s (s.perform op).1 ∧ (s.perform op).2 ≠ .error .eventExists := by
  cases op with
  | materializeObligations => exact insertObligations_records _ _
  | planAttempt =>
    apply commit_appends (.refl s)
    apply guard_appends (by simp)
    refine fun _ => ⟨⟨_, _, _, _, _, rfl⟩, fun _ _ => rfl, fun u _ => ?_⟩
    simp [unknownAttempts]
  | setAttemptState attemptId state detail =>
    apply commit_appends (.refl s)
    apply guard_appends (by simp)
    refine fun _ => ⟨⟨_, _, _, _, _, rfl⟩, fun _ _ => rfl, fun u hu => ?_⟩
    simp only [unknownAttempts, countP_map]
    apply countP_congr
    intro a ha
    simp only [Function.comp_apply, decide_eq_true_eq]
    split
    · next hid =>
      refine and_congr_right fun htask => ?_
      by_contra hstate
      exact hu ⟨a, ha, hid, htask, fun h => hstate h.symm⟩
    · rfl
  | insertEvidence =>
    apply commit_appends (.refl s)
    apply look_appends (by simp)
    exact fun _ _ => recordEvidence_records _ _
  | insertEvidenceForTask =>
    apply commit_appends (.refl s)
    apply Within.foldlM (I := fun _ s' => Records _ s s')
    · exact fun _ _ s' _ hs' => (recordEvidence_records _ _).imp fun _ h => hs'.trans h
    · exact .refl s
  | deleteScopedRecord =>
    apply commit_appends (.refl s)
    apply look_appends (by simp)
    intro _ _
    dsimp only
    split
    · exact (Records.uncounted s _ _ _).trans
        (updateObligation_records (fun _ => rfl) fun _ _ _ => .inr rfl)
    · exact .uncounted s _ _ _
  | _ => cases hop

end Rivect.TaskStore
