import Rivect.TaskStore.Events

/-! # What a completion rests on

A satisfied obligation has a record, and a stale record leaves its obligation unresolved. A task
that completed with an obligation for every criterion keeps its support until a deletion takes
the last record of an obligation.
-/

namespace Rivect.TaskStore

open Lib TaskView List
open Within (skip map_fst ok_iff)

variable {s s' s'' : TaskStore} {taskId t : TaskId}

def records (s : TaskStore) : List CriterionRow × List ObligationRow × List EvidenceRow :=
  (s.criteria, s.obligations, s.evidence)

/-- The three tables stay as they are. -/
abbrev Spares (s s' : TaskStore) : Prop := s'.records = s.records

theorem frame_spares (taskId : TaskId) : Frame taskId KeepsRow fun _ => Spares where
  doubted _ := ⟨rfl, rfl, rfl, .inr rfl⟩
  answered _ _ := ⟨rfl, rfl, rfl, .inl rfl⟩
  reopened _ := ⟨rfl, rfl, rfl, .inl rfl⟩
  refl _ := rfl
  trans h h' := h'.trans h
  weaken := id
  journal _ _ := rfl
  questions _ _ _ := rfl
  task _ _ _ := rfl
  next _ _ _ _ _ _ := rfl
  answers _ _ := rfl
  hold _ _ := rfl
  mark _ _ := rfl
  plans _ _ _ := rfl
  rows _ _ _ _ := rfl

/-- The calls that write one of the three tables. -/
def Op.writesRecords : Op → Bool
  | .createTask .. | .materializeObligations .. | .insertEvidence .. | .insertEvidenceForTask ..
  | .invalidateEvidence .. | .markApplicabilityUnresolved .. | .deleteScopedRecord .. => true
  | _ => false

theorem perform_spares {op : Op} (hop : op.writesRecords = false) :
    Spares s (s.perform op).1 := by
  cases op with
  | recordPlanSelection _ taskId =>
    apply (frame_spares taskId).commit (a := false)
    apply map_fst
    exact (frame_spares taskId).recordPlanSelection (fun _ _ => rfl) (fun _ _ => rfl) _ _
  | planAttempt _ taskId =>
    apply (frame_spares taskId).commit (a := false)
    apply skip
    exact fun _ => rfl
  | setAttemptState =>
    apply (frame_spares ⟨""⟩).commit (a := false)
    apply skip
    exact fun _ => rfl
  | createTask | materializeObligations | insertEvidence | insertEvidenceForTask
  | invalidateEvidence | markApplicabilityUnresolved | deleteScopedRecord => cases hop
  | _ => exact (frame_spares _).perform rfl (Op.rowsWithin_keepsRow _)

/-- What the obligations and the evidence say of each other. -/
structure Backed (s : TaskStore) : Prop where
  keyed : (s.obligations.map ObligationRow.obligationId).Nodup
  ids : (s.evidence.map EvidenceRow.evidenceId).Nodup
  backed : ∀ e ∈ s.evidence, ∃ o ∈ s.obligations, o.obligationId = e.obligationId
  supported : ∀ o ∈ s.obligations, o.execution = .satisfied →
    ∃ e ∈ s.evidence, e.obligationId = o.obligationId
  stale : ∀ e ∈ s.evidence, e.validity = .stale →
    ∀ o ∈ s.obligations, o.obligationId = e.obligationId → o.applicability = .unresolved

/-- Every criterion of the task has an obligation, and every obligation of it is satisfied. -/
structure Covered (s : TaskStore) (taskId : TaskId) : Prop where
  criteria : ∀ c ∈ s.criteria, c.taskId = taskId →
    ∃ o ∈ s.obligations, o.taskId = taskId ∧ o.criterionId = c.criterionId
  satisfied : ∀ o ∈ s.obligations, o.taskId = taskId →
    o.execution = .satisfied ∧ o.applicability ≠ .unresolved

/-- The tables, and the completed tasks. -/
structure Kept (s : TaskStore) : Prop where
  backed : Backed s
  completed : ∀ t, s.lifecycleOf t = some .completed → Covered s t

theorem Backed.of_tables (h : Backed s) (ho : s'.obligations = s.obligations)
    (he : s'.evidence = s.evidence) : Backed s' := by
  refine ⟨?_, ?_, ?_, ?_, ?_⟩
  · rw [ho]
    exact h.keyed
  · rw [he]
    exact h.ids
  · rw [ho, he]
    exact h.backed
  · rw [ho, he]
    exact h.supported
  · rw [ho, he]
    exact h.stale

theorem Backed.of_spares (h : Backed s) (hs : Spares s s') : Backed s' := by
  obtain ⟨-, hrest⟩ := Prod.mk.inj hs
  obtain ⟨ho, he⟩ := Prod.mk.inj hrest
  exact h.of_tables ho he

theorem Covered.of_spares (h : Covered s taskId) (hs : Spares s s') : Covered s' taskId := by
  obtain ⟨hc, hrest⟩ := Prod.mk.inj hs
  obtain ⟨ho, -⟩ := Prod.mk.inj hrest
  refine ⟨?_, ?_⟩
  · rw [hc, ho]
    exact h.criteria
  · rw [ho]
    exact h.satisfied

theorem Kept.of_spares (h : Kept s) (hs : Spares s s')
    (hl : ∀ t, s'.lifecycleOf t = some .completed → s.lifecycleOf t = some .completed) :
    Kept s' :=
  ⟨h.backed.of_spares hs, fun t ht => (h.completed t (hl t ht)).of_spares hs⟩

/-! ## Obligations -/

theorem obligation_unique (h : Backed s) {o o' : ObligationRow} (ho : o ∈ s.obligations)
    (ho' : o' ∈ s.obligations) (hid : o.obligationId = o'.obligationId) : o = o' :=
  inj_on_of_nodup_map h.keyed ho ho' hid

/-- An update of an obligation's states. -/
def KeepsNames (f : ObligationRow → ObligationRow) : Prop :=
  ∀ o, (f o).obligationId = o.obligationId ∧ (f o).taskId = o.taskId ∧
    (f o).criterionId = o.criterionId

theorem satisfied_names : KeepsNames fun o => { o with execution := .satisfied } :=
  fun _ => ⟨rfl, rfl, rfl⟩

theorem stale_names :
    KeepsNames fun o => { o with applicability := .unresolved, execution := .stale } :=
  fun _ => ⟨rfl, rfl, rfl⟩

theorem unresolved_names : KeepsNames fun o => { o with applicability := .unresolved } :=
  fun _ => ⟨rfl, rfl, rfl⟩

theorem reopened_names : KeepsNames fun o => { o with execution := .pending } :=
  fun _ => ⟨rfl, rfl, rfl⟩

theorem updateObligation_keys {obligationId : String} {f : ObligationRow → ObligationRow}
    (hf : KeepsNames f) :
    (s.updateObligation obligationId f).obligations.map ObligationRow.obligationId =
      s.obligations.map ObligationRow.obligationId := by
  rw [updateObligation, map_map]
  apply map_congr_left
  intro o _
  dsimp only [Function.comp_apply]
  split
  · exact (hf o).1
  · rfl

theorem mem_updateObligation {obligationId : String} {f : ObligationRow → ObligationRow}
    {o : ObligationRow} :
    o ∈ (s.updateObligation obligationId f).obligations ↔
      (o ∈ s.obligations ∧ o.obligationId ≠ obligationId) ∨
        ∃ o1 ∈ s.obligations, o1.obligationId = obligationId ∧ o = f o1 := by
  simp only [updateObligation, mem_map]
  constructor
  · rintro ⟨o1, ho1, rfl⟩
    by_cases hid : o1.obligationId = obligationId
    · exact .inr ⟨o1, ho1, hid, if_pos hid⟩
    · rw [if_neg hid]
      exact .inl ⟨ho1, hid⟩
  · rintro (⟨ho, hid⟩ | ⟨o1, ho1, hid, rfl⟩)
    · exact ⟨o, ho, if_neg hid⟩
    · exact ⟨o1, ho1, if_pos hid⟩

theorem updateObligation_names {obligationId : String} {f : ObligationRow → ObligationRow}
    (hf : KeepsNames f) {o : ObligationRow} (ho : o ∈ s.obligations) :
    ∃ o' ∈ (s.updateObligation obligationId f).obligations, o'.obligationId = o.obligationId ∧
      o'.taskId = o.taskId ∧ o'.criterionId = o.criterionId := by
  by_cases hid : o.obligationId = obligationId
  · exact ⟨f o, mem_updateObligation.mpr (.inr ⟨o, ho, hid, rfl⟩), hf o⟩
  · exact ⟨o, mem_updateObligation.mpr (.inl ⟨ho, hid⟩), rfl, rfl, rfl⟩

theorem insertObligation_backed (h : Backed s) (obligationId : String) (taskId : TaskId)
    (criterionId : String) :
    Within Refuses (fun s' => Backed s' ∧ s'.criteria = s.criteria ∧
        s'.obligations = s.obligations ++ [⟨obligationId, taskId, criterionId, .required, .pending⟩] ∧
        ∀ t, s'.lifecycleOf t = s.lifecycleOf t)
      (s.insertObligation obligationId taskId criterionId) := by
  apply Within.guard
  intro hfree
  refine ⟨⟨?_, h.ids, ?_, ?_, ?_⟩, rfl, rfl, fun _ => rfl⟩
  · rw [map_append]
    refine nodup_append.mpr ⟨h.keyed, nodup_singleton _, ?_⟩
    intro a ha b hb
    obtain ⟨o, ho, rfl⟩ := mem_map.mp ha
    obtain rfl := mem_singleton.mp hb
    exact hfree o ho
  · intro e he
    obtain ⟨o, ho, hid⟩ := h.backed e he
    exact ⟨o, mem_append_left _ ho, hid⟩
  · intro o ho hsat
    rcases mem_append.mp ho with ho | ho
    · exact h.supported o ho hsat
    · obtain rfl := mem_singleton.mp ho
      cases hsat
  · intro e he hstale o ho hid
    rcases mem_append.mp ho with ho | ho
    · exact h.stale e he hstale o ho hid
    · obtain rfl := mem_singleton.mp ho
      obtain ⟨o', ho', hid'⟩ := h.backed e he
      exact absurd (hid'.trans hid.symm) (hfree o' ho')

theorem insertObligations_kept (h : Kept s) (obligationId : ℕ → String)
    (missing : List (String × ℕ))
    (hmissing : s.lifecycleOf taskId = some .completed → missing = []) :
    Kept (insertObligations taskId obligationId s missing).1 := by
  induction missing generalizing s with
  | nil => exact h
  | cons c rest ih =>
    unfold insertObligations
    split
    · next s' hok =>
      obtain ⟨hbacked, hcriteria, hobligations, hlifecycle⟩ :=
        (insertObligation_backed h.backed _ _ _).of_ok hok
      have hlive : s.lifecycleOf taskId ≠ some .completed := fun hl => by cases hmissing hl
      apply ih
      · refine ⟨hbacked, fun t ht => ?_⟩
        rw [hlifecycle] at ht
        have hcovered := h.completed t ht
        have hne : t ≠ taskId := by
          rintro rfl
          exact hlive ht
        refine ⟨fun c hc htask => ?_, fun o ho htask => ?_⟩
        · rw [hcriteria] at hc
          obtain ⟨o, ho, hid⟩ := hcovered.criteria c hc htask
          exact ⟨o, by rw [hobligations]; exact mem_append_left _ ho, hid⟩
        · rw [hobligations] at ho
          rcases mem_append.mp ho with ho | ho
          · exact hcovered.satisfied o ho htask
          · obtain rfl := mem_singleton.mp ho
            exact absurd htask.symm hne
      · intro hl
        rw [hlifecycle] at hl
        exact absurd hl hlive
    · exact h

theorem materializeObligations_kept (h : Kept s) (taskId : TaskId) (obligationId : ℕ → String) :
    Kept (s.materializeObligations taskId obligationId).1 := by
  apply insertObligations_kept h
  intro hl
  have hcovered := h.completed taskId hl
  have hnone : s.missingObligations taskId = [] := by
    apply filter_eq_nil_iff.mpr
    intro id hid hall
    obtain ⟨c, hc, rfl⟩ := mem_map.mp hid
    obtain ⟨hmem, htask⟩ := mem_filter.mp hc
    obtain ⟨o, ho, hot, hoc⟩ := hcovered.criteria c hmem (of_decide_eq_true htask)
    have hofTask : o ∈ s.obligationsOf taskId := mem_filter.mpr ⟨ho, by simp [hot]⟩
    have hne := of_decide_eq_true (all_eq_true.mp hall o hofTask)
    exact hne hoc
  rw [hnone]
  rfl

/-! ## Evidence -/

theorem recordEvidence_kept (h : Kept s) {row : EvidenceRow} (hcurrent : row.validity = .current)
    (howned : ∃ o ∈ s.obligations, o.obligationId = row.obligationId) :
    Within Refuses (fun s' => Kept (s'.satisfyObligation row.obligationId) ∧
        s'.obligations = s.obligations) (s.insertEvidenceRow row) := by
  apply Within.guard
  intro hfree
  refine ⟨⟨⟨?_, ?_, ?_, ?_, ?_⟩, ?_⟩, rfl⟩
  · rw [satisfyObligation, updateObligation_keys satisfied_names]
    exact h.backed.keyed
  · change ((s.evidence ++ [row]).map EvidenceRow.evidenceId).Nodup
    rw [map_append]
    refine nodup_append.mpr ⟨h.backed.ids, nodup_singleton _, ?_⟩
    intro a ha b hb
    obtain ⟨e, he, rfl⟩ := mem_map.mp ha
    obtain rfl := mem_singleton.mp hb
    exact hfree e he
  · intro e he
    have howner : ∃ o ∈ s.obligations, o.obligationId = e.obligationId := by
      rcases mem_append.mp he with he | he
      · exact h.backed.backed e he
      · rw [mem_singleton.mp he]
        exact howned
    obtain ⟨o, ho, hid⟩ := howner
    obtain ⟨o', ho', hid', -⟩ := updateObligation_names satisfied_names ho
    exact ⟨o', ho', hid'.trans hid⟩
  · intro o ho hsat
    rcases mem_updateObligation.mp ho with ⟨ho, -⟩ | ⟨o1, -, hid, rfl⟩
    · obtain ⟨e, he, hid⟩ := h.backed.supported o ho hsat
      exact ⟨e, mem_append_left _ he, hid⟩
    · exact ⟨row, mem_append_right _ (mem_singleton.mpr rfl), hid.symm⟩
  · intro e he hstale o ho hid
    rcases mem_append.mp he with he | he
    · rcases mem_updateObligation.mp ho with ⟨ho, -⟩ | ⟨o1, ho1, -, rfl⟩
      · exact h.backed.stale e he hstale o ho hid
      · exact h.backed.stale e he hstale o1 ho1 hid
    · rw [mem_singleton.mp he, hcurrent] at hstale
      cases hstale
  · intro t ht
    have hcovered := h.completed t ht
    refine ⟨fun c hc htask => ?_, fun o ho htask => ?_⟩
    · obtain ⟨o, ho, hot, hoc⟩ := hcovered.criteria c hc htask
      obtain ⟨o', ho', -, htask', hcriterion⟩ :=
        updateObligation_names satisfied_names ho
      exact ⟨o', ho', htask'.trans hot, hcriterion.trans hoc⟩
    · rcases mem_updateObligation.mp ho with ⟨ho, -⟩ | ⟨o1, ho1, -, rfl⟩
      · exact hcovered.satisfied o ho htask
      · exact ⟨rfl, (hcovered.satisfied o1 ho1 htask).2⟩

theorem insertEvidence_kept (h : Kept s) (evidenceId : String) (obligationIndex : ℕ)
    (scope observation digest : String) :
    Within Refuses Kept
      (s.insertEvidence evidenceId taskId obligationIndex scope observation digest) := by
  apply Within.look
  intro o ho
  have hmem : o ∈ s.obligations := mem_of_mem_filter (mem_of_getElem? ho)
  apply Within.bind (recordEvidence_kept h (by rfl) ⟨o, hmem, rfl⟩)
  exact fun s' h' => h'.1

theorem insertEvidenceForTask_kept (h : Kept s) (evidenceId : ℕ → String)
    (scope observation digest : String) :
    Within Refuses Kept (s.insertEvidenceForTask evidenceId taskId scope observation digest) := by
  apply (Within.foldlM (I := fun _ (s' : TaskStore) => Kept s' ∧
    s'.obligations.map ObligationRow.obligationId =
      s.obligations.map ObligationRow.obligationId) ?_ ⟨h, rfl⟩).imp
  · exact fun _ h' => h'.1
  · rintro seen ⟨id, k⟩ s' ho ⟨h', hkeys⟩
    have hid : id ∈ s'.obligations.map ObligationRow.obligationId := by
      rw [hkeys]
      have hmem := fst_mem_of_mem_zipIdx ho
      obtain ⟨o, hofTask, rfl⟩ := mem_map.mp hmem
      exact mem_map_of_mem (mem_of_mem_filter hofTask)
    obtain ⟨o, hmem, rfl⟩ := mem_map.mp hid
    apply Within.bind (recordEvidence_kept h' (by rfl) ⟨o, hmem, rfl⟩)
    rintro s1 ⟨h1, hsame⟩
    refine ⟨h1, ?_⟩
    rw [satisfyObligation, updateObligation_keys satisfied_names, hsame]
    exact hkeys

/-! ## Support that goes away -/

theorem evidence_unique (h : Backed s) {e e' : EvidenceRow} (he : e ∈ s.evidence)
    (he' : e' ∈ s.evidence) (hid : e.evidenceId = e'.evidenceId) : e = e' :=
  inj_on_of_nodup_map h.ids he he' hid

theorem blockTaskNotCancelled_not_completed (s : TaskStore) (t : TaskId) :
    (s.blockTaskNotCancelled t).lifecycleOf t ≠ some .completed := by
  have hmoved : (s.blockTaskNotCancelled t).lifecycleOf t =
      moved (· ≠ .cancelled) .blocked (s.lifecycleOf t) :=
    congrArg TaskView.lifecycle (moveTask_changes (· ≠ .cancelled) .blocked).2
  rw [hmoved]
  cases hl : s.lifecycleOf t with
  | none => simp [moved]
  | some l => cases l <;> simp [moved]

/-- The owner of an obligation that lost its footing is blocked, so it is not completed. -/
theorem Kept.block (h : Kept s) {owner : TaskId} (hbacked : Backed s')
    (hview : ∀ t, s'.lifecycleOf t = s.lifecycleOf t)
    (hcovered : ∀ t, t ≠ owner → Covered s t → Covered s' t) :
    Kept ((s'.blockTaskNotCancelled owner).clearPlanBlock owner) := by
  have hspares : Spares s' ((s'.blockTaskNotCancelled owner).clearPlanBlock owner) := rfl
  refine ⟨hbacked.of_spares hspares, fun t ht => ?_⟩
  have hne : t ≠ owner := by
    rintro rfl
    exact blockTaskNotCancelled_not_completed s' t ht
  have hsame : (s'.blockTaskNotCancelled owner).lifecycleOf t = s'.lifecycleOf t :=
    congrArg TaskView.lifecycle ((moveTask_changes _ _).1 t hne)
  have hl : s'.lifecycleOf t = some .completed := hsame.symm.trans ht
  rw [hview] at hl
  exact (hcovered t hne (h.completed t hl)).of_spares hspares

theorem Covered.updateObligation (hb : Backed s) {obligationId : String}
    {f : ObligationRow → ObligationRow} (hf : KeepsNames f) {owner : TaskId}
    (howner : s.taskIdForObligation obligationId = some owner) (hne : t ≠ owner)
    (h : Covered s t) : Covered (s.updateObligation obligationId f) t := by
  obtain ⟨o0, ho0, hid0, htask0⟩ := taskIdForObligation_some howner
  refine ⟨fun c hc htask => ?_, fun o ho htask => ?_⟩
  · obtain ⟨o, ho, hot, hoc⟩ := h.criteria c hc htask
    obtain ⟨o', ho', -, htask', hcriterion⟩ := updateObligation_names hf ho
    exact ⟨o', ho', htask'.trans hot, hcriterion.trans hoc⟩
  · rcases mem_updateObligation.mp ho with ⟨ho, -⟩ | ⟨o1, ho1, hid, rfl⟩
    · exact h.satisfied o ho htask
    · obtain rfl := obligation_unique hb ho1 ho0 (hid.trans hid0.symm)
      exact absurd ((hf o1).2.1.symm.trans htask |>.symm.trans htask0) hne

/-- The record goes stale, and its obligation is no longer satisfied. -/
theorem Backed.invalidate (h : Backed s) {e : EvidenceRow} (he : e ∈ s.evidence) :
    Backed (TaskStore.staleObligation { s with
      evidence := s.evidence.map fun row =>
        if row.evidenceId = e.evidenceId then { row with validity := .stale } else row }
      e.obligationId) := by
  have hrow : ∀ row ∈ s.evidence, ∀ row', row' = (if row.evidenceId = e.evidenceId then
      { row with validity := .stale } else row) → row'.obligationId = row.obligationId := by
    rintro row - row' rfl
    split <;> rfl
  refine ⟨?_, ?_, ?_, ?_, ?_⟩
  · rw [staleObligation, updateObligation_keys stale_names]
    exact h.keyed
  · change ((s.evidence.map fun row =>
      if row.evidenceId = e.evidenceId then { row with validity := .stale } else row).map
        EvidenceRow.evidenceId).Nodup
    rw [map_map]
    convert h.ids using 2
    funext row
    dsimp only [Function.comp_apply]
    split <;> rfl
  · intro row hmem
    obtain ⟨row0, hmem0, hrow0⟩ := mem_map.mp hmem
    obtain ⟨o, ho, hid⟩ := h.backed row0 hmem0
    obtain ⟨o', ho', hid', -⟩ := updateObligation_names (s := { s with
      evidence := s.evidence.map fun row =>
        if row.evidenceId = e.evidenceId then { row with validity := .stale } else row })
      stale_names ho
    exact ⟨o', ho', (hid'.trans hid).trans (hrow row0 hmem0 row hrow0.symm).symm⟩
  · intro o ho hsat
    rcases mem_updateObligation.mp ho with ⟨ho, -⟩ | ⟨o1, -, -, rfl⟩
    · obtain ⟨row, hmem, hid⟩ := h.supported o ho hsat
      exact ⟨_, mem_map_of_mem hmem, (hrow row hmem _ rfl).trans hid⟩
    · cases hsat
  · intro row hmem hstale o ho hid
    rcases mem_updateObligation.mp ho with ⟨ho, hne⟩ | ⟨o1, -, -, rfl⟩
    · obtain ⟨row0, hmem0, hrow0⟩ := mem_map.mp hmem
      have hid0 : o.obligationId = row0.obligationId :=
        hid.trans (hrow row0 hmem0 row hrow0.symm)
      by_cases heq : row0.evidenceId = e.evidenceId
      · obtain rfl := evidence_unique h hmem0 he heq
        exact absurd hid0 hne
      · rw [if_neg heq] at hrow0
        obtain rfl := hrow0
        exact h.stale row0 hmem0 hstale o ho hid
    · rfl

theorem invalidateEvidence_kept (h : Kept s) (evidenceId : String) :
    Within Refuses (fun r => Kept r.1) (s.invalidateEvidence evidenceId) := by
  apply Within.look
  intro e he
  have hmem : e ∈ s.evidence := mem_of_find?_eq_some he
  obtain rfl : e.evidenceId = evidenceId := by simpa using find?_some he
  apply Within.look
  intro owner howner
  apply Kept.block h (h.backed.invalidate hmem)
  · exact fun _ => rfl
  · intro t hne hcovered
    obtain ⟨hcriteria, hsatisfied⟩ :=
      Covered.updateObligation h.backed stale_names howner hne hcovered
    exact ⟨hcriteria, hsatisfied⟩

/-- An obligation of which the applicability is in doubt keeps its records. -/
theorem Backed.unresolve (h : Backed s) (obligationId : String) :
    Backed (s.unresolvedApplicability obligationId) := by
  refine ⟨?_, h.ids, ?_, ?_, ?_⟩
  · rw [unresolvedApplicability, updateObligation_keys unresolved_names]
    exact h.keyed
  · intro e he
    obtain ⟨o, ho, hid⟩ := h.backed e he
    obtain ⟨o', ho', hid', -⟩ := updateObligation_names unresolved_names ho
    exact ⟨o', ho', hid'.trans hid⟩
  · intro o ho hsat
    rcases mem_updateObligation.mp ho with ⟨ho, -⟩ | ⟨o1, ho1, -, rfl⟩
    · exact h.supported o ho hsat
    · exact h.supported o1 ho1 hsat
  · intro e he hstale o ho hid
    rcases mem_updateObligation.mp ho with ⟨ho, -⟩ | ⟨o1, -, -, rfl⟩
    · exact h.stale e he hstale o ho hid
    · rfl

theorem markApplicabilityUnresolved_kept (h : Kept s) (obligationId : String) :
    Within Refuses (fun r => Kept r.1) (s.markApplicabilityUnresolved obligationId) := by
  unfold markApplicabilityUnresolved
  split
  · exact h
  · apply Within.look
    intro owner howner
    apply Kept.block h
    · exact (h.backed.unresolve obligationId).of_spares rfl
    · exact fun _ => rfl
    · intro t hne hcovered
      have hsame := Covered.updateObligation h.backed unresolved_names howner hne hcovered
      exact hsame.of_spares rfl

/-- The record is not the last one of an obligation of a completed task. -/
def SupportLeft (s : TaskStore) (taskId : TaskId) (evidenceId : String) : Prop :=
  ∀ e ∈ s.evidence, e.evidenceId = evidenceId → e.taskId = taskId →
    ∀ o ∈ s.obligations, o.obligationId = e.obligationId →
      s.lifecycleOf o.taskId = some .completed →
        ∃ e' ∈ s.evidence, e'.obligationId = e.obligationId ∧ e'.evidenceId ≠ evidenceId

/-- Without one of the records, where its obligation has another one. -/
theorem Backed.delete (h : Backed s) {e : EvidenceRow} (he : e ∈ s.evidence)
    {p : EvidenceRow → Bool} (hp : ∀ row ∈ s.evidence, row.evidenceId ≠ e.evidenceId → p row)
    (hleft : ∃ row ∈ s.evidence.filter p, row.obligationId = e.obligationId) :
    Backed { s with evidence := s.evidence.filter p } := by
  refine ⟨h.keyed, ?_, ?_, ?_, ?_⟩
  · exact h.ids.sublist (filter_sublist.map _)
  · exact fun row hrow => h.backed row (mem_of_mem_filter hrow)
  · intro o ho hsat
    obtain ⟨row, hrow, hid⟩ := h.supported o ho hsat
    by_cases heq : row.evidenceId = e.evidenceId
    · obtain rfl := evidence_unique h hrow he heq
      obtain ⟨row', hrow', hid'⟩ := hleft
      exact ⟨row', hrow', hid'.trans hid⟩
    · exact ⟨row, mem_filter.mpr ⟨hrow, hp row hrow heq⟩, hid⟩
  · exact fun row hrow => h.stale row (mem_of_mem_filter hrow)

theorem Backed.reopen (h : Backed s) {e : EvidenceRow} (he : e ∈ s.evidence)
    {p : EvidenceRow → Bool} (hp : ∀ row ∈ s.evidence, row.evidenceId ≠ e.evidenceId → p row) :
    Backed (TaskStore.reopenObligation { s with evidence := s.evidence.filter p }
      e.obligationId) := by
  refine ⟨?_, ?_, ?_, ?_, ?_⟩
  · rw [reopenObligation, updateObligation_keys reopened_names]
    exact h.keyed
  · exact h.ids.sublist (filter_sublist.map _)
  · intro row hrow
    obtain ⟨o, ho, hid⟩ := h.backed row (mem_of_mem_filter hrow)
    obtain ⟨o', ho', hid', -⟩ := updateObligation_names
      (s := { s with evidence := s.evidence.filter p })
      reopened_names ho
    exact ⟨o', ho', hid'.trans hid⟩
  · intro o ho hsat
    rcases mem_updateObligation.mp ho with ⟨ho, hne⟩ | ⟨o1, -, -, rfl⟩
    · obtain ⟨row, hrow, hid⟩ := h.supported o ho hsat
      have hother : row.evidenceId ≠ e.evidenceId := by
        intro heq
        obtain rfl := evidence_unique h hrow he heq
        exact hne hid.symm
      exact ⟨row, mem_filter.mpr ⟨hrow, hp row hrow hother⟩, hid⟩
    · cases hsat
  · intro row hrow hstale o ho hid
    rcases mem_updateObligation.mp ho with ⟨ho, -⟩ | ⟨o1, ho1, -, rfl⟩
    · exact h.stale row (mem_of_mem_filter hrow) hstale o ho hid
    · exact h.stale row (mem_of_mem_filter hrow) hstale o1 ho1 hid

theorem deleteScopedRecord_kept (h : Kept s) {evidenceId : String}
    (hleft : SupportLeft s taskId evidenceId) :
    Within Refuses Kept (s.deleteScopedRecord taskId evidenceId) := by
  apply Within.look
  intro e he
  have hmem : e ∈ s.evidence := mem_of_find?_eq_some he
  obtain ⟨rfl, hetask⟩ : e.evidenceId = evidenceId ∧ e.taskId = taskId := by
    simpa using find?_some he
  have hstays : ∀ row ∈ s.evidence, row.evidenceId ≠ e.evidenceId →
      !(decide (row.evidenceId = e.evidenceId ∧ row.taskId = taskId)) := by
    intro row _ hne
    simp [hne]
  rw [ok_iff]
  split
  · next hnone =>
    refine ⟨h.backed.reopen hmem hstays, fun t ht => ?_⟩
    have hcovered := h.completed t ht
    refine ⟨fun c hc htask => ?_, fun o ho htask => ?_⟩
    · obtain ⟨o, ho, hot, hoc⟩ := hcovered.criteria c hc htask
      obtain ⟨o', ho', -, htask', hcriterion⟩ := updateObligation_names
        (s := { s with evidence := s.evidence.filter fun row =>
          !(decide (row.evidenceId = e.evidenceId ∧ row.taskId = taskId)) })
        reopened_names ho
      exact ⟨o', ho', htask'.trans hot, hcriterion.trans hoc⟩
    · rcases mem_updateObligation.mp ho with ⟨ho, -⟩ | ⟨o1, ho1, hid, rfl⟩
      · exact hcovered.satisfied o ho htask
      · have hdone : s.lifecycleOf o1.taskId = some .completed := by
          rw [show o1.taskId = t from htask]
          exact ht
        obtain ⟨row, hrow, hrowid, hother⟩ := hleft e hmem rfl hetask o1 ho1 hid hdone
        have hkept : row ∈ s.evidence.filter fun row =>
            !(decide (row.evidenceId = e.evidenceId ∧ row.taskId = taskId)) :=
          mem_filter.mpr ⟨hrow, hstays row hrow hother⟩
        exact absurd (by simpa using hrowid) (countP_eq_zero.mp hnone row hkept)
  · next hsome =>
    obtain ⟨row, hrow, hid⟩ := countP_pos_iff.mp (Nat.pos_of_ne_zero hsome)
    refine ⟨h.backed.delete hmem hstays ⟨row, hrow, of_decide_eq_true hid⟩, fun t ht => ?_⟩
    have hcovered := h.completed t ht
    exact ⟨hcovered.criteria, hcovered.satisfied⟩

/-! ## Calls that end tasks -/

/-- The guard of a completion. -/
structure Eligible (s : TaskStore) (taskId : TaskId) : Prop where
  live : ∃ l, s.lifecycleOf taskId = some l ∧ l.isTerminal = false
  counts : s.completionCounts taskId = (0, 0, 0)
  stale : s.staleEvidenceCount taskId = 0

/-- The claim that a completion makes of the state before it. -/
structure Justified (s : TaskStore) (taskId : TaskId) : Prop where
  criteria : ∀ c ∈ s.criteria, c.taskId = taskId →
    ∃ o ∈ s.obligations, o.taskId = taskId ∧ o.criterionId = c.criterionId
  satisfied : (∀ o ∈ s.obligations, o.taskId = taskId → o.execution = .satisfied) ∧
    ∀ row ∈ s.planObligations taskId, row.execution = .satisfied
  resolved : (∀ o ∈ s.obligations, o.taskId = taskId → o.applicability ≠ .unresolved) ∧
    ∀ row ∈ s.planObligations taskId, row.applicability ≠ .unresolved
  known : ∀ a ∈ s.attempts, a.taskId = taskId → a.state ≠ .unknown
  current : ∀ e ∈ s.evidence, ∀ o ∈ s.obligations, o.taskId = taskId →
    o.obligationId = e.obligationId → e.validity = .current

theorem missingObligations_eq_nil : s.missingObligations taskId = [] ↔
    ∀ c ∈ s.criteria, c.taskId = taskId →
      ∃ o ∈ s.obligations, o.taskId = taskId ∧ o.criterionId = c.criterionId := by
  simp only [missingObligations, obligationsOf, filter_eq_nil_iff, mem_map,
    mem_filter, decide_eq_true_eq, all_eq_true]
  constructor
  · intro h c hc htask
    by_contra hnone
    push Not at hnone
    exact h c.criterionId ⟨c, ⟨hc, htask⟩, rfl⟩ fun o ho => by simpa using hnone o ho.1 ho.2
  · rintro h _ ⟨c, ⟨hc, htask⟩, rfl⟩ hall
    obtain ⟨o, ho, hot, hoc⟩ := h c hc htask
    exact (by simpa using hall o ⟨ho, hot⟩ : o.criterionId ≠ c.criterionId) hoc

theorem Eligible.justified (h : Eligible s taskId) (hnone : s.missingObligations taskId = []) :
    Justified s taskId := by
  have hcounts := h.counts
  simp only [completionCounts, Prod.mk.injEq, Nat.add_eq_zero_iff, unresolvedObligations,
    unknownAttempts, countP_eq_zero, obligationsOf, mem_filter, decide_eq_true_eq,
    not_not, not_and] at hcounts
  obtain ⟨⟨hsat, hplan⟩, ⟨hres, hplanRes⟩, hknown⟩ := hcounts
  refine ⟨missingObligations_eq_nil.mp hnone, ⟨fun o ho ht => hsat o ⟨ho, ht⟩, hplan⟩,
    ⟨fun o ho ht => hres o ⟨ho, ht⟩, hplanRes⟩, hknown, ?_⟩
  intro e he o ho htask hid
  have hstale := h.stale
  rw [staleEvidenceCount, countP_eq_zero] at hstale
  cases hvalid : e.validity with
  | current => rfl
  | stale =>
    exfalso
    apply hstale e he
    simp only [obligationsOf, any_filter, decide_eq_true_eq, any_eq_true]
    exact ⟨hvalid, o, ho, by simp [htask, hid]⟩

theorem Justified.covered (h : Justified s taskId) : Covered s taskId :=
  ⟨h.criteria, fun o ho ht => ⟨h.satisfied.1 o ho ht, h.resolved.1 o ho ht⟩⟩

/-! ## Lifecycles -/

theorem settles_completed {v v' : TaskView} (h : Settles v v')
    (hdone : v'.lifecycle = some .completed) : v.lifecycle = some .completed := by
  cases h with
  | stays => exact hdone
  | blocks => simp at hdone
  | releases hblocked _ hrel =>
    obtain rfl | ⟨-, -, -, rfl⟩ := hrel.cases
    · exact hdone
    · simp at hdone

theorem settlesState_completed {v v' : TaskView} (h : SettlesState v v')
    (hdone : v'.lifecycle = some .completed) : v.lifecycle = some .completed :=
  settles_completed (v := v.settleHold) h hdone

theorem moved_completed {source : Lifecycle → Bool} {target : Lifecycle} {l : Option Lifecycle}
    (htarget : target ≠ .completed) (h : moved source target l = some .completed) :
    l = some .completed := by
  cases l with
  | none => cases h
  | some a =>
    by_cases ha : source a = true
    · simp [moved, ha, htarget] at h
    · simpa [moved, ha] using h

theorem step_completed {m : Move} {v v' : TaskView} (h : Step m v v')
    (hdone : v'.lifecycle = some .completed) :
    v.lifecycle = some .completed ∨ m = .finish .completed := by
  cases m with
  | stay =>
    rw [show v' = v from h] at hdone
    exact .inl hdone
  | create =>
    obtain ⟨-, rfl⟩ := h
    simp at hdone
  | publish question =>
    obtain ⟨q, -, -, rfl⟩ := h
    simp at hdone
  | fork question update =>
    obtain ⟨-, v1, q, rows, v2, -, ⟨-, -, rfl⟩, hset⟩ := h
    have := settlesState_completed hset hdone
    simp at this
  | answer questionId =>
    obtain ⟨-, q, -, -, rows, -, hset⟩ := h
    have := settles_completed hset hdone
    simp at this
  | steer => exact .inl (moved_completed (by decide) (settles_completed h.2 hdone))
  | finish lifecycle =>
    obtain ⟨-, -, rfl⟩ := h
    obtain rfl := Option.some.inj hdone
    exact .inr rfl
  | pause =>
    obtain ⟨-, rfl⟩ := h
    simp at hdone
  | wait =>
    obtain ⟨-, rfl⟩ := h
    simp at hdone
  | block =>
    obtain ⟨l, ⟨rfl, -⟩ | ⟨-, rfl⟩, rfl⟩ := h
    · exact .inl hdone
    · simp at hdone
  | unresolve =>
    obtain ⟨l, ⟨rfl, -⟩ | ⟨-, rfl⟩, rfl⟩ := h
    · exact .inl hdone
    · simp at hdone
  | select | change | revise | assess | hold =>
    obtain ⟨-, v1, _, _, _, _, hdrop, hset⟩ := settles_of_writesPlan (by trivial) h
    have hdone1 := settlesState_completed hset hdone
    cases hdrop with
    | keeps => exact .inl hdone1
    | drops => exact .inl (moved_completed (by decide) hdone1)

/-- No task completes. -/
def Completes (s s' : TaskStore) : Prop :=
  ∀ t, s'.lifecycleOf t = some .completed → s.lifecycleOf t = some .completed

/-- Calls other than the two that end a task complete none. -/
theorem perform_completes {op : Op} (hop : ∀ t, ¬ op.makes t (.finish .completed)) :
    Completes s (s.perform op).1 := by
  intro t hdone
  obtain ⟨m, hm, hstep⟩ := perform_moves s op t
  rcases step_completed hstep hdone with h | rfl
  · exact h
  · exact absurd hm (hop t)

theorem cancelTaskWithOrigin_completes (sessionId : SessionId) (intent : ℕ)
    (reason : Option String) (origin : String) :
    Within Refuses (fun r => Completes s r.1)
      (s.cancelTaskWithOrigin sessionId taskId intent reason origin) := by
  apply skip
  intro task
  apply skip
  intro _
  split
  · apply Within.bind (supersedeTerminalQuestions_changes _ _ _)
    intro s1 h1
    apply skip
    intro _ t hdone
    by_cases ht : t = taskId
    · subst ht
      exact (congrArg TaskView.lifecycle h1.2).symm.trans hdone
    · exact (congrArg TaskView.lifecycle (h1.1 t ht)).symm.trans hdone
  · apply Within.bind (endTask_changes _ _ _)
    intro s1 h1
    apply Within.bind (appendEvent_journals _ _ _ _ _ _)
    intro s2 h2
    apply skip
    intro _ t hdone
    have hview := (congrArg TaskView.lifecycle (h2.view t)).symm.trans hdone
    by_cases ht : t = taskId
    · subst ht
      rw [h1.2] at hview
      exact moved_completed (by decide) hview
    · exact (congrArg TaskView.lifecycle (h1.1 t ht)).symm.trans hview

/-- A call that answers found the task eligible, and one that does not completes nothing. -/
theorem completeIfEligible_spec (s : TaskStore) (sessionId : SessionId) (taskId : TaskId) :
    (Eligible s taskId ∧ (s.completeIfEligible sessionId taskId).2 = .ok () ∧
        ∀ t, t ≠ taskId → (s.completeIfEligible sessionId taskId).1.lifecycleOf t =
          s.lifecycleOf t) ∨
      ((∃ e, (s.completeIfEligible sessionId taskId).2 = .error e) ∧
        Completes s (s.completeIfEligible sessionId taskId).1) := by
  unfold completeIfEligible
  split
  · exact .inr ⟨⟨_, rfl⟩, fun _ h => h⟩
  · next task htask =>
    split
    · exact .inr ⟨⟨_, rfl⟩, fun _ h => h⟩
    · next hlive =>
      dsimp only
      split
      · right
        refine ⟨⟨_, rfl⟩, fun t hdone => ?_⟩
        have hflip : Changes taskId _ s (s.flipTask taskId .running .waiting) :=
          flipTask_changes .running .waiting
        by_cases ht : t = taskId
        · subst ht
          exact moved_completed (by decide) ((congrArg TaskView.lifecycle hflip.2).symm.trans hdone)
        · exact (congrArg TaskView.lifecycle (hflip.1 t ht)).symm.trans hdone
      · next hcounts =>
        have hchanges := completeTask_changes (s := s) sessionId htask (by simpa using hlive)
        cases hcomplete : s.completeTask sessionId taskId task with
        | error e => exact .inr ⟨⟨_, rfl⟩, fun _ h => h⟩
        | ok s' =>
          left
          rw [hcomplete] at hchanges
          refine ⟨⟨⟨_, view_lifecycle htask rfl, by simpa using hlive⟩, ?_, ?_⟩, rfl, fun t ht =>
            congrArg TaskView.lifecycle (hchanges.1 t ht)⟩
          · simp only [not_or, Nat.not_lt, Nat.le_zero] at hcounts
            exact Prod.ext hcounts.1 (Prod.ext hcounts.2.1 hcounts.2.2)
          · by_contra hstale
            unfold completeTask at hcomplete
            dsimp only at hcomplete
            rw [require_neg hstale, error_bind] at hcomplete
            cases hcomplete

theorem appendEvent_refuses (sessionId : SessionId) (task : Option TaskId)
    (aggregate : String × ℕ) (eventType : String) (delta : List (String × Value))
    (origin : String) :
    Within (· = .eventExists) (fun _ => True)
      (s.appendEvent sessionId task aggregate eventType delta origin) := by
  apply Within.bind (Within.require (by exact fun _ => rfl))
  intro _ _
  apply Within.bind (Within.require (by exact fun _ => rfl))
  exact fun _ _ => trivial

theorem completeIfEligible_of_eligible (sessionId : SessionId) (h : Eligible s taskId) :
    (s.completeIfEligible sessionId taskId).2 = .ok () ∨
      (s.completeIfEligible sessionId taskId).2 = .error .eventExists := by
  obtain ⟨⟨l, hl, hlive⟩, hcounts, hstale⟩ := h
  obtain ⟨task, htask, rfl⟩ := lifecycleOf_eq_some.mp hl
  have hcompletes : Within (· = .eventExists) (fun _ => True)
      (s.completeTask sessionId taskId task) := by
    apply Within.bind (Within.require fun hne => absurd hstale hne)
    intro _ _
    apply Within.bind (P := fun _ => True)
    · apply Within.foldlM (I := fun _ _ => True)
      · exact fun _ _ _ _ _ => appendEvent_refuses _ _ _ _ _ _
      · trivial
    · exact fun _ _ => appendEvent_refuses _ _ _ _ _ _
  unfold completeIfEligible
  rw [htask]
  dsimp only
  rw [if_neg (by simp [hlive]), hcounts]
  rw [if_neg (by decide)]
  cases hcomplete : s.completeTask sessionId taskId task with
  | ok s' => exact .inl rfl
  | error e => exact .inr (congrArg Except.error (hcompletes.of_error hcomplete))

/-! ## Every call -/

theorem createTask_kept (h : Kept s) (criterionId : ℕ → String) (commandId : String)
    (params : CreateParams) :
    Within Refuses (fun r => Kept r.1) (s.createTask taskId criterionId commandId params) := by
  apply (createTask_creates criterionId commandId params).imp
  rintro r (hsame | ⟨-, hcreates⟩)
  · rwa [hsame]
  obtain ⟨hothers, -, hcreated⟩ := hcreates.changes
  obtain ⟨-, hc, _, _, _, hrest⟩ := hcreates
  have ho : r.1.obligations = s.obligations := by rw [hrest]
  refine ⟨h.backed.of_tables ho (by rw [hrest]), fun t ht => ?_⟩
  have hne : t ≠ taskId := by
    rintro rfl
    have := (congrArg TaskView.lifecycle hcreated).symm.trans ht
    simp at this
  have hcovered := h.completed t ((congrArg TaskView.lifecycle (hothers t hne)).symm.trans ht)
  refine ⟨fun c hmem htask => ?_, ?_⟩
  · rw [ho]
    rcases hc c hmem with hmem | hmine
    · exact hcovered.criteria c hmem htask
    · exact absurd (htask.symm.trans hmine) hne
  · rw [ho]
    exact hcovered.satisfied

/-- No completion counts past a criterion without an obligation, and no deletion takes the last
record of an obligation of a completed task. -/
def Sound (s : TaskStore) : Op → Prop
  | .completeIfEligible _ taskId => Eligible s taskId → s.missingObligations taskId = []
  | .deleteScopedRecord taskId evidenceId => SupportLeft s taskId evidenceId
  | _ => True

theorem perform_kept (h : Kept s) {op : Op} (hsound : Sound s op) : Kept (s.perform op).1 := by
  cases op with
  | createTask => exact commit_within h (map_fst (createTask_kept h _ _ _))
  | materializeObligations => exact materializeObligations_kept h _ _
  | insertEvidence => exact commit_within h (insertEvidence_kept h _ _ _ _ _)
  | insertEvidenceForTask => exact commit_within h (insertEvidenceForTask_kept h _ _ _ _)
  | invalidateEvidence => exact commit_within h (map_fst (invalidateEvidence_kept h _))
  | markApplicabilityUnresolved =>
    exact commit_within h (map_fst (markApplicabilityUnresolved_kept h _))
  | deleteScopedRecord => exact commit_within h (deleteScopedRecord_kept h hsound)
  | cancelTask sessionId taskId intent reason origin =>
    apply h.of_spares (perform_spares rfl)
    have hbody : Within _ _
        ((s.cancelTaskWithOrigin sessionId taskId intent reason origin).map Prod.fst) :=
      map_fst (cancelTaskWithOrigin_completes sessionId intent reason origin)
    change Completes s (s.commit _).1
    generalize (s.cancelTaskWithOrigin sessionId taskId intent reason origin).map Prod.fst = body
      at hbody ⊢
    cases body with
    | ok s' => exact hbody
    | error e => exact fun _ ht => ht
  | completeIfEligible sessionId taskId =>
    have hspares : Spares s (s.perform (.completeIfEligible sessionId taskId)).1 :=
      perform_spares rfl
    rcases completeIfEligible_spec s sessionId taskId with ⟨heligible, -, hothers⟩ | ⟨-, hdone⟩
    · refine ⟨h.backed.of_spares hspares, fun t ht => ?_⟩
      by_cases heq : t = taskId
      · subst heq
        exact (heligible.justified (hsound heligible)).covered.of_spares hspares
      · exact (h.completed t ((hothers t heq).symm.trans ht)).of_spares hspares
    · exact h.of_spares hspares hdone
  | _ => exact h.of_spares (perform_spares rfl) (perform_completes fun _ => id)

end Rivect.TaskStore

namespace Rivect.Database

open Lib TaskStore

variable {codec : Codec} {db : Database} {calls : List Call} {tasks : List String} {call : Call}
  {taskId : TaskId}

/-! ## Runs -/

/-- The support that a completed task keeps. -/
structure Supported (s : TaskStore) (taskId : TaskId) : Prop where
  criteria : ∀ c ∈ s.criteria, c.taskId = taskId →
    ∃ o ∈ s.obligations, o.taskId = taskId ∧ o.criterionId = c.criterionId
  satisfied : ∀ o ∈ s.obligations, o.taskId = taskId → o.execution = .satisfied ∧
    ∃ e ∈ s.evidence, e.obligationId = o.obligationId ∧ e.validity = .current

/-- What completions owe along the calls. -/
structure CompletionLaw (codec : Codec) (tasks : List String) (calls : List Call) : Prop where
  closes : ∀ pre sessionId taskId post,
    calls = pre ++ .tables (.completeIfEligible sessionId taskId) :: post →
    ((after codec tasks pre).perform codec (.tables (.completeIfEligible sessionId taskId))).2 =
      .ok () →
    Justified (after codec tasks pre).tables taskId
  stays : ∀ pre, pre <+: calls → ∀ taskId,
    (after codec tasks pre).tables.lifecycleOf taskId = some .completed →
      Supported (after codec tasks pre).tables taskId

/-- Every call meets its condition in the state before it. -/
def SoundCalls (codec : Codec) (tasks : List String) (calls : List Call) : Prop :=
  ∀ pre op post, calls = pre ++ .tables op :: post → Sound (after codec tasks pre).tables op

theorem after_append (codec : Codec) (tasks : List String) (calls : List Call) (call : Call) :
    after codec tasks (calls ++ [call]) = ((after codec tasks calls).perform codec call).1 := by
  rw [after, List.foldl_append]
  rfl

theorem SoundCalls.init (h : SoundCalls codec tasks (calls ++ [call])) :
    SoundCalls codec tasks calls := by
  rintro pre op post rfl
  exact h pre op (post ++ [call]) (by simp)

theorem kept_fresh (tasks : List String) : Kept (fresh tasks).tables where
  backed := ⟨.nil, .nil, by simp [fresh, TaskStore.fresh], by simp [fresh, TaskStore.fresh],
    by simp [fresh, TaskStore.fresh]⟩
  completed t ht := by cases ht

theorem kept_after (h : SoundCalls codec tasks calls) : Kept (after codec tasks calls).tables := by
  induction calls using List.reverseRecOn with
  | nil => exact kept_fresh tasks
  | append_singleton calls call ih =>
    have hkept := ih h.init
    rw [after_append]
    cases call with
    | tables op => exact perform_kept hkept (h calls op [] rfl)
    | ledger op => exact hkept
    | forceCompaction sessionId taskId checkpointId =>
      obtain ⟨events, -, hframe⟩ := forceCompaction_frame codec
        (after codec tasks calls) sessionId taskId checkpointId
      change Kept ((after codec tasks calls).forceCompaction codec sessionId taskId
        checkpointId).1.tables
      rw [hframe]
      exact hkept.of_spares rfl fun _ ht => ht

theorem journaled_after (h : Generated calls) :
    Journaled h.ids [] (after codec tasks calls).tables := by
  induction calls using List.reverseRecOn with
  | nil => exact journaled_fresh tasks h
  | append_singleton calls call ih =>
    rw [after_append]
    exact (perform_appended codec h (ih h.init)).1

theorem supported_of_kept {s : TaskStore} (h : Kept s)
    (hdone : s.lifecycleOf taskId = some .completed) : Supported s taskId := by
  have hcovered := h.completed taskId hdone
  refine ⟨hcovered.criteria, fun o ho htask => ?_⟩
  obtain ⟨hsat, hres⟩ := hcovered.satisfied o ho htask
  obtain ⟨e, he, hid⟩ := h.backed.supported o ho hsat
  refine ⟨hsat, e, he, hid, ?_⟩
  cases hvalid : e.validity with
  | current => rfl
  | stale => exact absurd (h.backed.stale e he hvalid o ho hid.symm) hres

theorem completeIfEligible_answers {sessionId : SessionId}
    (h : Generated (calls ++ [.tables (.completeIfEligible sessionId taskId)]))
    (heligible : Eligible (after codec tasks calls).tables taskId) :
    ((after codec tasks calls).perform codec
      (.tables (.completeIfEligible sessionId taskId))).2 = .ok () := by
  have hjournaled : Journaled h.init.ids [] (after codec tasks calls).tables := journaled_after _
  have hfinds := (perform_appended codec h hjournaled).2.finds
    fun _ hledger => by cases hledger
  exact (completeIfEligible_of_eligible sessionId heligible).resolve_right hfinds

/-- A completion past a criterion without an obligation breaks the law. -/
theorem closes_sound {sessionId : SessionId}
    (h : Generated (calls ++ [.tables (.completeIfEligible sessionId taskId)]))
    (hlaw : CompletionLaw codec tasks (calls ++ [.tables (.completeIfEligible sessionId taskId)]))
    (heligible : Eligible (after codec tasks calls).tables taskId) :
    (after codec tasks calls).tables.missingObligations taskId = [] :=
  missingObligations_eq_nil.mpr
    (hlaw.closes calls sessionId taskId [] rfl (completeIfEligible_answers h heligible)).criteria

theorem deleteScopedRecord_leaves {s : TaskStore} {e : EvidenceRow} (he : e ∈ s.evidence)
    (htask : e.taskId = taskId) :
    ∃ s', s.perform (.deleteScopedRecord taskId e.evidenceId) = (s', .ok ()) ∧
      (∀ t, s'.lifecycleOf t = s.lifecycleOf t) ∧
      (∀ row ∈ s'.evidence, row ∈ s.evidence ∧
        ¬ (row.evidenceId = e.evidenceId ∧ row.taskId = taskId)) ∧
      ∀ o ∈ s.obligations, ∃ o' ∈ s'.obligations, o'.obligationId = o.obligationId ∧
        o'.taskId = o.taskId := by
  obtain ⟨row, hrow⟩ : ∃ row, s.evidence.find?
      (fun row => row.evidenceId = e.evidenceId ∧ row.taskId = taskId) = some row := by
    apply Option.isSome_iff_exists.mp
    exact List.find?_isSome.mpr ⟨e, he, by simp [htask]⟩
  have hgone : ∀ r ∈ s.evidence.filter fun r =>
      !(decide (r.evidenceId = e.evidenceId ∧ r.taskId = taskId)),
      r ∈ s.evidence ∧ ¬ (r.evidenceId = e.evidenceId ∧ r.taskId = taskId) := by
    intro r hr
    obtain ⟨hmem, hp⟩ := List.mem_filter.mp hr
    exact ⟨hmem, fun hr => by simp [hr] at hp⟩
  simp only [TaskStore.perform, TaskStore.deleteScopedRecord, hrow, found_some, ok_bind,
    TaskStore.commit]
  refine ⟨_, rfl, ?_⟩
  split
  · refine ⟨fun _ => rfl, hgone, fun o ho => ?_⟩
    obtain ⟨o', ho', hid, ht, -⟩ := updateObligation_names
      (s := { s with evidence := s.evidence.filter fun r =>
        !(decide (r.evidenceId = e.evidenceId ∧ r.taskId = taskId)) })
      reopened_names ho
    exact ⟨o', ho', hid, ht⟩
  · exact ⟨fun _ => rfl, hgone, fun o ho => ⟨o, ho, rfl, rfl⟩⟩

theorem stays_sound {evidenceId : String}
    (hkept : Kept (after codec tasks calls).tables)
    (hlaw : CompletionLaw codec tasks (calls ++ [.tables (.deleteScopedRecord taskId evidenceId)])) :
    SupportLeft (after codec tasks calls).tables taskId evidenceId := by
  rintro e he rfl htask o ho hid hdone
  obtain ⟨s', hs', hlifecycle, hevidence, hobligations⟩ := deleteScopedRecord_leaves he htask
  have hafter : (after codec tasks
      (calls ++ [.tables (.deleteScopedRecord taskId e.evidenceId)])).tables = s' := by
    rw [after_append]
    exact congrArg Prod.fst hs'
  have hsupported : Supported s' o.taskId := by
    rw [← hafter]
    apply hlaw.stays _ (List.prefix_refl _)
    rw [hafter, hlifecycle]
    exact hdone
  obtain ⟨o', ho', hid', htask'⟩ := hobligations o ho
  obtain ⟨-, row, hrow, hrowid, -⟩ := hsupported.satisfied o' ho' htask'
  obtain ⟨hmem, hother⟩ := hevidence row hrow
  refine ⟨row, hmem, hrowid.trans (hid'.trans hid), fun hsame => ?_⟩
  obtain rfl := evidence_unique hkept.backed hmem he hsame
  exact hother ⟨rfl, htask⟩

theorem CompletionLaw.init (h : CompletionLaw codec tasks (calls ++ [call])) :
    CompletionLaw codec tasks calls where
  closes pre sessionId taskId post hcalls :=
    h.closes pre sessionId taskId (post ++ [call]) (by simp [hcalls])
  stays pre hpre := h.stays pre (hpre.trans (List.prefix_append _ _))

theorem SoundCalls.of_law (hids : Generated calls) (h : CompletionLaw codec tasks calls) :
    SoundCalls codec tasks calls := by
  induction calls using List.reverseRecOn with
  | nil =>
    intro pre op post hcalls
    simp at hcalls
  | append_singleton calls call ih =>
    have hinit := ih hids.init h.init
    intro pre op post hcalls
    rcases List.eq_nil_or_concat post with rfl | ⟨post, last, rfl⟩
    · obtain ⟨rfl, rfl⟩ := List.append_singleton_inj.mp hcalls
      cases op with
      | completeIfEligible sessionId taskId => exact closes_sound hids h
      | deleteScopedRecord taskId evidenceId => exact stays_sound (kept_after hinit) h
      | _ => trivial
    · rw [List.concat_eq_append, ← List.cons_append, ← List.append_assoc] at hcalls
      obtain ⟨rfl, -⟩ := List.append_singleton_inj.mp hcalls
      exact hinit pre op post rfl

/-- A completion is justified and stays so just when no call closes a task with a criterion that
has no obligation or takes the last record of an obligation of a completed task. -/
theorem completion_law (hids : Generated calls) :
    CompletionLaw codec tasks calls ↔ SoundCalls codec tasks calls := by
  refine ⟨SoundCalls.of_law hids, fun h => ⟨?_, ?_⟩⟩
  · rintro pre sessionId taskId post rfl hok
    have hsound := h pre (.completeIfEligible sessionId taskId) post rfl
    have hresult : ((after codec tasks pre).tables.completeIfEligible sessionId taskId).2 =
        .ok () := hok
    obtain ⟨heligible, -, -⟩ | ⟨⟨e, herr⟩, -⟩ :=
      completeIfEligible_spec (after codec tasks pre).tables sessionId taskId
    · exact heligible.justified (hsound heligible)
    · rw [hresult] at herr
      cases herr
  · rintro pre ⟨post, rfl⟩ taskId hdone
    have hpre : SoundCalls codec tasks pre := by
      rintro pre' op post' rfl
      exact h pre' op (post' ++ post) (by simp)
    exact supported_of_kept (kept_after hpre) hdone

/-! ## A task that completes without its criterion -/

/-- A task with one criterion, of which no obligation was made. -/
def bare : List Call :=
  [.tables (.createTask ⟨"task"⟩ (fun _ => "criterion") "create"
    ⟨⟨"session"⟩, "operator", "goal", ["done"], []⟩)]

def closing : Call := .tables (.completeIfEligible ⟨"session"⟩ ⟨"task"⟩)

theorem bare_completes : ¬ CompletionLaw hexCodec [] (bare ++ [closing]) := by
  intro h
  have hanswer : ((after hexCodec [] bare).perform hexCodec closing).2 = .ok () := by
    decide
  obtain ⟨o, ho, -⟩ := (h.closes bare ⟨"session"⟩ ⟨"task"⟩ [] rfl hanswer).criteria
    ⟨"criterion", ⟨"task"⟩, 0, "done"⟩ (List.mem_of_getLast? rfl) rfl
  revert ho
  exact List.not_mem_nil

/-- The same task, with its obligation made and satisfied first. -/
def backed : List Call :=
  bare ++ [.tables (.materializeObligations ⟨"task"⟩ fun _ => "obligation"),
    .tables (.insertEvidence "evidence" ⟨"task"⟩ 0 "tests" "green" "digest"), closing]

theorem completion_law_backed :
    Generated backed ∧
      (CompletionLaw hexCodec [] backed ↔ SoundCalls hexCodec [] backed) := by
  have hids : Generated backed := ⟨by decide, by decide, by decide, by decide⟩
  exact ⟨hids, completion_law hids⟩

end Rivect.Database
