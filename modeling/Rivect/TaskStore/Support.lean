import Rivect.TaskStore.Completion
import Rivect.TaskStore.Waiting

/-! # Current evidence

An insertion, an invalidation and a materialisation keep every satisfied obligation backed by
current evidence. A deletion counts the records that remain, current or not.
-/

namespace Rivect.TaskStore

open Lib List

variable {s s' : TaskStore} {taskId : TaskId} {op : Op}

/-- Every satisfied obligation has current evidence. -/
def CurrentlyBacked (s : TaskStore) : Prop :=
  ∀ o ∈ s.obligations, o.execution = .satisfied →
    ∃ e ∈ s.evidence, e.obligationId = o.obligationId ∧ e.validity = .current

/-- The deletion takes a record of a satisfied obligation of which stale records alone remain. -/
def Unbacks (s : TaskStore) : Op → Prop
  | .deleteScopedRecord taskId evidenceId =>
    ∃ e ∈ s.evidence, e.evidenceId = evidenceId ∧ e.taskId = taskId ∧
      (∃ o ∈ s.obligations, o.obligationId = e.obligationId ∧ o.execution = .satisfied) ∧
      (∃ row ∈ s.evidence, row ≠ e ∧ row.obligationId = e.obligationId) ∧
      ∀ row ∈ s.evidence, row ≠ e → row.obligationId = e.obligationId → row.validity = .stale
  | _ => False

def DistinctRecords (s : TaskStore) : Prop := (s.evidence.map EvidenceRow.evidenceId).Nodup

/-- The two facts that a step carries. -/
structure Grounded (s : TaskStore) : Prop where
  records : DistinctRecords s
  current : CurrentlyBacked s

theorem Grounded.of_tables (h : Grounded s) (ho : s'.obligations = s.obligations)
    (he : s'.evidence = s.evidence) : Grounded s' := by
  refine ⟨?_, ?_⟩
  · rw [DistinctRecords, he]
    exact h.records
  · rw [CurrentlyBacked, ho, he]
    exact h.current

theorem Grounded.of_spares (h : Grounded s) (hs : Spares s s') : Grounded s' := by
  obtain ⟨-, hrest⟩ := Prod.mk.inj hs
  obtain ⟨ho, he⟩ := Prod.mk.inj hrest
  exact h.of_tables ho he

/-! ## What keeps the support -/

section

variable (h : Grounded s)
include h

theorem createTask_grounded (criterionId : ℕ → String) (commandId : String)
    (params : CreateParams) :
    Within Refuses (fun r => Grounded r.1) (s.createTask taskId criterionId commandId params) := by
  apply (createTask_creates criterionId commandId params).imp
  rintro r (hsame | ⟨-, -, -, _, _, _, hcreated⟩)
  · rwa [hsame]
  · exact h.of_tables (by rw [hcreated]) (by rw [hcreated])

theorem insertObligation_grounded (obligationId criterionId : String) :
    Within Refuses Grounded (s.insertObligation obligationId taskId criterionId) := by
  apply Within.guard
  intro _
  refine ⟨h.records, fun o ho hsatisfied => ?_⟩
  rcases mem_append.mp ho with ho | ho
  · exact h.current o ho hsatisfied
  · obtain rfl := mem_singleton.mp ho
    cases hsatisfied

theorem insertObligations_grounded (obligationId : ℕ → String)
    (missing : List (String × ℕ)) :
    Grounded (insertObligations taskId obligationId s missing).1 := by
  induction missing generalizing s with
  | nil => exact h
  | cons c rest ih =>
    unfold insertObligations
    split
    · next s' hok => exact ih ((insertObligation_grounded h _ _).of_ok hok)
    · exact h

theorem recordEvidence_grounded {row : EvidenceRow}
    (hcurrent : row.validity = .current) :
    Within Refuses (fun s' => Grounded (s'.satisfyObligation row.obligationId))
      (s.insertEvidenceRow row) := by
  apply Within.guard
  intro hfree
  refine ⟨?_, fun o ho hsatisfied => ?_⟩
  · change ((s.evidence ++ [row]).map EvidenceRow.evidenceId).Nodup
    rw [map_append]
    refine nodup_append.mpr ⟨h.records, nodup_singleton _, ?_⟩
    intro a ha b hb
    obtain ⟨e, he, rfl⟩ := mem_map.mp ha
    obtain rfl := mem_singleton.mp hb
    exact hfree e he
  · rcases mem_updateObligation.mp ho with ⟨ho, -⟩ | ⟨o1, -, hid, rfl⟩
    · obtain ⟨e, he, hbacks⟩ := h.current o ho hsatisfied
      exact ⟨e, mem_append_left _ he, hbacks⟩
    · exact ⟨row, mem_append_right _ (mem_singleton.mpr rfl), hid.symm, hcurrent⟩

theorem insertEvidence_grounded (evidenceId : String) (obligationIndex : ℕ)
    (scope observation digest : String) :
    Within Refuses Grounded
      (s.insertEvidence evidenceId taskId obligationIndex scope observation digest) := by
  apply Within.look
  intro o _
  apply Within.bind (recordEvidence_grounded h (by rfl))
  exact fun _ hs' => hs'

theorem insertEvidenceForTask_grounded (evidenceId : ℕ → String)
    (scope observation digest : String) :
    Within Refuses Grounded
      (s.insertEvidenceForTask evidenceId taskId scope observation digest) := by
  apply Within.foldlM (I := fun _ => Grounded)
  · rintro seen ⟨id, k⟩ s' - hs'
    apply Within.bind (recordEvidence_grounded hs' (by rfl))
    exact fun _ hs'' => hs''
  · exact h

/-- The record that goes stale takes its obligation along. -/
theorem invalidateEvidence_grounded (evidenceId : String) :
    Within Refuses (fun r => Grounded r.1) (s.invalidateEvidence evidenceId) := by
  apply Within.look
  intro e he
  have hmem : e ∈ s.evidence := mem_of_find?_eq_some he
  obtain rfl : e.evidenceId = evidenceId := by simpa using find?_some he
  apply Within.look
  intro owner _
  refine ⟨?_, fun o ho hsatisfied => ?_⟩
  · have hids : (s.evidence.map fun row =>
        if row.evidenceId = e.evidenceId then { row with validity := .stale } else row).map
          EvidenceRow.evidenceId = s.evidence.map EvidenceRow.evidenceId := by
      rw [map_map]
      refine map_congr_left fun row _ => ?_
      dsimp only [Function.comp_apply]
      split <;> rfl
    exact (congrArg Nodup hids).mpr h.records
  · rcases mem_updateObligation.mp ho with ⟨ho, hother⟩ | ⟨o1, -, -, rfl⟩
    · obtain ⟨row, hrow, hid, hcurrent⟩ := h.current o ho hsatisfied
      have hkept : row.evidenceId ≠ e.evidenceId := by
        intro hsame
        obtain rfl := inj_on_of_nodup_map h.records hrow hmem hsame
        exact hother hid.symm
      refine ⟨row, mem_map.mpr ⟨row, hrow, ?_⟩, hid, hcurrent⟩
      exact if_neg hkept
    · cases hsatisfied

theorem markApplicabilityUnresolved_grounded (obligationId : String) :
    Within Refuses (fun r => Grounded r.1) (s.markApplicabilityUnresolved obligationId) := by
  unfold markApplicabilityUnresolved
  split
  · exact h
  · apply Within.look
    intro owner _
    refine ⟨h.records, fun o ho hsatisfied => ?_⟩
    rcases mem_updateObligation.mp ho with ⟨ho, -⟩ | ⟨o1, ho1, -, rfl⟩
    · exact h.current o ho hsatisfied
    · exact h.current o1 ho1 hsatisfied

end

def Op.deletesRecord : Op → Bool
  | .deleteScopedRecord .. => true
  | _ => false

theorem perform_grounded (h : Grounded s) (hop : op.deletesRecord = false) :
    Grounded (s.perform op).1 := by
  cases op with
  | createTask => exact commit_within h (Within.map_fst (createTask_grounded h _ _ _))
  | materializeObligations => exact insertObligations_grounded h _ _
  | insertEvidence => exact commit_within h (insertEvidence_grounded h _ _ _ _ _)
  | insertEvidenceForTask => exact commit_within h (insertEvidenceForTask_grounded h _ _ _ _)
  | invalidateEvidence =>
    exact commit_within h (Within.map_fst (invalidateEvidence_grounded h _))
  | markApplicabilityUnresolved =>
    exact commit_within h (Within.map_fst (markApplicabilityUnresolved_grounded h _))
  | deleteScopedRecord taskId evidenceId => cases hop
  | _ => exact h.of_spares (perform_spares rfl)

/-! ## A deletion -/

variable {e row : EvidenceRow}

theorem mem_remaining (h : DistinctRecords s) (he : e ∈ s.evidence) :
    row ∈ s.evidence.filter (fun row =>
        !(decide (row.evidenceId = e.evidenceId ∧ row.taskId = e.taskId))) ↔
      row ∈ s.evidence ∧ row ≠ e := by
  rw [mem_filter]
  refine and_congr_right fun hrow => ?_
  rw [Bool.not_eq_true', decide_eq_false_iff_not]
  refine not_congr ⟨fun h' => inj_on_of_nodup_map h hrow he h'.1, ?_⟩
  rintro rfl
  exact ⟨rfl, rfl⟩

theorem delete_found {evidenceId : String} (h : DistinctRecords s)
    (hfind : s.evidence.find? (fun e => e.evidenceId = evidenceId ∧ e.taskId = taskId) = some e) :
    e ∈ s.evidence ∧ e.evidenceId = evidenceId ∧ e.taskId = taskId ∧
      ∃ s', s.perform (.deleteScopedRecord taskId evidenceId) = (s', .ok ()) ∧
        (∀ row, row ∈ s'.evidence ↔ row ∈ s.evidence ∧ row ≠ e) ∧
        s'.evidence.Sublist s.evidence ∧
        s'.obligations = if ∃ row ∈ s.evidence, row ≠ e ∧ row.obligationId = e.obligationId then
          s.obligations else (s.reopenObligation e.obligationId).obligations := by
  have he : e ∈ s.evidence := mem_of_find?_eq_some hfind
  obtain ⟨rfl, rfl⟩ : e.evidenceId = evidenceId ∧ e.taskId = taskId := by
    simpa using find?_some hfind
  refine ⟨he, rfl, rfl, ?_⟩
  simp only [perform, deleteScopedRecord, hfind, found_some, ok_bind, commit]
  refine ⟨_, rfl, ?_⟩
  have hsupport : (s.evidence.filter fun row =>
      !(decide (row.evidenceId = e.evidenceId ∧ row.taskId = e.taskId))).countP
        (fun row => decide (row.obligationId = e.obligationId)) = 0 ↔
      ¬ ∃ row ∈ s.evidence, row ≠ e ∧ row.obligationId = e.obligationId := by
    rw [countP_eq_zero]
    constructor
    · rintro hnone ⟨row, hrow, hother, hid⟩
      exact hnone row ((mem_remaining h he).mpr ⟨hrow, hother⟩) (decide_eq_true hid)
    · intro hnone row hrow hid
      obtain ⟨hmem, hother⟩ := (mem_remaining h he).mp hrow
      exact hnone ⟨row, hmem, hother, of_decide_eq_true hid⟩
  by_cases hleft : ∃ row ∈ s.evidence, row ≠ e ∧ row.obligationId = e.obligationId
  · rw [if_neg fun hzero => hsupport.mp hzero hleft, if_pos hleft]
    exact ⟨fun row => mem_remaining h he, filter_sublist, rfl⟩
  · rw [if_pos (hsupport.mpr hleft), if_neg hleft]
    exact ⟨fun row => mem_remaining h he, filter_sublist, rfl⟩

theorem perform_distinct (h : Grounded s) (op : Op) : DistinctRecords (s.perform op).1 := by
  cases op with
  | deleteScopedRecord taskId evidenceId =>
    cases hfind : s.evidence.find? (fun e => e.evidenceId = evidenceId ∧ e.taskId = taskId) with
    | none =>
      simp only [perform, deleteScopedRecord, hfind, found_none, error_bind, commit]
      exact h.records
    | some e =>
      obtain ⟨-, -, -, s', hs', -, hsub, -⟩ := delete_found h.records hfind
      rw [hs']
      exact Nodup.sublist (hsub.map _) h.records
  | _ => exact (perform_grounded h rfl).records

theorem unbacks_iff {evidenceId : String} (h : DistinctRecords s)
    (hfind : s.evidence.find? (fun e => e.evidenceId = evidenceId ∧ e.taskId = taskId) = some e) :
    Unbacks s (.deleteScopedRecord taskId evidenceId) ↔
      (∃ o ∈ s.obligations, o.obligationId = e.obligationId ∧ o.execution = .satisfied) ∧
        (∃ row ∈ s.evidence, row ≠ e ∧ row.obligationId = e.obligationId) ∧
        ∀ row ∈ s.evidence, row ≠ e → row.obligationId = e.obligationId →
          row.validity = .stale := by
  obtain ⟨he, hid, htask, -⟩ := delete_found h hfind
  constructor
  · rintro ⟨e', he', hid', -, hunbacks⟩
    obtain rfl := inj_on_of_nodup_map h he' he (hid'.trans hid.symm)
    exact hunbacks
  · exact fun hunbacks => ⟨e, he, hid, htask, hunbacks⟩

theorem stale_of_not_current {validity : EvidenceValidity} (h : validity ≠ .current) :
    validity = .stale := by
  cases validity with
  | current => exact absurd rfl h
  | stale => rfl

/-- A deletion keeps the support exactly where it does not leave stale records alone. -/
theorem delete_backed_iff (h : Grounded s) {evidenceId : String}
    (hfind : s.evidence.find? (fun e => e.evidenceId = evidenceId ∧ e.taskId = taskId) = some e) :
    CurrentlyBacked (s.perform (.deleteScopedRecord taskId evidenceId)).1 ↔
      ¬ Unbacks s (.deleteScopedRecord taskId evidenceId) := by
  rw [unbacks_iff h.records hfind]
  obtain ⟨he, -, -, s', hs', hrows, -, hobligations⟩ := delete_found h.records hfind
  rw [hs']
  constructor
  · rintro hbacked ⟨⟨o, ho, hid, hsatisfied⟩, hleft, hstale⟩
    rw [if_pos hleft] at hobligations
    obtain ⟨row, hrow, hrowid, hcurrent⟩ := hbacked o (hobligations ▸ ho) hsatisfied
    obtain ⟨hmem, hother⟩ := (hrows row).mp hrow
    have := hstale row hmem hother (hrowid.trans hid)
    rw [hcurrent] at this
    cases this
  · intro hkeeps o ho hsatisfied
    have hold : o ∈ s.obligations ∧ (o.obligationId = e.obligationId →
        ∃ row ∈ s.evidence, row ≠ e ∧ row.obligationId = e.obligationId) := by
      split at hobligations
      · next hleft => exact ⟨hobligations ▸ ho, fun _ => hleft⟩
      · rw [hobligations] at ho
        rcases mem_updateObligation.mp ho with ⟨ho, hother⟩ | ⟨o1, -, -, rfl⟩
        · exact ⟨ho, fun hid => absurd hid hother⟩
        · cases hsatisfied
    obtain ⟨ho, hleft⟩ := hold
    obtain ⟨row, hrow, hid, hcurrent⟩ := h.current o ho hsatisfied
    by_cases hsame : row = e
    · subst hsame
      by_contra hnone
      push Not at hnone
      refine hkeeps ⟨⟨o, ho, hid.symm, hsatisfied⟩, hleft hid.symm, fun other hother hne hoid => ?_⟩
      exact stale_of_not_current (hnone other ((hrows other).mpr ⟨hother, hne⟩) (hoid.trans hid))
    · exact ⟨row, (hrows row).mpr ⟨hrow, hsame⟩, hid, hcurrent⟩

theorem currentlyBacked_iff (h : Grounded s) (op : Op) :
    CurrentlyBacked (s.perform op).1 ↔ ¬ Unbacks s op := by
  cases op with
  | deleteScopedRecord taskId evidenceId =>
    cases hfind : s.evidence.find? (fun e => e.evidenceId = evidenceId ∧ e.taskId = taskId) with
    | none =>
      refine iff_of_true ?_ ?_
      · simp only [perform, deleteScopedRecord, hfind, found_none, error_bind, commit]
        exact h.current
      · rintro ⟨e, he, hid, htask, -⟩
        have := find?_eq_none.mp hfind e he
        simp [hid, htask] at this
    | some e => exact delete_backed_iff h hfind
  | _ => exact iff_of_true (perform_grounded h rfl).current id

/-! ## Whole runs -/

/-- In every state of a run the satisfied obligations have current evidence exactly if no call is
a deletion that leaves a satisfied obligation stale records alone. -/
theorem satisfied_has_current_evidence (ops : List Op) :
    (∀ pre, pre <+: ops → CurrentlyBacked (after pre)) ↔
      AtEveryCall (fun s op => ¬ Unbacks s op) ops := by
  refine Run.states_iff (I := DistinctRecords) (P := CurrentlyBacked)
    (C := fun s op => ¬ Unbacks s op) ?_ ?_ ?_ ?_ ops
  · exact nodup_nil
  · exact fun s op hrecords hcurrent => perform_distinct ⟨hrecords, hcurrent⟩ op
  · exact fun o ho => absurd ho not_mem_nil
  · exact fun s op hrecords hcurrent => currentlyBacked_iff ⟨hrecords, hcurrent⟩ op

/-- The first record goes stale, the second satisfies the obligation again and is deleted: the
first one remains and counts as support. -/
theorem not_satisfied_has_current_evidence :
    ¬ ∀ pre, pre <+: [createdWithCriterion,
        .materializeObligations ⟨"task"⟩ fun _ => "obligation",
        .insertEvidence "first" ⟨"task"⟩ 0 "tests" "green" "digest",
        .invalidateEvidence "first",
        .insertEvidence "second" ⟨"task"⟩ 0 "tests" "green" "digest",
        .deleteScopedRecord ⟨"task"⟩ "second"] → CurrentlyBacked (after pre) := by
  intro h
  obtain ⟨e, he, -, hcurrent⟩ := h _ (prefix_refl _)
    ⟨"obligation", ⟨"task"⟩, "criterion", .unresolved, .satisfied⟩ (mem_singleton.mpr rfl) rfl
  obtain rfl := mem_singleton.mp he
  cases hcurrent

end Rivect.TaskStore
