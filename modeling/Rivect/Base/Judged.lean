import Mathlib.Data.List.Pairwise
import Rivect.Base.Steps

/-! # Learned deltas across bases

Recording, judging, activating, withdrawing and rebinding write the same rows. Through any run of
the ledger a delta becomes active only as the corpus judged it, a withdrawn one stays withdrawn,
the definition keeps to its bound, and a cutover moves each binding at most once.
-/

namespace Rivect.Base

open Lib Learning Succession List

variable {ledger ledger' : Ledger} {tables tables' : LearningTables} {op : LedgerOp}

/-! ## One row of the pass -/

/-- A row whose subject a rule names moves to that rule's target, once. -/
theorem moveRecord_rebound {rules : IdentityRules} {record : DeltaRecord}
    {binding : StoredBinding} {moved : String} (hbinding : storedBinding record = some binding)
    (hplace : rules.place binding.kind binding.subject = .rebound moved) :
    storedBinding (moveRecord rules record) = some { binding with subject := moved } ∧
      (moveRecord rules record).version = record.version + 1 := by
  have hne := rules.place_ne hplace
  have htarget : target rules binding = some moved := by simp [target, hplace, hne]
  unfold moveRecord
  rw [hbinding]
  dsimp only
  rw [htarget]
  unfold storedBinding at hbinding
  split at hbinding
  · rename_i hpayload hcondition
    cases hbinding
    simp [reboundRow, hcondition, storedBinding, hpayload]
  · cases hbinding
  · rename_i hpayload
    cases hbinding
    simp [reboundRow, hpayload, storedBinding]

theorem moveRecord_unassigned {rules : IdentityRules} {record : DeltaRecord}
    (h : ∀ binding ∈ storedBinding record,
      rules.place binding.kind binding.subject = .unassigned) :
    moveRecord rules record = record := by
  unfold moveRecord
  split
  · rename_i binding hbinding
    simp [target, h binding hbinding]
  · rfl

/-! ## Conclusions on one capability -/

/-- Two active deltas decide one capability differently for a request that meets both. -/
def Disputes (first second : DeltaRecord) : Prop :=
  first.state = .active ∧ second.state = .active ∧
    ∃ capability effect effect', first.change.payload = .applicability capability effect ∧
      second.change.payload = .applicability capability effect' ∧ effect ≠ effect' ∧
      ∃ facts, first.change.applies facts = true ∧ second.change.applies facts = true

theorem canBothApply_of_applies {first second : DeltaChange} {facts : ConditionFacts}
    (hfirst : first.applies facts = true) (hsecond : second.applies facts = true) :
    canBothApply first.condition second.condition = true := by
  unfold DeltaChange.applies at hfirst hsecond
  unfold canBothApply
  split
  · rename_i k k' hcond hcond'
    rw [hcond] at hfirst
    rw [hcond'] at hsecond
    simp only [Option.all_some, ConditionFact.holds, decide_eq_true_eq] at hfirst hsecond ⊢
    exact Option.some_inj.mp (hfirst.symm.trans hsecond)
  · rfl

/-- The conclusion that a row reaches after the pass. -/
def conclusionOf (rules : IdentityRules) (record : DeltaRecord) : Option Conclusion :=
  (storedBinding record).bind fun binding => conclusion (binding, target rules binding)

theorem conclusions_eq (rules : IdentityRules) (tables : LearningTables) :
    (placeAll rules tables).filterMap conclusion =
      tables.deltas.filterMap (conclusionOf rules) := by
  unfold placeAll conclusionOf
  rw [filterMap_map, filterMap_filterMap]
  rfl

/-- An active applicability row reaches the conclusion that it holds after its move. -/
theorem conclusionOf_moved {rules : IdentityRules} {record : DeltaRecord} {capability : String}
    {effect : PredicateEffect} (hactive : record.state = .active)
    (hpayload : (moveRecord rules record).change.payload = .applicability capability effect) :
    ∃ moved, conclusionOf rules record = some ⟨⟨.action, capability⟩, effect, moved,
        (moveRecord rules record).change.condition⟩ ∧
      (moved = false → moveRecord rules record = record) := by
  cases hrecord : record.change.payload with
  | instruction text =>
    have hnone : (moveRecord rules record).change.payload = .instruction text := by
      unfold moveRecord
      split
      · rename_i binding hbinding
        split
        · unfold storedBinding at hbinding
          split at hbinding
          · rename_i hcondition
            cases hbinding
            simp [reboundRow, hcondition, hrecord]
          · cases hbinding
          · rename_i happl
            rw [hrecord] at happl
            cases happl
        · exact hrecord
      · exact hrecord
    rw [hnone] at hpayload
    cases hpayload
  | applicability held effect' =>
    have hbinding : storedBinding record = some ⟨record.deltaId, .action, held, record.state,
        record.change.condition, some effect'⟩ := by
      simp [storedBinding, hrecord]
    cases htarget : target rules ⟨record.deltaId, .action, held, record.state,
        record.change.condition, some effect'⟩ with
    | none =>
      have hmove : moveRecord rules record = record := by
        simp [moveRecord, hbinding, htarget]
      rw [hmove, hrecord] at hpayload
      cases hpayload
      refine ⟨false, ?_, fun _ => hmove⟩
      simp only [conclusionOf, hbinding, Option.bind_some, htarget]
      simp [conclusion, hactive, hmove]
    | some moved =>
      have hmove : moveRecord rules record = { record with
          change := ⟨.applicability moved effect', record.change.condition⟩
          version := record.version + 1 } := by
        simp [moveRecord, hbinding, htarget, reboundRow, hrecord]
      rw [hmove] at hpayload
      cases hpayload
      refine ⟨true, ?_, by simp⟩
      simp only [conclusionOf, hbinding, Option.bind_some, htarget]
      simp [conclusion, hactive, hmove]

/-- The conclusions of two rows on one subject agree, or neither of them moves. -/
def Agree (rules : IdentityRules) (first second : DeltaRecord) : Prop :=
  ∀ c, conclusionOf rules first = some c → ∀ c', conclusionOf rules second = some c' →
    c.subject = c'.subject → c.disagrees c' = false

instance (rules : IdentityRules) : Std.Symm (Agree rules) where
  symm first second h c hc c' hc' hsame := by
    cases hd : c.disagrees c' with
    | false => rfl
    | true => exact absurd (h c' hc' c hc hsame.symm) (by simp [disagrees_symm hd])

/-! ## The whole pass -/

/-- What the pass leaves of the deltas. -/
structure Passed (rules : IdentityRules) (tables tables' : LearningTables) : Prop where
  deltas : tables'.deltas = tables.deltas.map (moveRecord rules)
  corpus : tables'.corpus = tables.corpus
  bounded : tables' = tables ∨ tables'.definitionSize ≤ DEFINITION_MAX_BYTES
  undisputed : ∀ first ∈ tables.deltas, ∀ second ∈ tables.deltas, first ≠ second →
    Disputes (moveRecord rules first) (moveRecord rules second) →
    moveRecord rules first = first ∧ moveRecord rules second = second

theorem rebindLearningIdentities_within (rules : IdentityRules)
    (hkeys : UniqueKeys DeltaRecord.deltaId tables.deltas) :
    Within Fails (fun done => Passed rules tables done.1)
      (rebindLearningIdentities rules tables) := by
  unfold rebindLearningIdentities
  dsimp only
  split
  · trivial
  · rename_i hconflict
    have hloop := @rebindPlaced_foldlM rules _ [] _ [] rfl hkeys
    unfold placeAll at hconflict ⊢
    rw [hloop]
    apply Within.guard
    intro hsize
    refine ⟨rfl, rfl, ?_, ?_⟩
    · by_cases hmoved : tables.deltas.filterMap (reboundSubject rules) = []
      · left
        have hsame : tables.deltas.map (moveRecord rules) = tables.deltas := by
          rw [map_congr_left (g := id), map_id]
          intro record hrecord
          exact moveRecord_of_not_reported (filterMap_eq_nil_iff.mp hmoved record hrecord)
        simp [hsame]
      · exact .inr (hsize hmoved)
    · have hpair := pairwise_of_conflict_none hconflict
      rw [← placeAll, conclusions_eq, pairwise_filterMap] at hpair
      have hagree : tables.deltas.Pairwise (Agree rules) := hpair
      intro first hfirst second hsecond hne hdisputes
      obtain ⟨hstate, hstate', capability, effect, effect', hpayload, hpayload', heffect, facts,
        happlies, happlies'⟩ := hdisputes
      rw [moveRecord_state] at hstate hstate'
      obtain ⟨moved, hconclusion, hstays⟩ := conclusionOf_moved hstate hpayload
      obtain ⟨moved', hconclusion', hstays'⟩ := conclusionOf_moved hstate' hpayload'
      have hboth := canBothApply_of_applies happlies happlies'
      have hagree := hagree.forall hfirst hsecond hne _ hconclusion _ hconclusion' rfl
      simp only [Conclusion.disagrees, hboth, Bool.and_true, Bool.and_eq_false_iff,
        decide_eq_false_iff_not, not_not, Bool.or_eq_false_iff] at hagree
      rcases hagree with heq | ⟨hmoved, hmoved'⟩
      · exact absurd heq heffect
      · exact ⟨hstays hmoved, hstays' hmoved'⟩

/-! ## What each writer does to the rows -/

/-- A delta's activation as a claim about the row that it finds. -/
def ActivatedFrom (tables : LearningTables) (row : DeltaRecord) (deltaId : String)
    (expectedVersion : ℕ) : Prop :=
  row.deltaId = deltaId ∧ ∃ held ∈ tables.deltas, held.deltaId = deltaId ∧
    held.state = .inactive ∧ held.version = expectedVersion ∧ held.change = row.change ∧
    ∀ kind : CorpusCaseKind, ∃ v ∈ tables.corpus, v.deltaId = deltaId ∧ v.kind = kind ∧
      v.deltaVersion = expectedVersion ∧ v.passed = true ∧ JudgedFor v held.change

/-- What every writer of the deltas keeps. -/
structure Writes (op : LedgerOp) (tables tables' : LearningTables) : Prop where
  judged : Judged tables'
  bounded : tables.definitionSize ≤ DEFINITION_MAX_BYTES →
    tables'.definitionSize ≤ DEFINITION_MAX_BYTES
  active : ∀ row ∈ tables'.deltas, row.state = .active →
    (∃ held ∈ tables.deltas, held.deltaId = row.deltaId ∧ held.state = .active) ∨
    ∃ deltaId expected, op = .learn (.activate deltaId expected) ∧
      ActivatedFrom tables row deltaId expected
  withdrawn : ∀ row ∈ tables.deltas, row.state = .rolledBack →
    ∃ row' ∈ tables'.deltas, row'.deltaId = row.deltaId ∧ row'.state = .rolledBack

theorem Writes.of_eq (h : Judged tables) :
    Writes op tables tables :=
  ⟨h, fun hsize => hsize, fun row hrow hactive => .inl ⟨row, hrow, rfl, hactive⟩,
    fun row hrow hstate => ⟨row, hrow, rfl, hstate⟩⟩

theorem Writes.of_definition
    (hjudged : Judged tables') (hdefinition : tables'.definition = tables.definition)
    (hactive : ∀ row ∈ tables'.deltas, row.state = .active → row ∈ tables.deltas)
    (hkept : ∀ row ∈ tables.deltas, row.state = .rolledBack → row ∈ tables'.deltas) :
    Writes op tables tables' := by
  refine ⟨hjudged, ?_, ?_, ?_⟩
  · unfold LearningTables.definitionSize
    rw [hdefinition]
    exact fun h => h
  · exact fun row hrow hstate => .inl ⟨row, hactive row hrow hstate, rfl, hstate⟩
  · exact fun row hrow hstate => ⟨row, hkept row hrow hstate, rfl, hstate⟩

section

variable (h : Judged tables)
include h

theorem writes_rebound {rules : IdentityRules} (hpass : Passed rules tables tables') : Writes op tables tables' := by
  refine ⟨h.map hpass.deltas hpass.corpus (moveRecord_deltaId rules) ?_, ?_, ?_, ?_⟩
  · intro row _
    rcases (moveRecord_keeps rules row).2.2 with hsame | hversion
    · exact .inl hsame
    · exact .inr (by omega)
  · intro hsize
    rcases hpass.bounded with rfl | hbounded
    · exact hsize
    · exact hbounded
  · intro row hrow hactive
    rw [hpass.deltas] at hrow
    obtain ⟨held, hheld, rfl⟩ := mem_map.mp hrow
    rw [moveRecord_state] at hactive
    exact .inl ⟨held, hheld, (moveRecord_deltaId rules held).symm, hactive⟩
  · intro row hrow hstate
    exact ⟨moveRecord rules row, hpass.deltas ▸ mem_map_of_mem hrow,
      moveRecord_deltaId rules row, (moveRecord_state rules row).trans hstate⟩

theorem writes_record {row : DeltaRecord} (hinactive : row.state = .inactive)
    (hnew : ∀ r ∈ tables.deltas, r.deltaId ≠ row.deltaId) {keep : ℕ}
    (htables : tables' = LearningTables.prune { tables with deltas := tables.deltas ++ [row] }
      keep) : Writes op tables tables' := by
  have hkeys : UniqueKeys DeltaRecord.deltaId (tables.deltas ++ [row]) := h.keys.insert hnew
  have hpruned := @LearningTables.pruned_prune
    { tables with deltas := tables.deltas ++ [row] } hkeys keep
  rw [← htables] at hpruned
  apply Writes.of_definition
  · refine ⟨hkeys.sublist (hpruned.deltas.map _), ?_⟩
    intro v hv
    obtain ⟨hcorpus, hkept⟩ := hpruned.corpus v hv
    obtain ⟨r, hr, hid, hjudged⟩ := h.verdicts v hcorpus
    exact ⟨r, hkept r (mem_append_left _ hr) hid, hid, hjudged⟩
  · have hactive : tables'.deltas.filter (·.state = .active) =
        (tables.deltas ++ [row]).filter (·.state = .active) := by
      rw [htables]
      unfold LearningTables.prune
      rw [filter_filter]
      apply filter_congr
      intro r hr
      by_cases hstate : r.state = .active
      · have : r ∈ tables'.deltas := hpruned.kept r hr (by simp [hstate])
        rw [htables] at this
        have := (mem_filter.mp this).2
        simp only [hstate, decide_true, Bool.true_and]
        exact this
      · simp [hstate]
    unfold LearningTables.definition
    rw [hactive, filter_append]
    simp [hinactive]
  · intro r hr hactive
    rcases mem_append.mp (hpruned.deltas.subset hr) with hr | hr
    · exact hr
    · rw [mem_singleton.mp hr, hinactive] at hactive
      cases hactive
  · intro r hr hstate
    exact hpruned.kept r (mem_append_left _ hr) (by simp [hstate])

theorem writes_judge (hdeltas : tables'.deltas = tables.deltas)
    (hcorpus : ∀ v ∈ tables'.corpus, v ∈ tables.corpus ∨ ∃ r ∈ tables.deltas,
      r.deltaId = v.deltaId ∧ v.deltaVersion = r.version ∧ JudgedFor v r.change) :
    Writes op tables tables' := by
  apply Writes.of_definition
  · refine ⟨hdeltas ▸ h.keys, ?_⟩
    intro v hv
    rw [hdeltas]
    rcases hcorpus v hv with hv | ⟨r, hr, hid, hversion, hjudged⟩
    · exact h.verdicts v hv
    · exact ⟨r, hr, hid, hversion.le, fun _ => hjudged⟩
  · unfold LearningTables.definition
    rw [hdeltas]
  · exact fun r hr _ => hdeltas ▸ hr
  · exact fun r hr _ => hdeltas ▸ hr

theorem writes_activate {deltaId : String}
    {expected : ℕ} (hactivates : tables.Activates deltaId expected)
    (hsize : (tables.transit deltaId .inactive .active expected).definitionSize ≤
      DEFINITION_MAX_BYTES) :
    Writes (.learn (.activate deltaId expected)) tables
      (tables.transit deltaId .inactive .active expected) := by
  refine ⟨h.map rfl rfl (LearningTables.transitRow_deltaId _ _ _ _)
    (fun r _ => LearningTables.transitRow_keeps _ _ _ _ r), fun _ => hsize, ?_, ?_⟩
  · intro row hrow hactive
    obtain ⟨held, hheld, rfl⟩ := mem_map.mp hrow
    unfold LearningTables.transitRow at hactive ⊢
    split at hactive
    · rename_i hmatch
      obtain ⟨hid, hstate, hversion⟩ := hmatch
      right
      rw [if_pos ⟨hid, hstate, hversion⟩]
      refine ⟨deltaId, expected, rfl, hid, held, hheld, hid, hstate, hversion, rfl, ?_⟩
      intro kind
      obtain ⟨v, hv, hvid, hkind, hvversion, hpassed⟩ := hactivates.2 kind
      obtain ⟨r, hr, hrid, -, hjudged⟩ := h.verdicts v hv
      obtain rfl : r = held := inj_on_of_nodup_map h.keys hr hheld
        ((hrid.trans hvid).trans hid.symm)
      exact ⟨v, hv, hvid, hkind, hvversion, hpassed, hjudged (hvversion.trans hversion.symm)⟩
    · rename_i hother
      rw [if_neg hother]
      exact .inl ⟨held, hheld, rfl, hactive⟩
  · intro row hrow hstate
    refine ⟨_, mem_map_of_mem hrow, LearningTables.transitRow_deltaId _ _ _ _ row, ?_⟩
    unfold LearningTables.transitRow
    rw [if_neg (by simp [hstate])]
    exact hstate

theorem writes_rollBack (deltaId : String) (expected : ℕ) :
    Writes op tables (tables.transit deltaId .active .rolledBack expected) := by
  have hactive : ∀ {r : DeltaRecord},
      (LearningTables.transitRow deltaId .active .rolledBack expected r).state = .active →
        LearningTables.transitRow deltaId .active .rolledBack expected r = r := by
    intro r hstate
    unfold LearningTables.transitRow at hstate ⊢
    split at hstate
    · cases hstate
    · rename_i hother
      rw [if_neg hother]
  have hsublist : ∀ deltas : List DeltaRecord,
      ((deltas.map (LearningTables.transitRow deltaId .active .rolledBack expected)).filter
        (·.state = .active)).Sublist (deltas.filter (·.state = .active)) := by
    intro deltas
    induction deltas with
    | nil => exact .slnil
    | cons r deltas ih =>
      by_cases hstate :
          (LearningTables.transitRow deltaId .active .rolledBack expected r).state = .active
      · rw [map_cons, filter_cons_of_pos (by simpa using hstate), hactive hstate]
        rw [hactive hstate] at hstate
        rw [filter_cons_of_pos (by simpa using hstate)]
        exact ih.cons_cons r
      · rw [map_cons, filter_cons_of_neg (by simpa using hstate)]
        exact ih.trans ((sublist_cons_self r deltas).filter _)
  refine ⟨h.map rfl rfl (LearningTables.transitRow_deltaId _ _ _ _)
    (fun r _ => LearningTables.transitRow_keeps _ _ _ _ r), ?_, ?_, ?_⟩
  · intro hsize
    refine (LearningDefinition.maxInstructionBytes_le ?_ _).trans hsize
    exact (hsublist tables.deltas).map _
  · intro row hrow hstate
    obtain ⟨held, hheld, rfl⟩ := mem_map.mp hrow
    have hsame := hactive hstate
    rw [hsame] at hstate ⊢
    exact .inl ⟨held, hheld, rfl, hstate⟩
  · intro row hrow hstate
    refine ⟨_, mem_map_of_mem hrow, LearningTables.transitRow_deltaId _ _ _ _ row, ?_⟩
    unfold LearningTables.transitRow
    rw [if_neg (by simp [hstate])]
    exact hstate

theorem writes_learn {op : LearningOp}
    (hok : op.perform tables = .ok tables') : Writes (.learn op) tables tables' := by
  cases op with
  | record candidate =>
    obtain ⟨hnew, htables⟩ := (LearningTables.recordDelta_within tables candidate).of_ok hok
    exact writes_record h rfl hnew htables
  | judge deltaId cases =>
    obtain ⟨hdeltas, hcorpus⟩ :=
      (LearningTables.recordCorpus_within tables deltaId cases).of_ok hok
    exact writes_judge h hdeltas hcorpus
  | activate deltaId expected =>
    obtain ⟨hactivates, rfl, hsize⟩ :=
      (LearningTables.activate_within tables deltaId expected).of_ok hok
    exact writes_activate h hactivates hsize
  | rollBack deltaId expected =>
    obtain rfl := (LearningTables.rollBack_within tables deltaId expected).of_ok hok
    exact writes_rollBack h deltaId expected

end

/-! ## Runs -/

namespace Ledger

/-- The bases are in order and the verdicts belong to the payloads. -/
structure Sound (ledger : Ledger) : Prop where
  inOrder : InOrder ledger.entries
  judged : Judged ledger.learning

theorem sound_fresh (schemaGeneration : ℕ) : (fresh schemaGeneration).Sound :=
  ⟨inOrder_fresh schemaGeneration, judged_fresh⟩

theorem writes_of_step (h : ledger.Sound)
    (hstep : ledger.Step op ledger') : Writes op ledger.learning ledger'.learning := by
  have hlearning := (effect_of_step h.inOrder hstep).learning
  cases op with
  | commit version pin =>
    obtain ⟨rules, out, -, -, hok⟩ := hlearning
    have hpass := (rebindLearningIdentities_within rules h.judged.keys).of_ok hok
    exact writes_rebound h.judged hpass
  | learn op => exact writes_learn h.judged hlearning
  | stage | stageForCutover | abandon | releaseRules | migration =>
    have hsame : ledger'.learning = ledger.learning := hlearning
    rw [hsame]
    exact .of_eq h.judged

theorem sound_of_step (h : ledger.Sound) (hstep : ledger.Step op ledger') : ledger'.Sound :=
  ⟨inOrder_of_step h.inOrder hstep, (writes_of_step h hstep).judged⟩

theorem sound_of_run {ops : List LedgerOp} (h : ledger.Sound)
    (hrun : Run Step ledger ops ledger') : ledger'.Sound :=
  hrun.invariant (fun _ _ _ hl hstep => sound_of_step hl hstep) h

theorem bounded_of_run {ops : List LedgerOp} (h : ledger.Sound) (hrun : Run Step ledger ops ledger')
    (hsize : ledger.learning.definitionSize ≤ DEFINITION_MAX_BYTES) :
    ledger'.learning.definitionSize ≤ DEFINITION_MAX_BYTES :=
  (hrun.invariant (I := fun l => l.Sound ∧ l.learning.definitionSize ≤ DEFINITION_MAX_BYTES)
    (fun _ _ _ hl hstep => ⟨sound_of_step hl.1 hstep, (writes_of_step hl.1 hstep).bounded hl.2⟩)
    ⟨h, hsize⟩).2

theorem withdrawn_of_run {ops : List LedgerOp} (h : ledger.Sound)
    (hrun : Run Step ledger ops ledger') {row row' : DeltaRecord}
    (hrow : row ∈ ledger.learning.deltas) (hstate : row.state = .rolledBack)
    (hrow' : row' ∈ ledger'.learning.deltas) (hid : row'.deltaId = row.deltaId) :
    row'.state = .rolledBack := by
  have hkept := hrun.invariant (I := fun l => l.Sound ∧ ∃ r ∈ l.learning.deltas,
      r.deltaId = row.deltaId ∧ r.state = .rolledBack)
    (by
      rintro l op l' ⟨hl, r, hr, hrid, hrstate⟩ hstep
      obtain ⟨r', hr', hrid', hrstate'⟩ := (writes_of_step hl hstep).withdrawn r hr hrstate
      exact ⟨sound_of_step hl hstep, r', hr', hrid'.trans hrid, hrstate'⟩)
    ⟨h, row, hrow, rfl, hstate⟩
  obtain ⟨hl, r, hr, hrid, hrstate⟩ := hkept
  rw [inj_on_of_nodup_map hl.judged.keys hrow' hr (hid.trans hrid.symm)]
  exact hrstate

/-- Each binding that a cutover finds moves to the one target its rule names, or stays. -/
def MovesOnce (rules : IdentityRules) (held row : DeltaRecord) : Prop :=
  (∀ binding ∈ storedBinding held, ∀ moved, rules.place binding.kind binding.subject =
    .rebound moved → storedBinding row = some { binding with subject := moved } ∧
      row.version = held.version + 1) ∧
  ((∀ binding ∈ storedBinding held, rules.place binding.kind binding.subject = .unassigned) →
    row = held)

/-- What a cutover leaves: the rules of its base placed every binding, and a dispute is old. -/
def CutsOver (ledger ledger' : Ledger) (version : ℕ) : Prop :=
  ∃ rules : IdentityRules, rules.baseVersion = version ∧
    rules.migrations = ledger.migrationsFor version ∧
    Forall₂ (MovesOnce rules) ledger.learning.deltas ledger'.learning.deltas ∧
    ∀ row ∈ ledger'.learning.deltas, ∀ row' ∈ ledger'.learning.deltas, row ≠ row' →
      Disputes row row' → row ∈ ledger.learning.deltas ∧ row' ∈ ledger.learning.deltas

theorem cutsOver_of_step {version : ℕ} {pin : Option String}
    (h : ledger.Sound) (hstep : ledger.Step (.commit version pin) ledger') :
    CutsOver ledger ledger' version := by
  obtain ⟨rules, out, hbase, hset, hok⟩ := (effect_of_step h.inOrder hstep).learning
  have hpass := (rebindLearningIdentities_within rules h.judged.keys).of_ok hok
  refine ⟨rules, hbase, hset, ?_, ?_⟩
  · rw [hpass.deltas, forall₂_map_right_iff, forall₂_same]
    intro held _
    exact ⟨fun binding hbinding moved hplace => moveRecord_rebound hbinding hplace,
      moveRecord_unassigned⟩
  · intro row hrow row' hrow' hne hdisputes
    rw [hpass.deltas] at hrow hrow'
    obtain ⟨held, hheld, rfl⟩ := mem_map.mp hrow
    obtain ⟨held', hheld', rfl⟩ := mem_map.mp hrow'
    obtain ⟨hstays, hstays'⟩ := hpass.undisputed held hheld held' hheld'
      (fun heq => hne (heq ▸ rfl)) hdisputes
    rw [hstays, hstays']
    exact ⟨hheld, hheld'⟩

/-- In every state that a run reaches, the definition keeps to its bound, a withdrawn delta is
withdrawn, and the next operation activates a delta only as the corpus judged its payload. -/
theorem definition_stays_judged {ops : List LedgerOp}
    (h : ledger.Sound) (hrun : Run Step ledger ops ledger') :
    (ledger.learning.definitionSize ≤ DEFINITION_MAX_BYTES →
      ledger'.learning.definitionSize ≤ DEFINITION_MAX_BYTES) ∧
    (∀ row ∈ ledger.learning.deltas, row.state = .rolledBack →
      ∀ row' ∈ ledger'.learning.deltas, row'.deltaId = row.deltaId → row'.state = .rolledBack) ∧
    (∀ op next, ledger'.Step op next → ∀ row ∈ next.learning.deltas, row.state = .active →
      (∃ held ∈ ledger'.learning.deltas, held.deltaId = row.deltaId ∧ held.state = .active) ∨
      ∃ deltaId expected, op = .learn (.activate deltaId expected) ∧
        ActivatedFrom ledger'.learning row deltaId expected) ∧
    (∀ version pin next, ledger'.Step (.commit version pin) next →
      CutsOver ledger' next version) := by
  have hsound := sound_of_run h hrun
  refine ⟨bounded_of_run h hrun, ?_, ?_, ?_⟩
  · intro row hrow hstate row' hrow' hid
    exact withdrawn_of_run h hrun hrow hstate hrow' hid
  · intro op next hstep
    exact (writes_of_step hsound hstep).active
  · intro version pin next hstep
    exact cutsOver_of_step hsound hstep

/-- The ledger after a transaction that succeeds. -/
def after (ledger : Ledger) (op : LedgerOp) : Ledger := (ledger.perform op).toOption.getD ledger

theorem perform_after {op : LedgerOp} (h : (ledger.perform op).isOk = true) :
    ledger.perform op = .ok (ledger.after op) := by
  unfold after
  cases hperformed : ledger.perform op with
  | error e =>
    rw [hperformed] at h
    cases h
  | ok ledger' => rfl

def briefCandidate : DeltaCandidate :=
  ⟨"brief", 0, ⟨.instruction "Be brief.", some (.purpose "plan")⟩, "seen"⟩

def reviewCandidate : DeltaCandidate :=
  ⟨"review", 0, ⟨.instruction "Look twice.", some (.purpose "review")⟩, "seen"⟩

def briefCases : List CorpusCase :=
  [.transfer (.forPurpose "plan"), .composition (.forPurpose "plan"),
    .negativeControl (.forPurpose "review") "review"]

def servedPin : String := "0123456789abcdef0123456789abcdef0123456789abcdef0123456789abcdef"

def briefOps : List LedgerOp :=
  [.stage ⟨2, "two", "", "", servedPin, none⟩ [], .commit 2 (some servedPin),
    .learn (.record reviewCandidate), .learn (.record briefCandidate),
    .learn (.judge "brief" briefCases)]

/-- A base serves, and one of two candidates has its verdicts. -/
def briefJudged : Ledger := briefOps.foldl after (fresh 0)

def briefActive : Ledger := briefJudged.after (.learn (.activate "brief" 1))

def briefWithdrawn : Ledger := briefActive.after (.learn (.rollBack "brief" 2))

def nextStaged : Ledger :=
  briefWithdrawn.after (.stageForCutover ⟨3, "three", "", "", servedPin, none⟩ [])

theorem briefJudged_run : Run Step (fresh 0) briefOps briefJudged :=
  .cons ⟨trivial, perform_after (by decide +kernel)⟩
    (.cons ⟨trivial, perform_after (by decide +kernel)⟩
    (.cons ⟨trivial, perform_after (by decide +kernel)⟩
    (.cons ⟨trivial, perform_after (by decide +kernel)⟩
    (.single ⟨trivial, perform_after (by decide +kernel)⟩))))

theorem definitionSize_fresh : LearningTables.fresh.definitionSize ≤ DEFINITION_MAX_BYTES := by
  have hbase : LARGEST_INSTRUCTION_BASE.utf8ByteSize ≤ 3072 := by
    unfold LARGEST_INSTRUCTION_BASE
    simp only [String.utf8ByteSize_append]
    decide
  have hsize : LearningTables.fresh.definitionSize = LARGEST_INSTRUCTION_BASE.utf8ByteSize := by
    simp [LearningTables.definitionSize, LearningTables.definition, LearningTables.fresh,
      LearningDefinition.maxInstructionBytes, LearningDefinition.appendedUnder,
      LearningDefinition.purposes]
  rw [hsize]
  exact hbase.trans (by decide)

/-- A delta is judged, activated and withdrawn, and the next base cuts over. -/
theorem briefed_stays_judged :
    briefJudged.learning.definitionSize ≤ DEFINITION_MAX_BYTES ∧
    (∀ row ∈ briefActive.learning.deltas, row.state = .active →
      ActivatedFrom briefJudged.learning row "brief" 1) ∧
    (∀ row ∈ nextStaged.learning.deltas, row.deltaId = "brief" → row.state = .rolledBack) ∧
    CutsOver nextStaged (nextStaged.after (.commit 3 (some servedPin))) 3 := by
  have hactivate : briefJudged.Step (.learn (.activate "brief" 1)) briefActive :=
    ⟨trivial, perform_after (by decide +kernel)⟩
  have hwithdraw : briefActive.Step (.learn (.rollBack "brief" 2)) briefWithdrawn :=
    ⟨trivial, perform_after (by decide +kernel)⟩
  have hstage : briefWithdrawn.Step (.stageForCutover ⟨3, "three", "", "", servedPin, none⟩ [])
      nextStaged := ⟨trivial, perform_after (by decide +kernel)⟩
  have hsound : briefWithdrawn.Sound := sound_of_run (sound_fresh 0)
    (briefJudged_run.append (.cons hactivate (.single hwithdraw)))
  obtain ⟨hbound, -, hactive, -⟩ := definition_stays_judged (sound_fresh 0) briefJudged_run
  obtain ⟨-, hstays, -, hcuts⟩ := definition_stays_judged hsound (.single hstage)
  refine ⟨hbound definitionSize_fresh, ?_, ?_, ?_⟩
  · intro row hrow hstate
    rcases hactive _ _ hactivate row hrow hstate with ⟨held, hheld, -, hbefore⟩ |
      ⟨deltaId, expected, hop, hfrom⟩
    · have hnone : ∀ held ∈ briefJudged.learning.deltas, held.state ≠ .active := by decide +kernel
      exact absurd hbefore (hnone held hheld)
    · cases hop
      exact hfrom
  · intro row hrow hid
    have hheld : ∃ held ∈ briefWithdrawn.learning.deltas, held.state = .rolledBack ∧
        held.deltaId = "brief" := by decide +kernel
    obtain ⟨held, hmem, hstate, hbrief⟩ := hheld
    exact hstays held hmem hstate row hrow (hid.trans hbrief.symm)
  · exact hcuts 3 _ _ ⟨trivial, perform_after (by decide +kernel)⟩

end Ledger

end Rivect.Base
