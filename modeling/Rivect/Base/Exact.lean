import Rivect.Base.Cutover
import Rivect.Base.Sets

/-! # What a sealed set names

A set is sealed from two judgements: one over the records of the user's layer, which knows the role
rules of the base, and one over the stored bindings, which knows its declared purposes only.
-/

namespace Rivect.Base

open Lib Learning List

variable {ledger : Ledger}

namespace Ledger

/-! ## The set that a transaction seals -/

/-- The set of a base is the one that the ledger judges. -/
def Judges (ledger : Ledger) (version : ℕ) (semantics : Option SemanticInputs) : Prop :=
  ledger.addresses version = (ledger.blocklessAddresses version semantics).mergeSort (· ≤ ·)

theorem blocklessAddresses_congr {ledger ledger' : Ledger}
    (hmigrations : ledger'.migrations = ledger.migrations)
    (hlearning : ledger'.learning = ledger.learning) (version : ℕ)
    (semantics : Option SemanticInputs) :
    ledger'.blocklessAddresses version semantics = ledger.blocklessAddresses version semantics := by
  cases semantics with
  | none => rfl
  | some semantics =>
    simp only [blocklessAddresses, unplacedRecords, unplacedBindings, migrationsFor, hmigrations,
      hlearning]

theorem Judges.of_eq {ledger ledger' : Ledger} {version : ℕ} {semantics : Option SemanticInputs}
    (h : ledger.Judges version semantics) (hblockers : ledger'.blockers = ledger.blockers)
    (hmigrations : ledger'.migrations = ledger.migrations)
    (hlearning : ledger'.learning = ledger.learning) : ledger'.Judges version semantics := by
  unfold Judges addresses at *
  rw [hblockers, h, blocklessAddresses_congr hmigrations hlearning]

theorem rotateEpoch_blockers (ledger : Ledger) (version : ℕ) (held : Option ℕ)
    (sorted : List String) :
    Within Fails (fun rotated => rotated.blockers = ledger.blockers)
      (ledger.rotateEpoch version held sorted) := by
  unfold rotateEpoch
  split
  · apply Within.bind (allocateSetEpoch_within ledger)
    rintro ⟨_, epoch⟩ ⟨rfl, rfl, -⟩
    rfl
  · rfl

theorem replaceSet_blockers {version : ℕ} {sorted : List String} (hnodup : sorted.Nodup) :
    Within Fails (fun replaced => replaced.blockers =
        ledger.blockers.filter (·.version ≠ version) ++ sorted.map (Blocker.mk version))
      (ledger.replaceSet version sorted) := by
  apply Within.guard
  intro _
  apply Within.guard
  intro _
  apply foldl_insertBlocker hnodup
  intro address _ hmem
  simp at hmem

theorem sealBlockersOn_judges (hkeys : UniqueKeys DeltaRecord.deltaId ledger.learning.deltas)
    (hepochs : ∀ row ∈ ledger.rows, row.setEpoch.isSome = true) (version : ℕ)
    (semantics : Option SemanticInputs) :
    Within Fails (fun placed => placed.Judges version semantics)
      (ledger.sealBlockersOn version semantics) := by
  have hframe := sealBlockersOn_frame ledger version semantics
  have hset : Within Fails (fun placed : Ledger => placed.addresses version =
      (ledger.blocklessAddresses version semantics).mergeSort (· ≤ ·))
      (ledger.sealBlockersOn version semantics) := by
    unfold sealBlockersOn
    dsimp only
    split
    · rename_i hskipped
      exfalso
      obtain ⟨row, hrow, hlegacy⟩ := (Option.any_eq_true _ _).mp hskipped.1
      have hepoch := hepochs row (mem_of_rowAt hrow)
      rw [(of_decide_eq_true hlegacy).1] at hepoch
      cases hepoch
    · apply Within.bind (rotateEpoch_blockers ledger version _ _)
      intro rotated hrotated
      refine (replaceSet_blockers ?_).imp ?_
      · exact (mergeSort_perm _ _).nodup_iff.mpr
          (blocklessAddresses_nodup hkeys version semantics)
      · intro placed hplaced
        rw [hrotated] at hplaced
        exact addresses_of_blockers hplaced (sorted_mergeSort _)
  refine (hset.and hframe).imp ?_
  rintro placed ⟨hset, hframe⟩
  exact hset.trans (by rw [blocklessAddresses_congr hframe.migrations hframe.learning])

theorem stageOffered_judges (h : ledger.Sealed) (hversions : UniqueKeys BaseRow.version ledger.rows)
    (hkeys : UniqueKeys DeltaRecord.deltaId ledger.learning.deltas) (install : BaseInstall)
    (assets : List (UpdateAsset × String)) :
    Within Fails (fun staged => staged.Judges install.version install.semantics)
      (ledger.stageOffered install assets) := by
  apply Within.skip
  intro _
  apply Within.bind (allocateSetEpoch_within ledger)
  rintro ⟨_, _⟩ ⟨rfl, rfl, hissuable⟩
  apply Within.bind (insertBase_within h hversions install hissuable)
  rintro inserted ⟨hinserted, -, hlearning, -, -⟩
  have hdeltas : UniqueKeys DeltaRecord.deltaId
      (inserted.writeReceipt install.version assets).learning.deltas := hlearning ▸ hkeys
  apply Within.bind (sealBlockersOn_judges hdeltas
    (fun row hrow => (hinserted.kept.rows row hrow).epoch) install.version install.semantics)
  intro placed hplaced
  exact hplaced.of_eq rfl rfl rfl

/-- No base of the version serves. -/
def Unserved (ledger : Ledger) (version : ℕ) : Prop :=
  ∀ row ∈ ledger.rows, row.state = .active → row.version ≠ version

theorem stageBaseOn_judges (h : ledger.Sealed) (hversions : UniqueKeys BaseRow.version ledger.rows)
    (hkeys : UniqueKeys DeltaRecord.deltaId ledger.learning.deltas) {install : BaseInstall}
    (hunserved : ledger.Unserved install.version) (assets : List (UpdateAsset × String)) :
    Within Fails (fun staged => staged.Judges install.version install.semantics)
      (ledger.stageBaseOn install assets) := by
  unfold stageBaseOn
  split
  · exact stageOffered_judges h hversions hkeys install assets
  · rename_i active hactive
    obtain ⟨row, hrow, hstate, hversion, -⟩ := inState_eq_some hactive
    split
    · trivial
    · split
      · rename_i hsame
        exact absurd (hversion.trans hsame.symm) (hunserved row hrow hstate)
      · split
        · trivial
        · exact stageOffered_judges h hversions hkeys install assets

theorem stageForCutoverOn_judges (h : ledger.Sealed)
    (hversions : UniqueKeys BaseRow.version ledger.rows)
    (hkeys : UniqueKeys DeltaRecord.deltaId ledger.learning.deltas) {install : BaseInstall}
    (hunserved : ledger.Unserved install.version) (assets : List (UpdateAsset × String)) :
    Within Fails (fun staged => staged.1.Judges install.version install.semantics)
      (ledger.stageForCutoverOn install assets) := by
  have hstage := stageBaseOn_judges h hversions hkeys hunserved assets
  unfold stageForCutoverOn
  split
  · rename_i hok
    exact hstage.of_ok hok
  · rename_i version _
    split
    · have hleaves : Within Fails
          (fun abandoned : Ledger × BaseDocument => abandoned.1.Unserved install.version)
          (ledger.abandonBaseOn version) := by
        apply Within.skip
        intro _ row hrow
        exact hunserved row (mem_of_mem_filter hrow)
      apply Within.bind ((abandonBaseOn_lays h hversions version).and hleaves)
      rintro abandoned ⟨⟨habandoned, hlearning, hunique⟩, hleft⟩
      apply Within.bind (stageBaseOn_judges habandoned.publishes.kept hunique (hlearning ▸ hkeys)
        hleft assets)
      exact fun _ hstaged => hstaged
    · trivial
  · trivial

theorem recordReleaseRulesOn_judges (h : ledger.Sealed)
    (hkeys : UniqueKeys DeltaRecord.deltaId ledger.learning.deltas) (install : BaseInstall)
    (rules : List IdentityMigration) :
    Within Fails (fun recorded => recorded.Judges install.version install.semantics)
      (ledger.recordReleaseRulesOn install rules) := by
  apply Within.bind (P := Beside ledger)
  · apply Within.foldlM fun _ => Beside ledger
    · intro _ rule recorded _ hbeside
      apply Within.bind ((recordMigrationOn_beside recorded rule install.version).mapError
        fun _ _ => trivial)
      exact fun _ hnext => hbeside.trans hnext
    · exact ⟨rfl, rfl, rfl, rfl⟩
  · intro recorded hbeside
    refine sealBlockersOn_judges (hbeside.learning ▸ hkeys) ?_ install.version install.semantics
    intro row hrow
    rw [hbeside.rows] at hrow
    exact (h.rows row hrow).epoch

/-- The transactions that seal the set of an install: its stage, unless the base serves already,
and the recording of its rules. -/
def Seals (ledger : Ledger) (install : BaseInstall) : LedgerOp → Prop
  | .stage offered _ | .stageForCutover offered _ =>
    offered = install ∧ ledger.Unserved install.version
  | .releaseRules offered _ => offered = install
  | _ => False

theorem judges_of_step {ledger ledger' : Ledger} {op : LedgerOp} {install : BaseInstall}
    (h : ledger.Regular) (hstep : ledger.Step op ledger') (hseals : ledger.Seals install op) :
    ledger'.Judges install.version install.semantics := by
  have hversions := uniqueKeys_of_inOrder h.sound.inOrder
  have hkeys := h.sound.judged.keys
  obtain ⟨-, hperform⟩ := hstep
  cases op with
  | stage offered assets =>
    obtain ⟨rfl, hunserved⟩ := hseals
    exact (stageBaseOn_judges h.kept hversions hkeys hunserved assets).of_ok hperform
  | stageForCutover offered assets =>
    obtain ⟨rfl, hunserved⟩ := hseals
    have hstaged : Within Fails
        (fun staged : Ledger => staged.Judges offered.version offered.semantics)
        (ledger.perform (.stageForCutover offered assets)) := by
      apply Within.bind (stageForCutoverOn_judges h.kept hversions hkeys hunserved assets)
      exact fun _ hstaged => hstaged
    exact hstaged.of_ok hperform
  | releaseRules offered rules =>
    obtain rfl := hseals
    exact (recordReleaseRulesOn_judges h.kept hkeys offered rules).of_ok hperform
  | abandon | commit | migration | learn => exact hseals.elim

/-! ## The addresses of a set -/

def recordAddress (key field : String) : String :=
  blockerAddress "config" (purposeRecordPointer key) ("/" ++ field)

def bindingAddress (deltaId : String) : String :=
  blockerAddress "learning" deltaId "condition_json"

theorem recordAddress_inj {key key' field field' : String} :
    recordAddress key field = recordAddress key' field' ↔ key = key' ∧ field = field' := by
  have howner := slash_notMem_owner (.inr rfl)
  constructor
  · intro hsame
    obtain ⟨-, hkey, hfield⟩ := blockerAddress_injective howner howner hsame
    exact ⟨string_append_left_cancel hkey, string_append_left_cancel hfield⟩
  · rintro ⟨rfl, rfl⟩
    rfl

theorem bindingAddress_inj {deltaId deltaId' : String} :
    bindingAddress deltaId = bindingAddress deltaId' ↔ deltaId = deltaId' := by
  have howner := slash_notMem_owner (.inl rfl)
  exact ⟨fun hsame => (blockerAddress_injective howner howner hsame).2.1, fun h => h ▸ rfl⟩

theorem recordAddress_ne_bindingAddress (key field deltaId : String) :
    recordAddress key field ≠ bindingAddress deltaId := by
  intro hsame
  have howner := (blockerAddress_injective (slash_notMem_owner (.inr rfl))
    (slash_notMem_owner (.inl rfl)) hsame).1
  exact absurd howner (by decide)

/-- A role rule starts or ends at a purpose. -/
def NamedBy (rules : List IdentityMigration) (purpose : String) : Prop :=
  ∃ rule ∈ rules, rule.kind = .role ∧ (rule.oldId = purpose ∨ rule.newId = purpose)

/-- A role rule starts at a purpose. -/
def MovedBy (rules : List IdentityMigration) (purpose : String) : Prop :=
  ∃ rule ∈ rules, rule.kind = .role ∧ rule.oldId = purpose

theorem MovedBy.named {rules : List IdentityMigration} {purpose : String}
    (h : MovedBy rules purpose) : NamedBy rules purpose := by
  obtain ⟨rule, hrule, hkind, hold⟩ := h
  exact ⟨rule, hrule, hkind, .inl hold⟩

theorem mem_unplacedRecords {version : ℕ} {semantics : SemanticInputs} {address : String} :
    address ∈ ledger.unplacedRecords version semantics ↔
      ∃ record ∈ semantics.userRecords, ∃ field ∈ statedFields record.2,
        record.1 ∉ semantics.basePurposes ∧ ¬ NamedBy (ledger.migrationsFor version) record.1 ∧
          address = recordAddress record.1 field := by
  have hnamed : ∀ key, ((ledger.migrationsFor version).any fun rule =>
      rule.kind = .role && (rule.oldId = key || rule.newId = key)) = true ↔
      NamedBy (ledger.migrationsFor version) key := by
    intro key
    simp [NamedBy]
  unfold unplacedRecords
  rw [mem_flatMap]
  constructor
  · rintro ⟨record, hrecord, haddress⟩
    obtain ⟨hrecord, hunplaced⟩ := mem_filter.mp hrecord
    obtain ⟨field, hfield, rfl⟩ := mem_map.mp haddress
    rw [Bool.not_eq_true', Bool.or_eq_false_iff, decide_eq_false_iff_not] at hunplaced
    refine ⟨record, hrecord, field, hfield, hunplaced.1, ?_, rfl⟩
    rw [← hnamed, hunplaced.2]
    exact Bool.false_ne_true
  · rintro ⟨record, hrecord, field, hfield, hundeclared, hunnamed, rfl⟩
    refine ⟨record, mem_filter.mpr ⟨hrecord, ?_⟩, mem_map_of_mem hfield⟩
    rw [Bool.not_eq_true', Bool.or_eq_false_iff, decide_eq_false_iff_not]
    exact ⟨hundeclared, Bool.eq_false_iff.mpr fun hany => hunnamed ((hnamed _).mp hany)⟩

theorem mem_unplacedBindings {semantics : SemanticInputs} {address : String} :
    address ∈ ledger.unplacedBindings semantics ↔
      ∃ delta ∈ ledger.learning.deltas, ∃ binding, storedBinding delta = some binding ∧
        binding.kind = .role ∧ binding.subject ∉ semantics.basePurposes ∧
          address = bindingAddress delta.deltaId := by
  unfold unplacedBindings
  rw [mem_map]
  constructor
  · rintro ⟨delta, hdelta, rfl⟩
    obtain ⟨hdelta, hunplaced⟩ := mem_filter.mp hdelta
    split at hunplaced
    · rename_i purpose hpayload hcondition
      refine ⟨delta, hdelta, ⟨delta.deltaId, .role, purpose, delta.state, none, none⟩, ?_, rfl,
        of_decide_eq_true hunplaced, rfl⟩
      unfold storedBinding
      rw [hpayload, hcondition]
    · cases hunplaced
  · rintro ⟨delta, hdelta, binding, hbinding, hkind, hundeclared, rfl⟩
    refine ⟨delta, mem_filter.mpr ⟨hdelta, ?_⟩, rfl⟩
    unfold storedBinding at hbinding
    split at hbinding
    · rename_i hpayload hcondition
      cases hbinding
      rw [hpayload, hcondition]
      exact decide_eq_true hundeclared
    · cases hbinding
    · cases hbinding
      cases hkind

/-! ## Exactness -/

/-- A set names the fields of the records and the bindings of the instructions whose purpose is
neither declared nor placed, and nothing else. It spares a binding that the cutover moves to a
declared purpose. -/
structure Exact (placed : String → Prop) (rules : List IdentityMigration)
    (semantics : SemanticInputs) (deltas : List DeltaRecord) (addresses : List String) : Prop where
  records : ∀ record ∈ semantics.userRecords, ∀ field ∈ statedFields record.2,
    recordAddress record.1 field ∈ addresses ↔
      record.1 ∉ semantics.basePurposes ∧ ¬ placed record.1
  bindings : ∀ delta ∈ deltas, ∀ binding, storedBinding delta = some binding →
    binding.kind = .role → (bindingAddress delta.deltaId ∈ addresses ↔
      binding.subject ∉ semantics.basePurposes ∧ ¬ placed binding.subject)
  known : ∀ address ∈ addresses,
    (∃ record ∈ semantics.userRecords, ∃ field ∈ statedFields record.2,
      address = recordAddress record.1 field) ∨
    ∃ delta ∈ deltas, ∃ binding, storedBinding delta = some binding ∧ binding.kind = .role ∧
      address = bindingAddress delta.deltaId
  spares : ∀ placing : IdentityRules, placing.migrations = rules → ∀ delta ∈ deltas,
    ∀ binding, storedBinding delta = some binding → binding.kind = .role →
      ∀ moved ∈ semantics.basePurposes, target placing binding = some moved →
        bindingAddress delta.deltaId ∉ addresses

theorem target_some {placing : IdentityRules} {binding : StoredBinding} {moved : String}
    (h : target placing binding = some moved) (hrole : binding.kind = .role) :
    MovedBy placing.migrations binding.subject := by
  unfold target at h
  split at h
  · rename_i hplace
    obtain ⟨rule, hrule, hkind, hold, -⟩ := placing.place_rebound hplace
    exact ⟨rule, hrule, hkind.trans hrole, hold⟩
  · cases h

/-- A judged set is exact under a reading of what a rule places where the reading agrees with the
rules about every record, and places no undeclared binding. -/
theorem Judges.binding_iff {version : ℕ} {semantics : SemanticInputs}
    (h : ledger.Judges version (some semantics))
    (hkeys : UniqueKeys DeltaRecord.deltaId ledger.learning.deltas) {placed : String → Prop}
    (hplaces : ∀ purpose, MovedBy (ledger.migrationsFor version) purpose → placed purpose) :
    Exact placed (ledger.migrationsFor version) semantics ledger.learning.deltas
        (ledger.addresses version) ↔
      (∀ record ∈ semantics.userRecords, statedFields record.2 ≠ [] →
        record.1 ∉ semantics.basePurposes →
        (NamedBy (ledger.migrationsFor version) record.1 ↔ placed record.1)) ∧
      ∀ delta ∈ ledger.learning.deltas, ∀ binding, storedBinding delta = some binding →
        binding.kind = .role → binding.subject ∉ semantics.basePurposes →
        ¬ placed binding.subject := by
  have hmem : ∀ address, address ∈ ledger.addresses version ↔
      address ∈ ledger.unplacedRecords version semantics ∨
        address ∈ ledger.unplacedBindings semantics := by
    intro address
    rw [h, mem_mergeSort]
    exact mem_append
  -- an address tells whose it is, so each kind is decided by its own clause of the seal
  have hrecords : ∀ record ∈ semantics.userRecords, ∀ field ∈ statedFields record.2,
      (recordAddress record.1 field ∈ ledger.addresses version ↔
        record.1 ∉ semantics.basePurposes ∧ ¬ NamedBy (ledger.migrationsFor version) record.1) := by
    intro record hrecord field hfield
    rw [hmem, mem_unplacedRecords, mem_unplacedBindings]
    constructor
    · rintro (⟨other, -, _, -, hundeclared, hunnamed, hsame⟩ | ⟨delta, -, _, -, -, -, hsame⟩)
      · rw [(recordAddress_inj.mp hsame).1]
        exact ⟨hundeclared, hunnamed⟩
      · exact absurd hsame (recordAddress_ne_bindingAddress _ _ _)
    · rintro ⟨hundeclared, hunnamed⟩
      exact .inl ⟨record, hrecord, field, hfield, hundeclared, hunnamed, rfl⟩
  have hbindings : ∀ delta ∈ ledger.learning.deltas, ∀ binding,
      storedBinding delta = some binding → binding.kind = .role →
      (bindingAddress delta.deltaId ∈ ledger.addresses version ↔
        binding.subject ∉ semantics.basePurposes) := by
    intro delta hdelta binding hbinding hrole
    rw [hmem, mem_unplacedRecords, mem_unplacedBindings]
    constructor
    · rintro (⟨_, -, _, -, -, -, hsame⟩ | ⟨other, hother, held, hheld, -, hundeclared, hsame⟩)
      · exact absurd hsame.symm (recordAddress_ne_bindingAddress _ _ _)
      · have hone := inj_on_of_nodup_map hkeys hdelta hother (bindingAddress_inj.mp hsame)
        rw [← hone, hbinding] at hheld
        cases hheld
        exact hundeclared
    · intro hundeclared
      exact .inr ⟨delta, hdelta, binding, hbinding, hrole, hundeclared, rfl⟩
  constructor
  · intro hexact
    refine ⟨?_, ?_⟩
    · intro record hrecord hstated hundeclared
      obtain ⟨field, hfield⟩ := exists_mem_of_ne_nil _ hstated
      have hboth := (hexact.records record hrecord field hfield).symm.trans
        (hrecords record hrecord field hfield)
      exact not_iff_not.mp (by simpa [hundeclared] using hboth.symm)
    · intro delta hdelta binding hbinding hrole hundeclared
      have hsealed := (hbindings delta hdelta binding hbinding hrole).mpr hundeclared
      exact ((hexact.bindings delta hdelta binding hbinding hrole).mp hsealed).2
  · rintro ⟨hagree, hfree⟩
    refine ⟨?_, ?_, ?_, ?_⟩
    · intro record hrecord field hfield
      rw [hrecords record hrecord field hfield]
      refine and_congr_right fun hundeclared => not_congr ?_
      exact hagree record hrecord (ne_nil_of_mem hfield) hundeclared
    · intro delta hdelta binding hbinding hrole
      rw [hbindings delta hdelta binding hbinding hrole]
      exact (and_iff_left_of_imp (hfree delta hdelta binding hbinding hrole)).symm
    · intro address haddress
      rcases (hmem address).mp haddress with haddress | haddress
      · obtain ⟨record, hrecord, field, hfield, -, -, hsame⟩ := mem_unplacedRecords.mp haddress
        exact .inl ⟨record, hrecord, field, hfield, hsame⟩
      · obtain ⟨delta, hdelta, binding, hbinding, hrole, -, hsame⟩ :=
          mem_unplacedBindings.mp haddress
        exact .inr ⟨delta, hdelta, binding, hbinding, hrole, hsame⟩
    · rintro placing hplacing delta hdelta binding hbinding hrole moved - hmoved haddress
      have hundeclared := (hbindings delta hdelta binding hbinding hrole).mp haddress
      have hstarts := hplacing ▸ target_some hmoved hrole
      exact hfree delta hdelta binding hbinding hrole hundeclared (hplaces _ hstarts)

/-- No instruction is bound to an undeclared purpose of a kind. -/
def BindsNone (kind : String → Prop) (semantics : SemanticInputs) (deltas : List DeltaRecord) :
    Prop :=
  ∀ delta ∈ deltas, ∀ binding, storedBinding delta = some binding → binding.kind = .role →
    binding.subject ∉ semantics.basePurposes → ¬ kind binding.subject

/-- The set that a transaction seals is exact exactly where no instruction is bound to an undeclared
purpose that a role rule names; and where a rule only places the purpose it starts at, exactly where
no instruction is bound to such a purpose and no record of the user's is one that a rule ends at. -/
theorem sealed_exactly {schemaGeneration : ℕ} {ops : List LedgerOp} {ledger ledger' : Ledger}
    {op : LedgerOp} {install : BaseInstall} {semantics : SemanticInputs}
    (hrun : Run Step (fresh schemaGeneration) ops ledger) (hstep : ledger.Step op ledger')
    (hseals : ledger.Seals install op) (hsemantics : install.semantics = some semantics) :
    (Exact (NamedBy (ledger'.migrationsFor install.version))
        (ledger'.migrationsFor install.version) semantics ledger'.learning.deltas
        (ledger'.addresses install.version) ↔
      BindsNone (NamedBy (ledger'.migrationsFor install.version)) semantics
        ledger'.learning.deltas) ∧
    (Exact (MovedBy (ledger'.migrationsFor install.version))
        (ledger'.migrationsFor install.version) semantics ledger'.learning.deltas
        (ledger'.addresses install.version) ↔
      (∀ record ∈ semantics.userRecords, statedFields record.2 ≠ [] →
        record.1 ∉ semantics.basePurposes →
        NamedBy (ledger'.migrationsFor install.version) record.1 →
        MovedBy (ledger'.migrationsFor install.version) record.1) ∧
      BindsNone (MovedBy (ledger'.migrationsFor install.version)) semantics
        ledger'.learning.deltas) := by
  have hregular := regular_of_run (regular_fresh schemaGeneration) hrun
  have hjudges := judges_of_step hregular hstep hseals
  rw [hsemantics] at hjudges
  have hkeys := (regular_of_step hregular hstep).sound.judged.keys
  constructor
  · rw [hjudges.binding_iff hkeys fun _ hmoved => hmoved.named]
    exact and_iff_right fun _ _ _ _ => Iff.rfl
  · rw [hjudges.binding_iff hkeys fun _ hmoved => hmoved]
    refine and_congr_left fun _ => ?_
    constructor
    · intro hagree record hrecord hstated hundeclared hnamed
      exact (hagree record hrecord hstated hundeclared).mp hnamed
    · intro hends record hrecord hstated hundeclared
      exact ⟨hends record hrecord hstated hundeclared, MovedBy.named⟩

/-! ### A binding that its own cutover moves -/

/-- The ledger that holds one candidate. -/
def briefed : Ledger :=
  { fresh 0 with
    learning := ⟨[⟨"brief", 0, ⟨.instruction "Be brief.", some (.purpose "plan")⟩, "seen",
      .inactive, 1⟩], []⟩ }

theorem briefed_step : (fresh 0).Step (.learn (.record briefCandidate)) briefed := ⟨trivial, rfl⟩

def designing : BaseInstall :=
  ⟨1, "digest", "config.toml", "workspace", "policy", some ⟨["design"], [], nodup_nil⟩⟩

def planRule : IdentityMigration := ⟨1, .role, "plan", "design", .rename, none⟩

/-- The base that declares one purpose, staged beside the instruction for another. -/
def designed : Ledger := briefed.after (.stageForCutover designing firstAssets)

/-- The base with the rule that moves the instruction to the purpose it declares. -/
def designedRuled : Ledger := designed.after (.releaseRules designing [planRule])

theorem designed_step : briefed.Step (.stageForCutover designing firstAssets) designed :=
  ⟨trivial, perform_after (by decide +kernel)⟩

theorem designed_run : Run Step (fresh 0)
    [.learn (.record briefCandidate), .stageForCutover designing firstAssets] designed :=
  .cons briefed_step (.single designed_step)

theorem designedRuled_step : designed.Step (.releaseRules designing [planRule]) designedRuled :=
  ⟨⟨nofun, by decide +kernel⟩, perform_after (by decide +kernel)⟩

theorem designedRuled_binds {kind : List IdentityMigration → String → Prop}
    (hkind : kind [planRule] "plan") :
    ¬ BindsNone (kind (designedRuled.migrationsFor 1)) ⟨["design"], [], .nil⟩
      designedRuled.learning.deltas := by
  have hrules : designedRuled.migrationsFor 1 = [planRule] := by decide +kernel
  have hdeltas : designedRuled.learning.deltas = briefed.learning.deltas := by decide +kernel
  intro hnone
  rw [hrules, hdeltas] at hnone
  exact hnone _ mem_cons_self _ rfl rfl (by decide) hkind

/-- The address of the instruction is sealed, and the cutover moves it to a declared purpose. -/
theorem moved_binding_is_sealed : ¬ ∀ ops ledger op ledger' install semantics,
    Run Step (fresh 0) ops ledger → ledger.Step op ledger' → ledger.Seals install op →
    install.semantics = some semantics →
    Exact (NamedBy (ledger'.migrationsFor install.version))
        (ledger'.migrationsFor install.version) semantics ledger'.learning.deltas
        (ledger'.addresses install.version) ∨
      Exact (MovedBy (ledger'.migrationsFor install.version))
        (ledger'.migrationsFor install.version) semantics ledger'.learning.deltas
        (ledger'.addresses install.version) := by
  intro hclaim
  have hmoved : MovedBy [planRule] "plan" := ⟨planRule, mem_cons_self, rfl, rfl⟩
  have hregular := regular_of_run (regular_fresh 0) designed_run
  have hjudges : designedRuled.Judges designing.version designing.semantics :=
    judges_of_step hregular designedRuled_step rfl
  have hkeys := (regular_of_step hregular designedRuled_step).sound.judged.keys
  rcases hclaim _ _ _ _ designing _ designed_run designedRuled_step rfl rfl with hexact | hexact
  · exact designedRuled_binds hmoved.named
      ((hjudges.binding_iff hkeys fun _ hmoved => hmoved.named).mp hexact).2
  · exact designedRuled_binds hmoved ((hjudges.binding_iff hkeys fun _ hmoved => hmoved).mp hexact).2

/-- Before the rule, the set of the same base is exact. -/
theorem designed_is_exact :
    Exact (NamedBy (designed.migrationsFor 1)) (designed.migrationsFor 1) ⟨["design"], [], .nil⟩
      designed.learning.deltas (designed.addresses 1) := by
  have hrules : designed.migrationsFor 1 = [] := by decide +kernel
  have hunserved : briefed.Unserved designing.version := nofun
  refine (sealed_exactly (.single briefed_step) designed_step ⟨rfl, hunserved⟩ rfl).1.mpr ?_
  rintro delta - binding - - - ⟨rule, hrule, -⟩
  change rule ∈ designed.migrationsFor 1 at hrule
  rw [hrules] at hrule
  cases hrule

end Ledger

end Rivect.Base
