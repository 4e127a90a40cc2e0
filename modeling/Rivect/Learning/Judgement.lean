import Mathlib.Algebra.Order.BigOperators.Group.List
import Mathlib.Algebra.Order.Group.Nat
import Rivect.Learning.Store
import Rivect.Lib.Rows

/-! # Judged deltas

What each call on the learning tables writes, and the two facts that hold through all of them:
a verdict for the version that a row has was taken on the payload that the row holds, and the
composed definition does not grow past its bound.
-/

namespace Rivect.Learning

open Lib List

/-! ## The size of a definition -/

theorem foldl_max_le {l : List ℕ} {b n : ℕ} : l.foldl max b ≤ n ↔ b ≤ n ∧ ∀ x ∈ l, x ≤ n := by
  induction l generalizing b with
  | nil => simp
  | cons a l ih =>
    rw [foldl_cons, ih]
    simp [and_assoc]

namespace LearningDefinition

variable {small large : LearningDefinition}

theorem appendedUnder_le (h : small.deltas.Sublist large.deltas)
    (condition : Option ConditionFact) :
    small.appendedUnder condition ≤ large.appendedUnder condition :=
  ((h.filter _).filterMap _).sum_le_sum fun _ _ => Nat.zero_le _

theorem maxInstructionBytes_le (h : small.deltas.Sublist large.deltas) (base : String) :
    small.maxInstructionBytes base ≤ large.maxInstructionBytes base := by
  unfold maxInstructionBytes
  have hpurposes : (small.purposes.map fun purpose =>
      small.appendedUnder (some (.purpose purpose))).foldl max 0 ≤
      (large.purposes.map fun purpose =>
        large.appendedUnder (some (.purpose purpose))).foldl max 0 := by
    rw [foldl_max_le]
    refine ⟨Nat.zero_le _, ?_⟩
    intro size hsize
    obtain ⟨purpose, hpurpose, rfl⟩ := mem_map.mp hsize
    refine (appendedUnder_le h _).trans ?_
    exact (foldl_max_le.mp le_rfl).2 _
      (mem_map_of_mem ((h.filterMap _).subset hpurpose))
  have hplain := appendedUnder_le h none
  omega

end LearningDefinition

/-! ## What a verdict is about -/

section

variable (candidate : LearningDelta) (active : LearningDefinition) (control : Option LearningDelta) (corpusCase : CorpusCase) (base : String)
include candidate active control corpusCase base

@[simp] theorem corpusVerdict_deltaId :
    (corpusVerdict candidate active control corpusCase base).deltaId = candidate.deltaId := by
  unfold corpusVerdict
  split
  · rfl
  · dsimp only
    split <;> rfl
  · rfl

@[simp] theorem corpusVerdict_deltaVersion :
    (corpusVerdict candidate active control corpusCase base).deltaVersion =
      candidate.version := by
  unfold corpusVerdict
  split
  · rfl
  · dsimp only
    split <;> rfl
  · rfl

end

/-- The verdict was taken on this payload. -/
def JudgedFor (verdict : CorpusVerdict) (change : DeltaChange) : Prop :=
  ∃ active control corpusCase, verdict = corpusVerdict ⟨verdict.deltaId, verdict.deltaVersion,
    change⟩ active control corpusCase LARGEST_INSTRUCTION_BASE

/-- Every verdict belongs to a row, and one for the row's version judges the row's payload. -/
structure Judged (tables : LearningTables) : Prop where
  keys : UniqueKeys DeltaRecord.deltaId tables.deltas
  verdicts : ∀ v ∈ tables.corpus, ∃ r ∈ tables.deltas, r.deltaId = v.deltaId ∧
    v.deltaVersion ≤ r.version ∧ (v.deltaVersion = r.version → JudgedFor v r.change)

theorem judged_fresh : Judged .fresh := ⟨UniqueKeys.nil, by simp [LearningTables.fresh]⟩

/-- A writer of rows that keeps each payload or advances its version. -/
theorem Judged.map {tables tables' : LearningTables} (h : Judged tables)
    {f : DeltaRecord → DeltaRecord} (hdeltas : tables'.deltas = tables.deltas.map f)
    (hcorpus : tables'.corpus = tables.corpus) (hid : ∀ r, (f r).deltaId = r.deltaId)
    (hf : ∀ r ∈ tables.deltas, f r = r ∨ r.version < (f r).version) : Judged tables' := by
  refine ⟨hdeltas ▸ h.keys.map hid, ?_⟩
  intro v hv
  rw [hcorpus] at hv
  obtain ⟨r, hr, hkey, hle, hjudged⟩ := h.verdicts v hv
  refine ⟨f r, hdeltas ▸ mem_map_of_mem hr, (hid r).trans hkey, ?_⟩
  rcases hf r hr with hsame | hlt
  · rw [hsame]
    exact ⟨hle, hjudged⟩
  · exact ⟨hle.trans hlt.le, fun heq => absurd heq (by omega)⟩

theorem storedU64_within (value : ℕ) :
    Within Fails (fun stored => stored = value ∧ value < 2 ^ 63)
      (TaskStore.storedU64 value) := by
  apply Within.guard
  intro hlt
  exact ⟨rfl, hlt⟩

namespace LearningTables

/-! ## Recording -/

theorem deltaState_of_dropped {tables : LearningTables}
    (hkeys : UniqueKeys DeltaRecord.deltaId tables.deltas) {keep : ℕ} {r : DeltaRecord}
    (hr : r ∈ tables.deltas)
    (hdropped : r.deltaId ∈ (((tables.deltas.filter (·.state = .inactive)).map
      DeltaRecord.deltaId).reverse).drop keep) : r.state = .inactive := by
  have := mem_reverse.mp (mem_of_mem_drop hdropped)
  obtain ⟨held, hheld, hid⟩ := mem_map.mp this
  rw [mem_filter] at hheld
  rw [← inj_on_of_nodup_map hkeys hheld.1 hr hid]
  simpa using hheld.2

/-- A prune drops whole candidates. -/
structure Pruned (tables tables' : LearningTables) : Prop where
  deltas : tables'.deltas.Sublist tables.deltas
  kept : ∀ r ∈ tables.deltas, r.state ≠ .inactive → r ∈ tables'.deltas
  corpus : ∀ v ∈ tables'.corpus, v ∈ tables.corpus ∧
    ∀ r ∈ tables.deltas, r.deltaId = v.deltaId → r ∈ tables'.deltas

theorem pruned_prune {tables : LearningTables}
    (hkeys : UniqueKeys DeltaRecord.deltaId tables.deltas) (keep : ℕ) :
    Pruned tables (tables.prune keep) := by
  refine ⟨filter_sublist, ?_, ?_⟩
  · intro r hr hstate
    refine mem_filter.mpr ⟨hr, decide_eq_true ?_⟩
    exact fun hdropped => hstate (deltaState_of_dropped hkeys hr hdropped)
  · intro v hv
    obtain ⟨hv, hkept⟩ := mem_filter.mp hv
    refine ⟨hv, fun r hr hid => mem_filter.mpr ⟨hr, decide_eq_true ?_⟩⟩
    rw [hid]
    exact of_decide_eq_true hkept

theorem recordDelta_within (tables : LearningTables) (candidate : DeltaCandidate) :
    Within Fails (fun tables' => (∀ r ∈ tables.deltas, r.deltaId ≠ candidate.deltaId) ∧
        tables' = prune { tables with deltas := tables.deltas ++ [⟨candidate.deltaId,
          candidate.baseVersion, candidate.change, candidate.evidence, .inactive, 1⟩] }
          LEARNING_DELTA_RETENTION)
      (tables.recordDelta candidate) := by
  apply Within.skip
  intro _
  apply Within.bind (storedU64_within candidate.baseVersion)
  rintro _ ⟨rfl, -⟩
  apply Within.guard
  intro hnew
  exact ⟨hnew, rfl⟩

/-! ## Judging -/

theorem foldl_insertVerdict (tables : LearningTables) (verdicts : List CorpusVerdict) :
    (verdicts.foldl insertVerdict tables).deltas = tables.deltas ∧
      ∀ v ∈ (verdicts.foldl insertVerdict tables).corpus, v ∈ tables.corpus ∨ v ∈ verdicts := by
  induction verdicts generalizing tables with
  | nil => exact ⟨rfl, fun v hv => .inl hv⟩
  | cons verdict verdicts ih =>
    obtain ⟨hdeltas, hcorpus⟩ := ih (insertVerdict tables verdict)
    refine ⟨hdeltas, ?_⟩
    intro v hv
    rcases hcorpus v hv with hv | hv
    · rcases mem_append.mp hv with hv | hv
      · exact .inl (mem_of_mem_filter hv)
      · rw [mem_singleton.mp hv]
        exact .inr mem_cons_self
    · exact .inr (mem_cons_of_mem _ hv)

theorem mem_of_deltaRecord {tables : LearningTables} {deltaId : String} {r : DeltaRecord}
    (h : tables.deltaRecord deltaId = some r) : r ∈ tables.deltas ∧ r.deltaId = deltaId :=
  ⟨mem_of_find?_eq_some h, by simpa using find?_some h⟩

/-- A corpus run leaves the rows and judges the row that it names as it is. -/
theorem recordCorpus_within (tables : LearningTables) (deltaId : String)
    (cases : List CorpusCase) :
    Within Fails (fun tables' => tables'.deltas = tables.deltas ∧
        ∀ v ∈ tables'.corpus, v ∈ tables.corpus ∨ ∃ r ∈ tables.deltas,
          r.deltaId = v.deltaId ∧ v.deltaVersion = r.version ∧ JudgedFor v r.change)
      (tables.recordCorpus deltaId cases) := by
  apply Within.look
  intro record hrecord
  obtain ⟨hmem, hid⟩ := mem_of_deltaRecord hrecord
  apply Within.skip
  intro _
  split
  · trivial
  · apply Within.skip
    intro controls
    obtain ⟨hdeltas, hcorpus⟩ := foldl_insertVerdict tables
      ((cases.zip controls).map fun case =>
        corpusVerdict record.delta tables.definition case.2 case.1 LARGEST_INSTRUCTION_BASE)
    refine ⟨hdeltas, ?_⟩
    intro v hv
    rcases hcorpus v hv with hv | hv
    · exact .inl hv
    · obtain ⟨case, -, rfl⟩ := mem_map.mp hv
      right
      refine ⟨record, hmem, by simp [DeltaRecord.delta], by simp [DeltaRecord.delta],
        tables.definition, case.2, case.1, ?_⟩
      simp [DeltaRecord.delta]

/-! ## The two transitions -/

/-- A row after a transition that names it. -/
def transitRow (deltaId : String) (source target : DeltaState) (version : ℕ) (r : DeltaRecord) :
    DeltaRecord :=
  if r.deltaId = deltaId ∧ r.state = source ∧ r.version = version then
    { r with state := target, version := r.version + 1 }
  else r

/-- The tables after a transition that names a row. -/
def transit (tables : LearningTables) (deltaId : String) (source target : DeltaState)
    (version : ℕ) : LearningTables :=
  { tables with deltas := tables.deltas.map (transitRow deltaId source target version) }

theorem transitRow_deltaId (deltaId : String) (source target : DeltaState) (version : ℕ)
    (r : DeltaRecord) : (transitRow deltaId source target version r).deltaId = r.deltaId := by
  unfold transitRow
  split <;> rfl

theorem transitRow_keeps (deltaId : String) (source target : DeltaState) (version : ℕ)
    (r : DeltaRecord) :
    transitRow deltaId source target version r = r ∨
      r.version < (transitRow deltaId source target version r).version := by
  unfold transitRow
  split
  · exact .inr (Nat.lt_succ_self _)
  · exact .inl rfl

theorem transition_eq_some {tables tables' : LearningTables} {deltaId : String}
    {source target : DeltaState} {version : ℕ}
    (h : tables.transition deltaId source target version = some tables') :
    tables' = tables.transit deltaId source target version ∧
      ∃ r ∈ tables.deltas, r.deltaId = deltaId ∧ r.state = source ∧ r.version = version := by
  unfold transition at h
  split at h
  · rename_i hany
    cases h
    exact ⟨rfl, by simpa using hany⟩
  · cases h

theorem mem_of_corpusOn {tables : LearningTables} {deltaId : String} {v : CorpusVerdict}
    (h : v ∈ tables.corpusOn deltaId) : v ∈ tables.corpus ∧ v.deltaId = deltaId := by
  obtain ⟨kind, -, hfind⟩ := mem_filterMap.mp h
  have hkey : v.deltaId = deltaId ∧ v.kind = kind := by simpa using find?_some hfind
  exact ⟨mem_of_find?_eq_some hfind, hkey.1⟩

/-- What an activation needs: the pinned row, and a passed verdict of each kind for the pin. -/
def Activates (tables : LearningTables) (deltaId : String) (expectedVersion : ℕ) : Prop :=
  (∃ r ∈ tables.deltas, r.deltaId = deltaId ∧ r.state = .inactive ∧
    r.version = expectedVersion) ∧
  ∀ kind : CorpusCaseKind, ∃ v ∈ tables.corpus, v.deltaId = deltaId ∧ v.kind = kind ∧
    v.deltaVersion = expectedVersion ∧ v.passed = true

theorem activate_within (tables : LearningTables) (deltaId : String) (expectedVersion : ℕ) :
    Within Fails (fun tables' => tables.Activates deltaId expectedVersion ∧
        tables' = tables.transit deltaId .inactive .active expectedVersion ∧
        tables'.definitionSize ≤ DEFINITION_MAX_BYTES)
      (tables.activate deltaId expectedVersion) := by
  apply Within.skip
  intro record
  have hcorpus : Within Fails
      (fun _ => ∀ kind ∈ [CorpusCaseKind.transfer, .composition, .negativeControl],
        ∃ v ∈ tables.corpus, v.deltaId = deltaId ∧ v.kind = kind ∧
          v.deltaVersion = expectedVersion ∧ v.passed = true)
      (requireCorpus deltaId expectedVersion (tables.corpusOn deltaId)) := by
    apply Within.forM
    intro kind _
    apply Within.look
    intro v hfind
    refine (Within.require fun _ => trivial).imp fun _ hpassed => ?_
    obtain ⟨hmem, hid⟩ := mem_of_corpusOn (mem_of_find?_eq_some hfind)
    have hkey : v.deltaVersion = expectedVersion ∧ v.kind = kind := by
      simpa using find?_some hfind
    exact ⟨v, hmem, hid, hkey.2, hkey.1, hpassed⟩
  apply Within.bind hcorpus
  intro _ hverdicts
  apply Within.bind (storedU64_within expectedVersion)
  rintro _ ⟨rfl, -⟩
  apply Within.look
  intro tables' htransition
  obtain ⟨htables, hrow⟩ := transition_eq_some htransition
  apply Within.guard
  intro hsize
  refine ⟨⟨hrow, ?_⟩, htables, hsize⟩
  intro kind
  exact hverdicts kind (by cases kind <;> simp)

theorem rollBack_within (tables : LearningTables) (deltaId : String) (expectedVersion : ℕ) :
    Within Fails
      (fun tables' => tables' = tables.transit deltaId .active .rolledBack expectedVersion)
      (tables.rollBack deltaId expectedVersion) := by
  apply Within.skip
  intro record
  apply Within.bind (storedU64_within expectedVersion)
  rintro _ ⟨rfl, -⟩
  exact (Within.found fun _ => trivial).imp fun _ h => (transition_eq_some h).1

end LearningTables

end Rivect.Learning
