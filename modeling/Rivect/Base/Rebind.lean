import Rivect.Base.Identity
import Rivect.Lib.Rows

/-! # The rebinding pass

`rebind_learning_identities_on` of `src/state/learning.rs`: every stored binding is placed by the
rules before any row moves, and then each placed row moves by its own conditional update.
-/

namespace Rivect.Base

open Lib Learning List

structure StoredBinding where
  deltaId : String
  kind : IdentityKind
  subject : String
  state : DeltaState
  appliesWhen : Option ConditionFact
  decision : Option PredicateEffect
deriving DecidableEq

/-- The binding of a stored delta: its purpose or its capability. -/
def storedBinding (record : DeltaRecord) : Option StoredBinding :=
  match record.change.payload, record.change.condition with
  | .instruction _, some (.purpose purpose) =>
    some ⟨record.deltaId, .role, purpose, record.state, none, none⟩
  | .instruction _, _ => none
  | .applicability capability effect, condition =>
    some ⟨record.deltaId, .action, capability, record.state, condition, some effect⟩

/-- Where the rules move a binding. -/
def target (rules : IdentityRules) (binding : StoredBinding) : Option String :=
  match rules.place binding.kind binding.subject with
  | .rebound moved => if moved ≠ binding.subject then some moved else none
  | .unassigned => none

structure NamedSubject where
  kind : IdentityKind
  subject : String
deriving DecidableEq

structure ReboundSubject where
  deltaId : String
  kind : IdentityKind
  source : String
  target : String
deriving DecidableEq

structure IdentityRebind where
  baseVersion : ℕ
  migrations : List IdentityMigration
  rebound : List ReboundSubject
  unassigned : List NamedSubject
deriving DecidableEq

/-! ## Conclusions that disagree -/

/-- What an active applicability delta decides after the pass. -/
structure Conclusion where
  subject : NamedSubject
  effect : PredicateEffect
  moved : Bool
  appliesWhen : Option ConditionFact
deriving DecidableEq

def canBothApply : Option ConditionFact → Option ConditionFact → Bool
  | some (.kind first), some (.kind second) => first = second
  | _, _ => true

def conclusion (placed : StoredBinding × Option String) : Option Conclusion :=
  match placed.1.decision with
  | some effect =>
    if placed.1.state = .active then
      some ⟨⟨placed.1.kind, placed.2.getD placed.1.subject⟩, effect, placed.2.isSome,
        placed.1.appliesWhen⟩
    else none
  | none => none

def Conclusion.disagrees (first second : Conclusion) : Bool :=
  first.effect ≠ second.effect && (first.moved || second.moved) &&
    canBothApply first.appliesWhen second.appliesWhen

/-- The first pair of one subject that disagrees. -/
def disagreement : List Conclusion → Option (Conclusion × Conclusion)
  | [] => none
  | first :: rest =>
    match rest.find? first.disagrees with
    | some second => some (first, second)
    | none => disagreement rest

def NamedSubject.le (first second : NamedSubject) : Bool :=
  match first.kind, second.kind with
  | .action, .role => true
  | .role, .action => false
  | .action, .action | .role, .role => first.subject ≤ second.subject

/-- The subjects that carry a conclusion, in the order of their keys. -/
def decided (conclusions : List Conclusion) : List NamedSubject :=
  (conclusions.map Conclusion.subject).dedup.mergeSort NamedSubject.le

def conflict (placed : List (StoredBinding × Option String)) : Option IdentityError :=
  let conclusions := placed.filterMap conclusion
  (decided conclusions).findSome? fun named =>
    (disagreement (conclusions.filter (·.subject = named))).map fun pair =>
      .conflictingBindings named.kind named.subject pair.1.effect.asStr pair.2.effect.asStr

/-! ## The moves -/

/-- The row after its move, where the update matches it. -/
def reboundRow (binding : StoredBinding) (moved : String) (record : DeltaRecord) :
    Option DeltaRecord :=
  match binding.kind, record.change.payload with
  | .role, _ =>
    if record.deltaId = binding.deltaId ∧
        record.change.condition = some (.purpose binding.subject) then
      some { record with
        change := ⟨record.change.payload, some (.purpose moved)⟩
        version := record.version + 1 }
    else none
  | .action, .applicability capability effect =>
    if record.deltaId = binding.deltaId ∧ capability = binding.subject then
      some { record with
        change := ⟨.applicability moved effect, record.change.condition⟩
        version := record.version + 1 }
    else none
  | .action, .instruction _ => none

/-- The update of one binding; it answers nothing when no row matches. -/
def rebindDelta (tables : LearningTables) (binding : StoredBinding) (moved : String) :
    Option LearningTables :=
  if tables.deltas.any fun record => (reboundRow binding moved record).isSome then
    some { tables with
      deltas := tables.deltas.map fun record => (reboundRow binding moved record).getD record }
  else none

def rebindPlaced (done : LearningTables × List ReboundSubject)
    (placed : StoredBinding × Option String) :
    Except IdentityError (LearningTables × List ReboundSubject) :=
  match placed.2 with
  | none => .ok done
  | some moved => do
    let tables ← found (rebindDelta done.1 placed.1 moved) (.store .storage)
    .ok (tables, done.2 ++ [⟨placed.1.deltaId, placed.1.kind, placed.1.subject, moved⟩])

def placeAll (rules : IdentityRules) (tables : LearningTables) :
    List (StoredBinding × Option String) :=
  (tables.deltas.filterMap storedBinding).map fun binding => (binding, target rules binding)

/-- The subjects that no rule places, each named once. -/
def unassignedIn (rules : IdentityRules) (tables : LearningTables) : List NamedSubject :=
  ((tables.deltas.filterMap storedBinding).filter fun binding =>
    rules.place binding.kind binding.subject = .unassigned).foldl (fun named binding =>
      if ⟨binding.kind, binding.subject⟩ ∈ named then named
      else named ++ [⟨binding.kind, binding.subject⟩]) []

def rebindLearningIdentities (rules : IdentityRules) (tables : LearningTables) :
    Except IdentityError (LearningTables × IdentityRebind) := do
  let placed := placeAll rules tables
  match conflict placed with
  | some refusal => .error refusal
  | none => do
    let done ← placed.foldlM rebindPlaced (tables, [])
    require (done.2 ≠ [] → done.1.definitionSize ≤ DEFINITION_MAX_BYTES)
      (.compositionExceeded rules.baseVersion done.1.definitionSize DEFINITION_MAX_BYTES)
    .ok (done.1, ⟨rules.baseVersion, rules.migrations, done.2, unassignedIn rules tables⟩)

/-! ## What the pass does to one row -/

/-- The row that the pass leaves for a row. -/
def moveRecord (rules : IdentityRules) (record : DeltaRecord) : DeltaRecord :=
  match storedBinding record with
  | some binding =>
    match target rules binding with
    | some moved => (reboundRow binding moved record).getD record
    | none => record
  | none => record

/-- The move that the pass reports for a row. -/
def reboundSubject (rules : IdentityRules) (record : DeltaRecord) : Option ReboundSubject :=
  match storedBinding record with
  | some binding =>
    (target rules binding).map fun moved => ⟨binding.deltaId, binding.kind, binding.subject, moved⟩
  | none => none

theorem storedBinding_deltaId {record : DeltaRecord} {binding : StoredBinding}
    (h : storedBinding record = some binding) : binding.deltaId = record.deltaId := by
  unfold storedBinding at h
  split at h <;> cases h <;> rfl

theorem reboundRow_own {record : DeltaRecord} {binding : StoredBinding} (moved : String)
    (h : storedBinding record = some binding) :
    ∃ row, reboundRow binding moved record = some row ∧ row.deltaId = record.deltaId ∧
      row.state = record.state ∧ row.version = record.version + 1 ∧
      row.baseVersion = record.baseVersion ∧ row.evidence = record.evidence := by
  unfold storedBinding at h
  split at h
  · rename_i hpayload hcondition
    cases h
    simp [reboundRow, hcondition]
  · cases h
  · rename_i hpayload
    cases h
    simp [reboundRow, hpayload]

theorem reboundRow_other {record : DeltaRecord} {binding : StoredBinding} (moved : String)
    (h : record.deltaId ≠ binding.deltaId) : reboundRow binding moved record = none := by
  unfold reboundRow
  split <;> simp [h]

theorem moveRecord_keeps (rules : IdentityRules) (record : DeltaRecord) :
    (moveRecord rules record).deltaId = record.deltaId ∧
      (moveRecord rules record).state = record.state ∧
      (moveRecord rules record = record ∨
        (moveRecord rules record).version = record.version + 1) := by
  unfold moveRecord
  cases hbinding : storedBinding record with
  | none => exact ⟨rfl, rfl, .inl rfl⟩
  | some binding =>
    cases htarget : target rules binding with
    | none => simp [htarget]
    | some moved =>
      obtain ⟨row, hrow, hid, hstate, hversion, -⟩ := reboundRow_own moved hbinding
      simp [htarget, hrow, hid, hstate, hversion]

@[simp] theorem moveRecord_deltaId (rules : IdentityRules) (record : DeltaRecord) :
    (moveRecord rules record).deltaId = record.deltaId := (moveRecord_keeps rules record).1

@[simp] theorem moveRecord_state (rules : IdentityRules) (record : DeltaRecord) :
    (moveRecord rules record).state = record.state := (moveRecord_keeps rules record).2.1

theorem moveRecord_of_not_reported {rules : IdentityRules} {record : DeltaRecord}
    (h : reboundSubject rules record = none) : moveRecord rules record = record := by
  unfold reboundSubject at h
  unfold moveRecord
  split
  · rename_i binding hbinding
    rw [hbinding] at h
    rw [Option.map_eq_none_iff.mp h]
  · rfl

theorem rebindDelta_own {tables : LearningTables} {front rest : List DeltaRecord}
    {record row : DeltaRecord} {binding : StoredBinding} {moved : String}
    (hdeltas : tables.deltas = front ++ record :: rest)
    (hkeys : UniqueKeys DeltaRecord.deltaId tables.deltas)
    (hid : binding.deltaId = record.deltaId)
    (hrow : reboundRow binding moved record = some row) :
    rebindDelta tables binding moved = some { tables with deltas := front ++ row :: rest } := by
  have hany : (tables.deltas.any fun r => (reboundRow binding moved r).isSome) = true := by
    rw [hdeltas, any_eq_true]
    exact ⟨record, by simp, by simp [hrow]⟩
  have hnodup : (front.map DeltaRecord.deltaId ++ record.deltaId ::
      rest.map DeltaRecord.deltaId).Nodup := by
    have := hkeys
    rw [UniqueKeys, hdeltas] at this
    simpa using this
  have hothers : ∀ l : List DeltaRecord, (∀ r ∈ l, r.deltaId ≠ record.deltaId) →
      l.map (fun r => (reboundRow binding moved r).getD r) = l := by
    intro l hl
    rw [map_congr_left (g := id), map_id]
    intro r hr
    rw [reboundRow_other moved (hid ▸ hl r hr)]
    rfl
  have hfront : ∀ r ∈ front, r.deltaId ≠ record.deltaId := by
    intro r hr heq
    exact (nodup_append.mp hnodup).2.2 r.deltaId (mem_map_of_mem hr) record.deltaId
      mem_cons_self heq
  have hrest : ∀ r ∈ rest, r.deltaId ≠ record.deltaId := by
    intro r hr heq
    exact (nodup_cons.mp (nodup_append.mp hnodup).2.1).1
      (heq ▸ mem_map_of_mem hr)
  unfold rebindDelta
  rw [if_pos hany, hdeltas, map_append, map_cons, hothers front hfront,
    hothers rest hrest, hrow]
  rfl

/-- The loop of the pass moves the rows that are left, each by itself. -/
theorem rebindPlaced_foldlM (rules : IdentityRules) {tables : LearningTables}
    {front rest : List DeltaRecord} {reported : List ReboundSubject}
    (hdeltas : tables.deltas = front ++ rest)
    (hkeys : UniqueKeys DeltaRecord.deltaId tables.deltas) :
    ((rest.filterMap storedBinding).map fun binding => (binding, target rules binding)).foldlM
        rebindPlaced (tables, reported) =
      .ok ({ tables with deltas := front ++ rest.map (moveRecord rules) },
        reported ++ rest.filterMap (reboundSubject rules)) := by
  induction rest generalizing tables front reported with
  | nil =>
    cases tables
    simp_all [pure, Except.pure]
  | cons record rest ih =>
    have hsplit : front ++ record :: rest = (front ++ [record]) ++ rest := by simp
    cases hbinding : storedBinding record with
    | none =>
      have hmove : moveRecord rules record = record := by simp [moveRecord, hbinding]
      have hreport : reboundSubject rules record = none := by simp [reboundSubject, hbinding]
      have := @ih tables (front ++ [record]) reported (hdeltas.trans hsplit) hkeys
      simpa [hbinding, hmove, hreport] using this
    | some binding =>
      cases htarget : target rules binding with
      | none =>
        have hmove : moveRecord rules record = record := by simp [moveRecord, hbinding, htarget]
        have hreport : reboundSubject rules record = none := by
          simp [reboundSubject, hbinding, htarget]
        have := @ih tables (front ++ [record]) reported (hdeltas.trans hsplit) hkeys
        simpa [hbinding, hmove, hreport, htarget, rebindPlaced] using this
      | some moved =>
        obtain ⟨row, hrow, hid, -⟩ := reboundRow_own moved hbinding
        have hmove : moveRecord rules record = row := by
          simp [moveRecord, hbinding, htarget, hrow]
        have hreport : reboundSubject rules record =
            some ⟨binding.deltaId, binding.kind, binding.subject, moved⟩ := by
          simp [reboundSubject, hbinding, htarget]
        have hstep := rebindDelta_own hdeltas hkeys (storedBinding_deltaId hbinding) hrow
        have hkeys' : UniqueKeys DeltaRecord.deltaId (front ++ row :: rest) := by
          have := hkeys
          rw [UniqueKeys, hdeltas] at this
          simpa [UniqueKeys, hid] using this
        have := @ih { tables with deltas := front ++ row :: rest } (front ++ [row])
          (reported ++ [⟨binding.deltaId, binding.kind, binding.subject, moved⟩])
          (by simp) hkeys'
        simpa [hbinding, hmove, hreport, htarget, rebindPlaced, hstep] using this

/-! ## What the check on conclusions leaves -/

theorem canBothApply_comm (first second : Option ConditionFact) :
    canBothApply first second = canBothApply second first := by
  rcases first with _ | (_ | first | _) <;> rcases second with _ | (_ | second | _) <;>
    simp only [canBothApply]
  exact decide_eq_decide.mpr eq_comm

theorem disagrees_symm {first second : Conclusion} (h : first.disagrees second = true) :
    second.disagrees first = true := by
  unfold Conclusion.disagrees at h ⊢
  simp only [Bool.and_eq_true, Bool.or_eq_true, decide_eq_true_eq] at h ⊢
  rw [canBothApply_comm]
  exact ⟨⟨Ne.symm h.1.1, h.1.2.symm⟩, h.2⟩

theorem pairwise_of_disagreement_none {conclusions : List Conclusion}
    (h : disagreement conclusions = none) :
    conclusions.Pairwise fun first second => first.disagrees second = false := by
  induction conclusions with
  | nil => exact .nil
  | cons first rest ih =>
    unfold disagreement at h
    split at h
    · cases h
    · rename_i hfind
      refine .cons ?_ (ih h)
      intro second hsecond
      have := find?_eq_none.mp hfind second hsecond
      simpa using this

theorem pairwise_of_conflict_none {placed : List (StoredBinding × Option String)}
    (h : conflict placed = none) :
    (placed.filterMap conclusion).Pairwise fun first second =>
      first.subject = second.subject → first.disagrees second = false := by
  have hnone : ∀ named ∈ decided (placed.filterMap conclusion),
      disagreement ((placed.filterMap conclusion).filter (·.subject = named)) = none := by
    intro named hnamed
    have := findSome?_eq_none_iff.mp h named hnamed
    simpa using this
  rw [pairwise_iff_forall_sublist]
  intro first second hsub hsame
  have hmem : first ∈ placed.filterMap conclusion := hsub.subset (by simp)
  have hnamed : first.subject ∈ decided (placed.filterMap conclusion) := by
    unfold decided
    rw [mem_mergeSort, mem_dedup]
    exact mem_map_of_mem hmem
  have hpair := pairwise_of_disagreement_none (hnone _ hnamed)
  have hboth := hsub.filter fun c => decide (c.subject = first.subject)
  rw [filter_cons_of_pos (by simp), filter_cons_of_pos (by simp [← hsame]),
    filter_nil] at hboth
  exact (pairwise_iff_forall_sublist.mp hpair) hboth

end Rivect.Base
