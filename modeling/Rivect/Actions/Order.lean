import Mathlib.Data.String.Basic
import Rivect.Actions.Facts
import Rivect.Lib.Layers

/-! # The order of a plan's parts

`dependency_order` of `src/actions.rs`: the checks of the parts, and the passes that place each part
behind the parts it depends on.
-/

namespace Rivect

open Lib List

def ARRAY_MAX_ITEMS : ℕ := 200

def PART_ID_MAX_BYTES : ℕ := 64

inductive ActionError where
  | emptyPlan
  | planTooLarge (max : ℕ)
  | invalidPartId (part : String)
  | proofTooLarge (part : String) (max : ℕ)
  | duplicatePart (part : String)
  | unknownDependency (part dependency : String)
  | dependencyCycle (part : String)
deriving DecidableEq

def legalId (raw : String) : Bool :=
  raw ≠ "" && raw.utf8ByteSize ≤ PART_ID_MAX_BYTES &&
    raw.toList.all fun c => c.isAlphanum || c = '.' || c = '_' || c = '-'

/-- The checks of one part, and the ids once it is among them. -/
def admitPart (ids : List String) (part : WorkPart) : Except ActionError (List String) := do
  require (part.criteria.length ≤ ARRAY_MAX_ITEMS ∧ part.dependsOn.length ≤ ARRAY_MAX_ITEMS)
    (.planTooLarge ARRAY_MAX_ITEMS)
  require (legalId part.id = true) (.invalidPartId part.id)
  require (part.proof.utf8ByteSize ≤ TEXT_MAX_BYTES) (.proofTooLarge part.id TEXT_MAX_BYTES)
  require (part.id ∉ ids) (.duplicatePart part.id)
  .ok (ids ++ [part.id])

def knownDependencies (ids : List String) (part : WorkPart) : Except ActionError Unit :=
  match part.dependsOn.find? (· ∉ ids) with
  | some dependency => .error (.unknownDependency part.id dependency)
  | none => .ok ()

def checkParts (parts : List WorkPart) : Except ActionError Unit := do
  require (parts ≠ []) .emptyPlan
  require (parts.length ≤ ARRAY_MAX_ITEMS) (.planTooLarge ARRAY_MAX_ITEMS)
  let ids ← parts.foldlM admitPart []
  parts.forM (knownDependencies ids)

def dependencyOrder (parts : List WorkPart) : Except ActionError (List String) := do
  checkParts parts
  (arranged WorkPart.id WorkPart.dependsOn parts []).mapError fun stuck =>
    .dependencyCycle stuck.id

/-! ## The checks -/

/-- The part keeps the bounds of a plan. -/
structure WorkPart.Bounded (part : WorkPart) : Prop where
  criteria : part.criteria.length ≤ ARRAY_MAX_ITEMS
  dependsOn : part.dependsOn.length ≤ ARRAY_MAX_ITEMS
  proof : part.proof.utf8ByteSize ≤ TEXT_MAX_BYTES

/-- The plan is neither empty nor over a bound. -/
structure PlanBounded (parts : List WorkPart) : Prop where
  some_part : parts ≠ []
  length : parts.length ≤ ARRAY_MAX_ITEMS
  bounded : ∀ part ∈ parts, part.Bounded

/-- The ids are legal and distinct, and every dependency is one of them. -/
structure WellNamed (parts : List WorkPart) : Prop where
  legal : ∀ part ∈ parts, legalId part.id = true
  distinct : (parts.map WorkPart.id).Nodup
  known : ∀ part ∈ parts, ∀ d ∈ part.dependsOn, d ∈ parts.map WorkPart.id

/-- `a` names a part that depends on `b`. -/
def PartDependsOn (parts : List WorkPart) : String → String → Prop :=
  DependsOn WorkPart.id WorkPart.dependsOn parts

def AcyclicParts (parts : List WorkPart) : Prop :=
  ∀ a, ¬ Relation.TransGen (PartDependsOn parts) a a

variable {parts : List WorkPart} {ids ids' : List String} {part : WorkPart}

theorem admitPart_ok : admitPart ids part = .ok ids' ↔
    (part.Bounded ∧ legalId part.id = true ∧ part.id ∉ ids) ∧ ids' = ids ++ [part.id] := by
  constructor
  · intro h
    obtain ⟨_, hlists, h⟩ := bind_eq_ok h
    obtain ⟨_, hlegal, h⟩ := bind_eq_ok h
    obtain ⟨_, hproof, h⟩ := bind_eq_ok h
    obtain ⟨_, hnew, h⟩ := bind_eq_ok h
    injection h with h
    obtain ⟨hcriteria, hdepends⟩ := require_eq_ok hlists
    exact ⟨⟨⟨hcriteria, hdepends, require_eq_ok hproof⟩, require_eq_ok hlegal,
      require_eq_ok hnew⟩, h.symm⟩
  · rintro ⟨⟨hbounded, hlegal, hnew⟩, rfl⟩
    unfold admitPart
    rw [require_pos ⟨hbounded.criteria, hbounded.dependsOn⟩, require_pos hlegal,
      require_pos hbounded.proof, require_pos hnew]
    rfl

theorem admitParts_ok (parts : List WorkPart) (ids : List String) :
    parts.foldlM admitPart ids = .ok ids' ↔
      (∀ part ∈ parts, part.Bounded ∧ legalId part.id = true ∧ part.id ∉ ids) ∧
        (parts.map WorkPart.id).Nodup ∧ ids' = ids ++ parts.map WorkPart.id := by
  induction parts generalizing ids with
  | nil =>
    rw [foldlM_nil, map_nil, append_nil]
    constructor
    · intro h
      injection h with h
      exact ⟨fun _ hpart => absurd hpart not_mem_nil, nodup_nil, h.symm⟩
    · rintro ⟨-, -, rfl⟩
      rfl
  | cons part parts ih =>
    rw [foldlM_cons, map_cons, nodup_cons, forall_mem_cons]
    constructor
    · intro h
      obtain ⟨admitted, hadmit, h⟩ := bind_eq_ok h
      obtain ⟨hpart, rfl⟩ := admitPart_ok.mp hadmit
      obtain ⟨hparts, hdistinct, rfl⟩ := (ih _).mp h
      refine ⟨⟨hpart, fun other hother => ?_⟩, ⟨?_, hdistinct⟩, by simp⟩
      · obtain ⟨hbounded, hlegal, hnew⟩ := hparts other hother
        exact ⟨hbounded, hlegal, fun hmem => hnew (mem_append_left _ hmem)⟩
      · intro hmem
        obtain ⟨other, hother, hid⟩ := mem_map.mp hmem
        exact (hparts other hother).2.2 (mem_append_right _ (hid ▸ mem_cons_self))
    · rintro ⟨⟨hpart, hparts⟩, ⟨hnew, hdistinct⟩, rfl⟩
      rw [admitPart_ok.mpr ⟨hpart, rfl⟩, ok_bind]
      refine (ih _).mpr ⟨fun other hother => ?_, hdistinct, by simp⟩
      obtain ⟨hbounded, hlegal, hnot⟩ := hparts other hother
      refine ⟨hbounded, hlegal, fun hmem => ?_⟩
      rcases mem_append.mp hmem with hmem | hmem
      · exact hnot hmem
      · exact hnew (mem_singleton.mp hmem ▸ mem_map_of_mem hother)

theorem knownDependencies_ok (ids : List String) (part : WorkPart) :
    knownDependencies ids part = .ok () ↔ ∀ d ∈ part.dependsOn, d ∈ ids := by
  unfold knownDependencies
  cases hfind : part.dependsOn.find? (· ∉ ids) with
  | none => exact ⟨fun _ d hd => by simpa using find?_eq_none.mp hfind d hd, fun _ => rfl⟩
  | some d =>
    refine ⟨nofun, fun hall => ?_⟩
    have hunknown : d ∉ ids := by simpa using find?_some hfind
    exact absurd (hall d (mem_of_find?_eq_some hfind)) hunknown

theorem forM_eq_ok {α ε : Type} {f : α → Except ε Unit} (l : List α) :
    l.forM f = .ok () ↔ ∀ a ∈ l, f a = .ok () := by
  induction l with
  | nil => exact ⟨fun _ _ ha => absurd ha not_mem_nil, fun _ => rfl⟩
  | cons a l ih =>
    rw [forall_mem_cons, ← ih]
    constructor
    · intro h
      obtain ⟨_, ha, hl⟩ := bind_eq_ok h
      exact ⟨ha, hl⟩
    · rintro ⟨ha, hl⟩
      change (f a >>= fun _ => l.forM f) = _
      rw [ha]
      exact hl

/-- The parts pass every check. -/
structure Checked (parts : List WorkPart) : Prop where
  plan : PlanBounded parts
  named : WellNamed parts

theorem checkParts_ok : checkParts parts = .ok () ↔ Checked parts := by
  constructor
  · intro h
    obtain ⟨_, hsome, h⟩ := bind_eq_ok h
    obtain ⟨_, hlength, h⟩ := bind_eq_ok h
    obtain ⟨ids, hids, hknown⟩ := bind_eq_ok h
    obtain ⟨hparts, hdistinct, rfl⟩ := (admitParts_ok parts []).mp hids
    have hknown := (forM_eq_ok parts).mp hknown
    refine ⟨⟨require_eq_ok hsome, require_eq_ok hlength, fun part hpart => ?_⟩,
      fun part hpart => ?_, hdistinct, fun part hpart => ?_⟩
    · exact (hparts part hpart).1
    · exact (hparts part hpart).2.1
    · exact (knownDependencies_ok _ part).mp (hknown part hpart)
  · rintro ⟨hplan, hnamed⟩
    have hids := (admitParts_ok parts []).mpr ⟨fun part hpart =>
      ⟨hplan.bounded part hpart, hnamed.legal part hpart, not_mem_nil⟩, hnamed.distinct, rfl⟩
    have hknown := (forM_eq_ok parts).mpr fun part hpart =>
      (knownDependencies_ok (parts.map WorkPart.id) part).mpr (hnamed.known part hpart)
    rw [checkParts, require_pos hplan.some_part, require_pos hplan.length, hids, nil_append]
    exact hknown

/-- A refusal that names no cycle. -/
def NotCycle (e : ActionError) : Prop := ∀ part, e ≠ .dependencyCycle part

theorem admitPart_error (ids : List String) (part : WorkPart) :
    Within NotCycle (fun _ => True) (admitPart ids part) := by
  refine Within.bind (Within.require fun _ => nofun) fun _ _ => ?_
  refine Within.bind (Within.require fun _ => nofun) fun _ _ => ?_
  refine Within.bind (Within.require fun _ => nofun) fun _ _ => ?_
  exact Within.bind (Within.require fun _ => nofun) fun _ _ => trivial

theorem knownDependencies_error (ids : List String) (part : WorkPart) :
    Within NotCycle (fun _ => True) (knownDependencies ids part) := by
  unfold knownDependencies
  split
  · exact nofun
  · trivial

theorem checkParts_error (parts : List WorkPart) :
    Within NotCycle (fun _ => True) (checkParts parts) := by
  refine Within.bind (Within.require fun _ => nofun) fun _ _ => ?_
  refine Within.bind (Within.require fun _ => nofun) fun _ _ => ?_
  refine Within.bind (Within.foldlM (fun _ _ => True) (fun _ part ids _ _ =>
    admitPart_error ids part) trivial) fun ids _ => ?_
  exact (Within.forM (R := fun _ => True) fun part _ => knownDependencies_error ids part).imp
    fun _ _ => trivial

/-! ## The order -/

theorem dependencyOrder_ok {order : List String} : dependencyOrder parts = .ok order ↔
    Checked parts ∧ arranged WorkPart.id WorkPart.dependsOn parts [] = .ok order := by
  rw [← checkParts_ok]
  constructor
  · intro h
    obtain ⟨_, hchecked, h⟩ := bind_eq_ok h
    refine ⟨hchecked, ?_⟩
    cases harranged : arranged WorkPart.id WorkPart.dependsOn parts [] with
    | ok placed =>
      rw [harranged] at h
      injection h with h
      rw [h]
    | error stuck =>
      rw [harranged] at h
      cases h
  · rintro ⟨hchecked, harranged⟩
    rw [dependencyOrder, hchecked, ok_bind, harranged]
    rfl

/-- An order is returned for the checked parts without a cycle, and for no others. -/
theorem dependencyOrder_isOk : (∃ order, dependencyOrder parts = .ok order) ↔
    Checked parts ∧ AcyclicParts parts := by
  constructor
  · rintro ⟨order, h⟩
    obtain ⟨hchecked, harranged⟩ := dependencyOrder_ok.mp h
    obtain ⟨hplaced, hall⟩ := arranged_ok (Placed.nil parts) harranged
    exact ⟨hchecked, hplaced.acyclic hchecked.named.distinct hall⟩
  · rintro ⟨hchecked, hacyclic⟩
    cases harranged : arranged WorkPart.id WorkPart.dependsOn parts [] with
    | ok order => exact ⟨order, dependencyOrder_ok.mpr ⟨hchecked, harranged⟩⟩
    | error stuck =>
      obtain ⟨final, hstuck⟩ := arranged_error harranged
      obtain ⟨c, -, hcycle⟩ := hstuck.cycle hchecked.named.known
      exact absurd hcycle (hacyclic c)

/-- Every part comes after all that it depends on. -/
def Behind (parts : List WorkPart) (order : List String) : Prop :=
  ∀ part ∈ parts, ∀ d ∈ part.dependsOn, order.idxOf d < order.idxOf part.id

theorem dependencyOrder_sorted {order : List String} (h : dependencyOrder parts = .ok order) :
    order.Perm (parts.map WorkPart.id) ∧ Behind parts order := by
  obtain ⟨hchecked, harranged⟩ := dependencyOrder_ok.mp h
  obtain ⟨hplaced, hall⟩ := arranged_ok (Placed.nil parts) harranged
  refine ⟨hplaced.perm hchecked.named.distinct hall, fun part hpart d hd => ?_⟩
  exact hplaced.lt hchecked.named.distinct hall ⟨part, hpart, rfl, hd⟩

theorem dependencyOrder_cycle {id : String}
    (h : dependencyOrder parts = .error (.dependencyCycle id)) :
    id ∈ parts.map WorkPart.id ∧ ∃ c, Relation.ReflTransGen (PartDependsOn parts) id c ∧
      Relation.TransGen (PartDependsOn parts) c c := by
  cases hcheck : checkParts parts with
  | error e =>
    rw [dependencyOrder, hcheck, error_bind] at h
    injection h with h
    exact absurd h ((checkParts_error parts).of_error hcheck id)
  | ok _ =>
    rw [dependencyOrder, hcheck, ok_bind] at h
    cases harranged : arranged WorkPart.id WorkPart.dependsOn parts [] with
    | ok order =>
      rw [harranged] at h
      cases h
    | error stuck =>
      rw [harranged] at h
      injection h with h
      injection h with h
      obtain ⟨final, hstuck⟩ := arranged_error harranged
      rw [← h]
      exact ⟨mem_map_of_mem hstuck.held, hstuck.cycle (checkParts_ok.mp hcheck).named.known⟩

/-- An order is returned exactly for checked parts without a cycle; it holds every part once, behind
all it depends on. A reported part is on a cycle or depends on one. -/
theorem dependencyOrder_exact (parts : List WorkPart) :
    ((∃ order, dependencyOrder parts = .ok order) ↔
      (PlanBounded parts ∧ WellNamed parts) ∧ AcyclicParts parts) ∧
    (∀ order, dependencyOrder parts = .ok order →
      order.Perm (parts.map WorkPart.id) ∧ Behind parts order) ∧
    (∀ id, dependencyOrder parts = .error (.dependencyCycle id) →
      id ∈ parts.map WorkPart.id ∧ ∃ c, Relation.ReflTransGen (PartDependsOn parts) id c ∧
        Relation.TransGen (PartDependsOn parts) c c) := by
  refine ⟨?_, fun _ => dependencyOrder_sorted, fun _ => dependencyOrder_cycle⟩
  rw [dependencyOrder_isOk]
  constructor
  · rintro ⟨⟨hplan, hnamed⟩, hacyclic⟩
    exact ⟨⟨hplan, hnamed⟩, hacyclic⟩
  · rintro ⟨⟨hplan, hnamed⟩, hacyclic⟩
    exact ⟨⟨hplan, hnamed⟩, hacyclic⟩

/-- `a` waits for `b`, and `b` for itself. -/
def besideCycle : List WorkPart := [⟨"a", [], ["b"], ""⟩, ⟨"b", [], ["b"], ""⟩]

/-- No parts are refused though nothing is wrong with their names, and a part that is on no cycle is
reported for one. -/
theorem order_refused :
    (WellNamed [] ∧ AcyclicParts [] ∧ dependencyOrder [] = .error .emptyPlan) ∧
    (dependencyOrder besideCycle = .error (.dependencyCycle "a") ∧
      ¬ Relation.TransGen (PartDependsOn besideCycle) "a" "a") := by
  have hnone : AcyclicParts [] := by
    intro a hcycle
    obtain ⟨_, ⟨_, hpart, _⟩, _⟩ := Relation.TransGen.head'_iff.mp hcycle
    cases hpart
  have hnamed : WellNamed [] :=
    ⟨fun _ hpart => absurd hpart not_mem_nil, nodup_nil,
      fun _ hpart => absurd hpart not_mem_nil⟩
  refine ⟨⟨hnamed, hnone, rfl⟩, ?_, ?_⟩
  · have hcheck : checkParts besideCycle = .ok () := by decide
    have hstuck : arranged WorkPart.id WorkPart.dependsOn besideCycle [] =
        .error ⟨"a", [], ["b"], ""⟩ := by
      rw [arranged]
      rfl
    rw [dependencyOrder, hcheck, ok_bind, hstuck]
    rfl
  · intro hcycle
    have hb : ∀ c, Relation.TransGen (PartDependsOn besideCycle) "a" c → c = "b" := by
      intro c hc
      obtain ⟨_, _, part, hpart, _, hdep⟩ := Relation.TransGen.tail'_iff.mp hc
      rcases mem_cons.mp hpart with rfl | hpart
      · exact mem_singleton.mp hdep
      · rw [mem_singleton.mp hpart] at hdep
        exact mem_singleton.mp hdep
    exact absurd (hb "a" hcycle) (by decide)

end Rivect
