import Mathlib.Data.String.Basic
import Mathlib.Order.Bounds.Basic
import Rivect.Learning.Judgement

/-! # The largest instruction part

`instruction_part` and `max_instruction_bytes` of `src/learning.rs`. The first renders the part that
one purpose's request carries; the second reads the bound off one pass over the deltas that keeps a
sum for each purpose they name.
-/

namespace Rivect.Learning

open List

namespace LearningDefinition

def instructionPart (definition : LearningDefinition) (purpose base : String) : String :=
  definition.deltas.foldl (fun part delta =>
    match delta.change.instruction with
    | none => part
    | some text =>
      if delta.change.applies (.forPurpose purpose) then part.push '\n' ++ text else part) base

/-! ## The pass over the deltas -/

/-- `heaviest_by_purpose` as its entries, and the bytes of the unconditional deltas. -/
structure Weighed where
  heaviestByPurpose : List (String × ℕ)
  unconditional : ℕ
deriving DecidableEq

/-- `*map.entry(purpose).or_default() += appended`. -/
def addTo (purpose : String) (appended : ℕ) : List (String × ℕ) → List (String × ℕ)
  | [] => [(purpose, appended)]
  | (named, bytes) :: entries =>
    if named = purpose then (named, bytes + appended) :: entries
    else (named, bytes) :: addTo purpose appended entries

def Weighed.take (weighed : Weighed) (delta : LearningDelta) : Weighed :=
  match delta.appendedBytes with
  | none => weighed
  | some appended =>
    match delta.change.condition with
    | some (.purpose purpose) =>
      { weighed with heaviestByPurpose := addTo purpose appended weighed.heaviestByPurpose }
    | some _ => weighed
    | none => { weighed with unconditional := weighed.unconditional + appended }

def weighed (definition : LearningDefinition) : Weighed :=
  definition.deltas.foldl Weighed.take ⟨[], 0⟩

/-- The bound as the pass computes it. -/
def heaviestPart (definition : LearningDefinition) (base : String) : ℕ :=
  base.utf8ByteSize + definition.weighed.unconditional +
    (definition.weighed.heaviestByPurpose.map Prod.snd).foldl max 0

/-! ## The bytes of a rendered part -/

variable {definition small large : LearningDefinition}

/-- What one delta appends under a condition. -/
def share (delta : LearningDelta) (condition : Option ConditionFact) : ℕ :=
  if delta.change.condition = condition then delta.appendedBytes.getD 0 else 0

theorem appendedUnder_append (deltas : List LearningDelta) (delta : LearningDelta)
    (condition : Option ConditionFact) :
    appendedUnder ⟨deltas ++ [delta]⟩ condition =
      appendedUnder ⟨deltas⟩ condition + share delta condition := by
  unfold appendedUnder share
  by_cases h : delta.change.condition = condition
  · cases hbytes : delta.appendedBytes <;> simp [h, hbytes]
  · simp [h]

/-- A delta applies where a part is assembled when it has no condition or names the purpose. -/
theorem applies_forPurpose (delta : LearningDelta) (purpose : String) :
    delta.change.applies (.forPurpose purpose) = true ↔
      delta.change.condition = none ∨ delta.change.condition = some (.purpose purpose) := by
  unfold DeltaChange.applies
  cases hcondition : delta.change.condition with
  | none => simp
  | some fact => cases fact <;> simp [ConditionFact.holds, ConditionFacts.forPurpose, eq_comm]

theorem instructionPart_append (deltas : List LearningDelta) (delta : LearningDelta)
    (purpose base : String) :
    (instructionPart ⟨deltas ++ [delta]⟩ purpose base).utf8ByteSize =
      (instructionPart ⟨deltas⟩ purpose base).utf8ByteSize +
        (share delta none + share delta (some (.purpose purpose))) := by
  rw [instructionPart, foldl_append, foldl_cons, foldl_nil]
  change String.utf8ByteSize (match delta.change.instruction with
    | none => instructionPart ⟨deltas⟩ purpose base
    | some text => if delta.change.applies (.forPurpose purpose) then
        (instructionPart ⟨deltas⟩ purpose base).push '\n' ++ text
      else instructionPart ⟨deltas⟩ purpose base) = _
  unfold share LearningDelta.appendedBytes
  cases hinstruction : delta.change.instruction with
  | none => simp
  | some text =>
    by_cases happlies : delta.change.applies (.forPurpose purpose) = true
    · have hline : Char.utf8Size '\n' = 1 := by decide
      simp only [if_pos happlies]
      rw [String.utf8ByteSize_append, String.utf8ByteSize_push, hline]
      rcases (applies_forPurpose delta purpose).mp happlies with hcondition | hcondition
      · simp [hcondition]
        omega
      · simp [hcondition]
        omega
    · have hconditions := not_or.mp fun h => happlies ((applies_forPurpose delta purpose).mpr h)
      simp [happlies, hconditions.1, hconditions.2]

theorem instructionPart_bytes (definition : LearningDefinition) (purpose base : String) :
    (definition.instructionPart purpose base).utf8ByteSize =
      base.utf8ByteSize + definition.appendedUnder none +
        definition.appendedUnder (some (.purpose purpose)) := by
  obtain ⟨deltas⟩ := definition
  induction deltas using reverseRecOn with
  | nil => rfl
  | append_singleton deltas delta ih =>
    rw [instructionPart_append, ih, appendedUnder_append, appendedUnder_append]
    omega

/-! ## The sums of the pass -/

/-- The bytes that the entries hold for a purpose. -/
def heldFor : List (String × ℕ) → String → ℕ
  | [], _ => 0
  | (named, bytes) :: entries, purpose =>
    if named = purpose then bytes else heldFor entries purpose

theorem heldFor_addTo (entries : List (String × ℕ)) (named purpose : String) (appended : ℕ) :
    heldFor (addTo named appended entries) purpose =
      heldFor entries purpose + if named = purpose then appended else 0 := by
  induction entries with
  | nil => simp [addTo, heldFor]
  | cons entry entries ih =>
    obtain ⟨key, bytes⟩ := entry
    rw [addTo, heldFor]
    by_cases hkey : key = named
    · rw [if_pos hkey, heldFor]
      by_cases hpurpose : key = purpose
      · rw [if_pos hpurpose, if_pos hpurpose, if_pos (hkey ▸ hpurpose)]
      · rw [if_neg hpurpose, if_neg hpurpose, if_neg (hkey ▸ hpurpose), Nat.add_zero]
    · rw [if_neg hkey, heldFor]
      by_cases hpurpose : key = purpose
      · rw [if_pos hpurpose, if_pos hpurpose, if_neg (hpurpose ▸ Ne.symm hkey), Nat.add_zero]
      · rw [if_neg hpurpose, if_neg hpurpose, ih]

/-- What the entries hold for a key of theirs is an entry. -/
theorem mem_of_heldFor {entries : List (String × ℕ)} {purpose : String}
    (h : purpose ∈ entries.map Prod.fst) : (purpose, heldFor entries purpose) ∈ entries := by
  induction entries with
  | nil => cases h
  | cons entry entries ih =>
    obtain ⟨key, bytes⟩ := entry
    rw [heldFor]
    by_cases hkey : key = purpose
    · rw [if_pos hkey, hkey]
      exact mem_cons_self
    · rw [if_neg hkey]
      exact mem_cons_of_mem _ (ih ((mem_cons.mp h).resolve_left (Ne.symm hkey)))

theorem heldFor_of_mem {entries : List (String × ℕ)} (hkeys : (entries.map Prod.fst).Nodup)
    {purpose : String} {bytes : ℕ} (h : (purpose, bytes) ∈ entries) :
    heldFor entries purpose = bytes := by
  have hheld := mem_of_heldFor (mem_map_of_mem h)
  exact congrArg Prod.snd (inj_on_of_nodup_map hkeys hheld h rfl)

theorem heldFor_eq_zero {entries : List (String × ℕ)} {purpose : String}
    (h : purpose ∉ entries.map Prod.fst) : heldFor entries purpose = 0 := by
  induction entries with
  | nil => rfl
  | cons entry entries ih =>
    have hkey : entry.1 ≠ purpose := fun heq => h (mem_cons.mpr (Or.inl heq.symm))
    rw [heldFor, if_neg hkey]
    exact ih fun hmem => h (mem_cons_of_mem _ hmem)

theorem keys_addTo (entries : List (String × ℕ)) (named : String) (appended : ℕ) :
    (addTo named appended entries).map Prod.fst =
      if named ∈ entries.map Prod.fst then entries.map Prod.fst
      else entries.map Prod.fst ++ [named] := by
  induction entries with
  | nil => rfl
  | cons entry entries ih =>
    obtain ⟨key, bytes⟩ := entry
    rw [addTo]
    by_cases hkey : key = named
    · simp [hkey]
    · rw [if_neg hkey, map_cons, ih]
      by_cases hmem : named ∈ entries.map Prod.fst
      · simp [hmem]
      · simp [hmem, Ne.symm hkey]

/-- What the pass holds once it has seen the deltas. -/
structure Weighs (definition : LearningDefinition) (weighed : Weighed) : Prop where
  unconditional : weighed.unconditional = definition.appendedUnder none
  purposes : ∀ purpose, heldFor weighed.heaviestByPurpose purpose =
    definition.appendedUnder (some (.purpose purpose))
  keys : (weighed.heaviestByPurpose.map Prod.fst).Nodup

theorem Weighs.take {deltas : List LearningDelta} {w : Weighed} (h : Weighs ⟨deltas⟩ w)
    (delta : LearningDelta) : Weighs ⟨deltas ++ [delta]⟩ (w.take delta) := by
  have hshare := appendedUnder_append deltas delta
  unfold share at hshare
  unfold Weighed.take
  cases hbytes : delta.appendedBytes with
  | none =>
    simp only [hbytes, Option.getD_none, ite_self, Nat.add_zero] at hshare
    exact ⟨h.unconditional.trans (hshare _).symm, fun p => (h.purposes p).trans (hshare _).symm,
      h.keys⟩
  | some appended =>
    simp only [hbytes, Option.getD_some] at hshare
    cases hcondition : delta.change.condition with
    | none =>
      simp only [hcondition] at hshare
      refine ⟨?_, fun p => ?_, h.keys⟩
      · rw [hshare, if_pos rfl, ← h.unconditional]
      · rw [hshare, if_neg nofun, Nat.add_zero]
        exact h.purposes p
    | some fact =>
      simp only [hcondition] at hshare
      cases fact with
      | purpose named =>
        refine ⟨?_, fun p => ?_, ?_⟩
        · rw [hshare, if_neg nofun, Nat.add_zero]
          exact h.unconditional
        · rw [heldFor_addTo, hshare, h.purposes]
          simp
        · rw [keys_addTo]
          split
          · exact h.keys
          · rename_i hnamed
            exact nodup_append.mpr ⟨h.keys, nodup_singleton _, fun a ha b hb hab =>
              hnamed (mem_singleton.mp hb ▸ hab ▸ ha)⟩
      | kind kind =>
        refine ⟨?_, fun p => ?_, h.keys⟩
        · rw [hshare, if_neg nofun, Nat.add_zero]
          exact h.unconditional
        · rw [hshare, if_neg (by simp), Nat.add_zero]
          exact h.purposes p
      | surface surface =>
        refine ⟨?_, fun p => ?_, h.keys⟩
        · rw [hshare, if_neg nofun, Nat.add_zero]
          exact h.unconditional
        · rw [hshare, if_neg (by simp), Nat.add_zero]
          exact h.purposes p

theorem weighs (definition : LearningDefinition) : Weighs definition definition.weighed := by
  obtain ⟨deltas⟩ := definition
  induction deltas using reverseRecOn with
  | nil => exact ⟨rfl, fun _ => rfl, nodup_nil⟩
  | append_singleton deltas delta ih =>
    have hpass : weighed ⟨deltas ++ [delta]⟩ = (weighed ⟨deltas⟩).take delta := by
      rw [weighed, foldl_append]
      rfl
    rw [hpass]
    exact ih.take delta

/-! ## The bound is reached -/

theorem foldl_max_mem (l : List ℕ) (b : ℕ) : l.foldl max b = b ∨ l.foldl max b ∈ l := by
  induction l generalizing b with
  | nil => exact Or.inl rfl
  | cons a l ih =>
    rw [foldl_cons]
    rcases ih (max b a) with h | h
    · rw [h]
      exact (max_choice b a).imp id fun ha => mem_cons.mpr (Or.inl ha)
    · exact Or.inr (mem_cons_of_mem _ h)

/-- A bound taken over the keys of some sums is the greatest of all sums, where a purpose that is no
key has none. -/
theorem greatest_over_keys (definition : LearningDefinition) (base : String) {keys : List String}
    (hkeys : ∀ purpose, purpose ∉ keys → definition.appendedUnder (some (.purpose purpose)) = 0) :
    IsGreatest
      (Set.range fun purpose => (definition.instructionPart purpose base).utf8ByteSize)
      (base.utf8ByteSize + definition.appendedUnder none +
        (keys.map fun purpose =>
          definition.appendedUnder (some (.purpose purpose))).foldl max 0) := by
  constructor
  · rcases foldl_max_mem (keys.map fun purpose =>
      definition.appendedUnder (some (.purpose purpose))) 0 with hzero | hmem
    · rw [hzero]
      by_cases hall : ∀ purpose, definition.appendedUnder (some (.purpose purpose)) = 0
      · exact ⟨"", by simp only [instructionPart_bytes, hall]⟩
      · push Not at hall
        obtain ⟨purpose, hpurpose⟩ := hall
        have hkey : purpose ∈ keys := by
          by_contra hnot
          exact hpurpose (hkeys purpose hnot)
        have hle := (foldl_max_le.mp hzero.le).2 _ (mem_map_of_mem hkey)
        exact absurd (Nat.le_zero.mp hle) hpurpose
    · obtain ⟨purpose, _, hpurpose⟩ := mem_map.mp hmem
      exact ⟨purpose, by simp only [instructionPart_bytes, hpurpose]⟩
  · rintro _ ⟨purpose, rfl⟩
    simp only [instructionPart_bytes]
    apply Nat.add_le_add_left
    by_cases hkey : purpose ∈ keys
    · exact (foldl_max_le.mp le_rfl).2 _ (mem_map_of_mem hkey)
    · rw [hkeys purpose hkey]
      exact Nat.zero_le _

theorem heaviestPart_greatest (definition : LearningDefinition) (base : String) :
    IsGreatest (Set.range fun purpose => (definition.instructionPart purpose base).utf8ByteSize)
      (definition.heaviestPart base) := by
  obtain ⟨hplain, hpurposes, hkeys⟩ := definition.weighs
  have hvalues : definition.weighed.heaviestByPurpose.map Prod.snd =
      (definition.weighed.heaviestByPurpose.map Prod.fst).map fun purpose =>
        definition.appendedUnder (some (.purpose purpose)) := by
    rw [map_map]
    refine map_congr_left fun entry hentry => ?_
    rw [Function.comp_apply, ← hpurposes, heldFor_of_mem hkeys hentry]
  rw [heaviestPart, hplain, hvalues]
  refine greatest_over_keys definition base fun purpose hpurpose => ?_
  rw [← hpurposes, heldFor_eq_zero hpurpose]

theorem maxInstructionBytes_greatest (definition : LearningDefinition) (base : String) :
    IsGreatest (Set.range fun purpose => (definition.instructionPart purpose base).utf8ByteSize)
      (definition.maxInstructionBytes base) := by
  refine greatest_over_keys definition base fun purpose hpurpose => ?_
  unfold appendedUnder
  rw [sum_eq_zero]
  intro bytes hbytes
  obtain ⟨delta, hdelta, hbytes⟩ := mem_filterMap.mp hbytes
  obtain ⟨hdelta, hcondition⟩ := mem_filter.mp hdelta
  have hcondition := of_decide_eq_true hcondition
  refine absurd (mem_filterMap.mpr ⟨delta, hdelta, ?_⟩) hpurpose
  rw [hbytes, hcondition]

theorem heaviestPart_eq (definition : LearningDefinition) (base : String) :
    definition.heaviestPart base = definition.maxInstructionBytes base :=
  (heaviestPart_greatest definition base).unique (maxInstructionBytes_greatest definition base)

theorem maxInstructionBytes_perm (h : small.deltas.Perm large.deltas) (base : String) :
    small.maxInstructionBytes base = large.maxInstructionBytes base := by
  have hunder : ∀ condition, small.appendedUnder condition = large.appendedUnder condition :=
    fun condition => ((h.filter _).filterMap _).sum_eq
  have hparts : ∀ purpose, (small.instructionPart purpose base).utf8ByteSize =
      (large.instructionPart purpose base).utf8ByteSize := by
    intro purpose
    rw [instructionPart_bytes, instructionPart_bytes, hunder, hunder]
  have hsmall := maxInstructionBytes_greatest small base
  rw [funext hparts] at hsmall
  exact hsmall.unique (maxInstructionBytes_greatest large base)

/-- More deltas, in whatever order, make no smaller bound. -/
theorem maxInstructionBytes_mono (h : small.deltas.Subperm large.deltas) (base : String) :
    small.maxInstructionBytes base ≤ large.maxInstructionBytes base := by
  obtain ⟨deltas, hperm, hsublist⟩ := h
  have hsame : LearningDefinition.maxInstructionBytes ⟨deltas⟩ base =
      small.maxInstructionBytes base := maxInstructionBytes_perm hperm base
  have hgrows : LearningDefinition.maxInstructionBytes ⟨deltas⟩ base ≤
      large.maxInstructionBytes base := maxInstructionBytes_le hsublist base
  exact hsame ▸ hgrows

end LearningDefinition

/-- The bound is the largest part that any purpose is rendered, and grows with the deltas. -/
theorem bound_exact (definition : LearningDefinition) (base : String) :
    IsGreatest (Set.range fun purpose => (definition.instructionPart purpose base).utf8ByteSize)
      (definition.heaviestPart base) ∧
    definition.heaviestPart base = definition.maxInstructionBytes base ∧
    ∀ larger : LearningDefinition, definition.deltas.Subperm larger.deltas →
      definition.heaviestPart base ≤ larger.heaviestPart base := by
  refine ⟨definition.heaviestPart_greatest base, definition.heaviestPart_eq base, ?_⟩
  intro larger hdeltas
  rw [LearningDefinition.heaviestPart_eq, LearningDefinition.heaviestPart_eq]
  exact LearningDefinition.maxInstructionBytes_mono hdeltas base

end Rivect.Learning
