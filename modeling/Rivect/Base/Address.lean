import Mathlib.Tactic.SplitIfs

/-! # Blocker addresses

The canonical address of one field of one record, after `blocker_address` of `src/config.rs` and
`canonical_blocker_address` of `src/state/learning.rs`: three segments between slashes, the last
two escaped.
-/

namespace Rivect.Base

def escapeChar (c : Char) : List Char :=
  if c = '~' then ['~', '0'] else if c = '/' then ['~', '1'] else [c]

/-- RFC 6901 escaping of one token. -/
def pointerEscape (token : List Char) : List Char := token.flatMap escapeChar

def blockerAddress (owner record field : String) : String :=
  String.ofList (['/'].intercalate
    [owner.toList, pointerEscape record.toList, pointerEscape field.toList])

def purposeRecordPointer (key : String) : String := "/models/purposes/" ++ key

/-- Every tilde introduces a zero or a one; `tilde` says that one was just met. -/
def escapedFrom (tilde : Bool) : List Char → Bool
  | [] => !tilde
  | c :: rest => if tilde then (c = '0' || c = '1') && escapedFrom false rest
    else escapedFrom (c = '~') rest

def canonicalPointerToken (token : List Char) : Bool := token ≠ [] && escapedFrom false token

def canonicalBlockerAddress (address : String) : Bool :=
  match address.toList.splitOn '/' with
  | [owner, record, field] =>
    (owner = "learning".toList || owner = "config".toList) && canonicalPointerToken record &&
      canonicalPointerToken field
  | _ => false

/-! ## One address names one field -/

theorem pointerEscape_cons (c : Char) (token : List Char) :
    pointerEscape (c :: token) = escapeChar c ++ pointerEscape token := rfl

theorem slash_notMem_pointerEscape (token : List Char) : '/' ∉ pointerEscape token := by
  intro h
  obtain ⟨c, -, hc⟩ := List.mem_flatMap.mp h
  unfold escapeChar at hc
  split at hc
  · simp at hc
  · split at hc
    · simp at hc
    · rename_i hslash
      exact hslash (List.mem_singleton.mp hc).symm

theorem escapeChar_append_inj {c d : Char} {front rest : List Char}
    (h : escapeChar c ++ front = escapeChar d ++ rest) : c = d ∧ front = rest := by
  unfold escapeChar at h
  split_ifs at h with hc hd hd' hc' hd hd' hd hd' <;> simp_all
  · exact absurd h.1.symm hd
  · exact absurd h.1.symm hd

theorem pointerEscape_injective : Function.Injective pointerEscape := by
  intro a b h
  induction a generalizing b with
  | nil =>
    cases b with
    | nil => rfl
    | cons d b =>
      rw [pointerEscape_cons] at h
      unfold escapeChar at h
      split_ifs at h <;> simp [pointerEscape] at h
  | cons c a ih =>
    cases b with
    | nil =>
      rw [pointerEscape_cons] at h
      unfold escapeChar at h
      split_ifs at h <;> simp [pointerEscape] at h
    | cons d b =>
      rw [pointerEscape_cons, pointerEscape_cons] at h
      obtain ⟨rfl, hrest⟩ := escapeChar_append_inj h
      rw [ih hrest]

theorem escaped_pointerEscape (token : List Char) :
    escapedFrom false (pointerEscape token) = true := by
  induction token with
  | nil => rfl
  | cons c token ih =>
    rw [pointerEscape_cons]
    unfold escapeChar
    split_ifs with htilde hslash
    · simp [escapedFrom, ih]
    · simp [escapedFrom, ih]
    · simp [escapedFrom, ih, htilde]

theorem pointerEscape_eq_nil {token : List Char} : pointerEscape token = [] ↔ token = [] := by
  constructor
  · exact fun h => pointerEscape_injective h
  · rintro rfl
    rfl

theorem splitOn_blockerAddress {owner : String} (howner : '/' ∉ owner.toList)
    (record field : String) :
    (blockerAddress owner record field).toList.splitOn '/' =
      [owner.toList, pointerEscape record.toList, pointerEscape field.toList] := by
  unfold blockerAddress
  rw [String.toList_ofList]
  apply List.splitOn_intercalate
  · simp [howner, slash_notMem_pointerEscape]
  · simp

theorem blockerAddress_injective {owner owner' record record' field field' : String}
    (howner : '/' ∉ owner.toList) (howner' : '/' ∉ owner'.toList)
    (h : blockerAddress owner record field = blockerAddress owner' record' field') :
    owner = owner' ∧ record = record' ∧ field = field' := by
  have hsplit := congrArg (fun s : String => s.toList.splitOn '/') h
  simp only [splitOn_blockerAddress howner, splitOn_blockerAddress howner', List.cons.injEq,
    and_true] at hsplit
  exact ⟨String.toList_inj.mp hsplit.1, String.toList_inj.mp (pointerEscape_injective hsplit.2.1),
    String.toList_inj.mp (pointerEscape_injective hsplit.2.2)⟩

/-- The address of a named field of a named record is one that a read accepts. -/
theorem canonical_blockerAddress {owner record field : String}
    (howner : owner = "learning" ∨ owner = "config") (hfield : field ≠ "") :
    canonicalBlockerAddress (blockerAddress owner record field) = decide (record ≠ "") := by
  have hslash : '/' ∉ owner.toList := by rcases howner with rfl | rfl <;> decide
  have hknown : (decide (owner.toList = "learning".toList) ||
      decide (owner.toList = "config".toList)) = true := by
    rcases howner with rfl | rfl <;> decide
  unfold canonicalBlockerAddress
  rw [splitOn_blockerAddress hslash]
  simp only [hknown, canonicalPointerToken, escaped_pointerEscape, Bool.and_true, Bool.true_and,
    ne_eq, pointerEscape_eq_nil, String.toList_eq_nil_iff, hfield, not_false_eq_true,
    decide_true]

end Rivect.Base
