import Mathlib.Data.List.Infix

/-! # Texts made of fields

A text that concatenates fields says what they are only together with their lengths, or where each
field ends at a separator that it is free of.
-/

namespace Rivect.Lib

open List

variable {α : Type}

/-- Two lists of fields that read the same are the same exactly where their lengths are. -/
theorem flatten_inj_iff {xs ys : List (List α)} (h : xs.flatten = ys.flatten) :
    xs = ys ↔ xs.map List.length = ys.map List.length := by
  constructor
  · rintro rfl
    rfl
  intro hlengths
  induction xs generalizing ys with
  | nil =>
    cases ys with
    | nil => rfl
    | cons y ys => cases hlengths
  | cons x xs ih =>
    cases ys with
    | nil => cases hlengths
    | cons y ys =>
      injection hlengths with hhead htail
      rw [flatten_cons, flatten_cons] at h
      obtain ⟨hx, hxs⟩ := append_inj h hhead
      rw [hx, ih hxs htail]

/-- A field that ends at the first separator. -/
theorem until_inj {sep : α} {a b s t : List α} (ha : sep ∉ a) (hb : sep ∉ b)
    (h : a ++ sep :: s = b ++ sep :: t) : a = b ∧ s = t := by
  induction a generalizing b with
  | nil =>
    cases b with
    | nil =>
      injection h with _ hrest
      exact ⟨rfl, hrest⟩
    | cons y b =>
      injection h with hhead _
      rw [← hhead] at hb
      exact absurd mem_cons_self hb
  | cons x a ih =>
    cases b with
    | nil =>
      injection h with hhead _
      rw [hhead] at ha
      exact absurd mem_cons_self ha
    | cons y b =>
      injection h with hhead htail
      obtain ⟨hab, hrest⟩ := ih (not_mem_of_not_mem_cons ha)
        (not_mem_of_not_mem_cons hb) htail
      exact ⟨by rw [hhead, hab], hrest⟩

/-- The names, each after the first behind a separator. -/
def joined (sep : α) : List (List α) → List α
  | [] => []
  | [name] => name
  | name :: names => name ++ sep :: joined sep names

/-- Names that are not empty and free of the separator are told apart. -/
theorem joined_inj {sep : α} {xs ys : List (List α)} (hx : ∀ x ∈ xs, x ≠ [] ∧ sep ∉ x)
    (hy : ∀ y ∈ ys, y ≠ [] ∧ sep ∉ y) (h : joined sep xs = joined sep ys) : xs = ys := by
  induction xs generalizing ys with
  | nil =>
    cases ys with
    | nil => rfl
    | cons y ys =>
      have hempty : joined sep (y :: ys) ≠ [] := by
        cases ys with
        | nil => exact (hy y mem_cons_self).1
        | cons => simp [joined]
      exact absurd h.symm hempty
  | cons x xs ih =>
    obtain ⟨hhead, hxs⟩ := forall_mem_cons.mp hx
    cases ys with
    | nil =>
      have hempty : joined sep (x :: xs) ≠ [] := by
        cases xs with
        | nil => exact hhead.1
        | cons => simp [joined]
      exact absurd h hempty
    | cons y ys =>
      obtain ⟨hhead', hys⟩ := forall_mem_cons.mp hy
      cases xs with
      | nil =>
        cases ys with
        | nil =>
          change x = y at h
          rw [h]
        | cons y' ys =>
          change x = y ++ sep :: joined sep (y' :: ys) at h
          exact absurd (by rw [h]; simp) hhead.2
      | cons x' xs =>
        cases ys with
        | nil =>
          change x ++ sep :: joined sep (x' :: xs) = y at h
          exact absurd (by rw [← h]; simp) hhead'.2
        | cons y' ys =>
          obtain ⟨hname, hrest⟩ := until_inj hhead.2 hhead'.2 h
          rw [hname, ih hxs hys hrest]

/-- A field that ends at the first of some word: the word does not even begin inside the field. -/
theorem word_inj {w a b s t : List α} (hw : w ≠ []) (ha : ¬ w <:+: a ++ w.dropLast)
    (hb : ¬ w <:+: b ++ w.dropLast) (h : a ++ (w ++ s) = b ++ (w ++ t)) : a = b ∧ s = t := by
  -- the longer of the two fields would contain the word that ends the shorter one
  have hlonger : ∀ {a b s t : List α}, ¬ w <:+: b ++ w.dropLast →
      a ++ (w ++ s) = b ++ (w ++ t) → a.length ≤ b.length → a = b := by
    intro a b s t hb h hle
    obtain ⟨x, rfl⟩ := prefix_of_prefix_length_le (prefix_append a (w ++ s))
      (h ▸ prefix_append b (w ++ t)) hle
    cases x with
    | nil => exact (append_nil a).symm
    | cons c x =>
      rw [append_assoc, append_cancel_left_eq] at h
      have hprefix : w <+: c :: x ++ w.dropLast := by
        refine prefix_of_prefix_length_le (prefix_append w s) ?_ ?_
        · rw [h, ← append_assoc]
          exact ((prefix_append_right_inj (c :: x)).mpr ( dropLast_prefix w)).trans
            (prefix_append _ t)
        · have := length_pos_of_ne_nil hw
          simp only [length_append, length_cons, length_dropLast]
          omega
      refine absurd ?_ hb
      rw [append_assoc]
      exact hprefix.isInfix.trans (suffix_append a _).isInfix
  have hab : a = b := by
    rcases Nat.le_total a.length b.length with hle | hle
    · exact hlonger hb h hle
    · exact (hlonger ha h.symm hle).symm
  rw [hab, append_cancel_left_eq, append_cancel_left_eq] at h
  exact ⟨hab, h⟩

/-! ## Component order -/

section
variable {le : α → α → Bool}

/-- Lists in the order of their first difference, a list behind those that it continues. -/
def lexLe (le : α → α → Bool) : List α → List α → Bool
  | [], _ => true
  | _ :: _, [] => false
  | a :: s, b :: t => le a b && (!le b a || lexLe le s t)

theorem lexLe_total (htotal : ∀ a b, le a b = true ∨ le b a = true) (s t : List α) :
    lexLe le s t = true ∨ lexLe le t s = true := by
  induction s generalizing t with
  | nil => exact Or.inl rfl
  | cons a s ih =>
    cases t with
    | nil => exact Or.inr rfl
    | cons b t =>
      have hhead := htotal a b
      have htail := ih t
      simp only [lexLe, Bool.and_eq_true, Bool.or_eq_true, Bool.not_eq_true']
      cases hab : le a b <;> cases hba : le b a <;> simp_all

theorem lexLe_trans
    (htrans : ∀ a b c, le a b = true → le b c = true → le a c = true) {s t u : List α}
    (hst : lexLe le s t = true) (htu : lexLe le t u = true) : lexLe le s u = true := by
  induction s generalizing t u with
  | nil => rfl
  | cons a s ih =>
    cases t with
    | nil => cases hst
    | cons b t =>
      cases u with
      | nil => cases htu
      | cons c u =>
        simp only [lexLe, Bool.and_eq_true, Bool.or_eq_true, Bool.not_eq_true'] at hst htu ⊢
        refine ⟨htrans a b c hst.1 htu.1, ?_⟩
        cases hca : le c a with
        | false => exact Or.inl rfl
        | true =>
          have hba := htrans b c a htu.1 hca
          have hcb := htrans c a b hca hst.1
          have hst' := hst.2.resolve_left (by rw [hba]; nofun)
          have htu' := htu.2.resolve_left (by rw [hcb]; nofun)
          exact Or.inr (ih hst' htu')

theorem lexLe_antisymm (hantisymm : ∀ a b, le a b = true → le b a = true → a = b)
    {s t : List α} (hst : lexLe le s t = true) (hts : lexLe le t s = true) : s = t := by
  induction s generalizing t with
  | nil =>
    cases t with
    | nil => rfl
    | cons => cases hts
  | cons a s ih =>
    cases t with
    | nil => cases hst
    | cons b t =>
      simp only [lexLe, Bool.and_eq_true, Bool.or_eq_true, Bool.not_eq_true'] at hst hts
      rw [hantisymm a b hst.1 hts.1,
        ih (hst.2.resolve_left (by rw [hts.1]; nofun)) (hts.2.resolve_left (by rw [hst.1]; nofun))]

end

end Rivect.Lib
