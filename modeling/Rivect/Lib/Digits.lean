import Mathlib.Data.Nat.Digits.Lemmas

/-! # Numbers in a fixed number of digits

Numbers that are padded to one width stand in the order of their spellings, and so do tuples of such
numbers that are written one after the other.
-/

namespace Rivect.Lib

open List

/-- A number in at least so many digits. -/
def padded (width n : ℕ) : List Char :=
  List.replicate (width - (Nat.toDigits 10 n).length) '0' ++ Nat.toDigits 10 n

variable {width a b n : ℕ}

/-- All digits but the last are those of a tenth of the number. -/
theorem padded_succ (hwidth : 0 < width) (n : ℕ) :
    padded (width + 1) n = padded width (n / 10) ++ [Nat.digitChar (n % 10)] := by
  unfold padded
  by_cases h : n < 10
  · rw [Nat.toDigits_of_lt_base h, Nat.div_eq_of_lt h, Nat.mod_eq_of_lt h, Nat.toDigits_zero,
      ← replicate_succ']
    congr 2
    simp
    omega
  · rw [Nat.toDigits_of_base_le (by decide) (Nat.not_lt.mp h), ← append_assoc]
    congr 3
    simp

theorem length_padded (hwidth : 0 < width) (h : n < 10 ^ width) :
    (padded width n).length = width := by
  induction width, hwidth using Nat.le_induction generalizing n with
  | base =>
    rw [padded, Nat.toDigits_of_lt_base (by simpa using h)]
    rfl
  | succ width hwidth ih =>
    rw [padded_succ hwidth, length_append, ih (by omega), length_singleton]

theorem digitChar_lt : ∀ b < 10, ∀ a < b, Nat.digitChar a < Nat.digitChar b := by decide

/-- Words of one length are in the order of their first difference. -/
theorem append_lt_append {x y : List Char} (hlength : x.length = y.length) (h : x < y)
    (s t : List Char) : x ++ s < y ++ t := by
  induction x generalizing y with
  | nil =>
    rw [eq_nil_of_length_eq_zero hlength.symm] at h
    exact absurd h (not_lt_nil _)
  | cons c x ih =>
    cases y with
    | nil => cases hlength
    | cons d y =>
      rcases cons_lt_cons_iff.mp h with hhead | ⟨rfl, htail⟩
      · exact cons_lt_cons_iff.mpr (.inl hhead)
      · exact cons_lt_cons_iff.mpr (.inr ⟨rfl, ih (Nat.succ.inj hlength) htail⟩)

/-- Numbers of one width are in the order of their digits. -/
theorem padded_lt (hwidth : 0 < width) (hab : a < b) (hb : b < 10 ^ width) :
    padded width a < padded width b := by
  induction width, hwidth using Nat.le_induction generalizing a b with
  | base =>
    have hb : b < 10 := by simpa using hb
    unfold padded
    rw [Nat.toDigits_of_lt_base hb, Nat.toDigits_of_lt_base (hab.trans hb)]
    exact cons_lt_cons_iff.mpr (.inl (digitChar_lt b hb a hab))
  | succ width hwidth ih =>
    rw [padded_succ hwidth, padded_succ hwidth]
    rcases Nat.lt_or_ge (a / 10) (b / 10) with htens | htens
    · have hb' : b / 10 < 10 ^ width := by omega
      apply append_lt_append _ (ih htens hb')
      rw [length_padded hwidth hb', length_padded hwidth (htens.trans hb')]
    · have hsame : a / 10 = b / 10 := by omega
      rw [hsame]
      apply append_left_lt
      have hlast : a % 10 < b % 10 := by omega
      exact cons_lt_cons_iff.mpr (.inl (digitChar_lt _ (Nat.mod_lt b (by decide)) _ hlast))

theorem padded_append_lt (hwidth : 0 < width) (hab : a < b) (hb : b < 10 ^ width)
    (s t : List Char) : padded width a ++ s < padded width b ++ t := by
  apply append_lt_append _ (padded_lt hwidth hab hb)
  rw [length_padded hwidth hb, length_padded hwidth (hab.trans hb)]

end Rivect.Lib
