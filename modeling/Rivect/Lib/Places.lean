import Mathlib.Data.Nat.Digits.Lemmas

/-! # Numbers by their places

A number is read digit by digit. In a word of places, a few leading numbers stand in one place each
and a last one fills the places that they leave.
-/

namespace Rivect.Lib

open List

variable {α : Type*} {base fill n : ℕ}

/-- Horner's rule over digits of a radix, from what is read already. -/
theorem foldlM_digits (digit : α → ℕ) (radix : ℕ) (raw : List α) (start : ℕ) :
    raw.foldlM (fun n a =>
        (if digit a < radix then some (digit a) else none).map (n * radix + ·)) start =
      if raw.all fun a => digit a < radix then
        some (start * radix ^ raw.length + Nat.ofDigits radix (raw.map digit).reverse)
      else none := by
  induction raw generalizing start with
  | nil => simp
  | cons a raw ih =>
    rw [foldlM_cons]
    by_cases ha : digit a < radix
    · rw [if_pos ha, Option.map_some, Option.bind_eq_bind, Option.bind_some, ih]
      simp only [all_cons, ha, decide_true, Bool.true_and, map_cons, reverse_cons,
        Nat.ofDigits_append, Nat.ofDigits_singleton, length_reverse, length_map,
        length_cons]
      congr 2
      ring
    · have hall : ¬ (a :: raw).all fun a => digit a < radix := by simp [ha]
      rw [if_neg ha, if_neg hall]
      rfl

/-- The last places of a number, the leading one first. -/
def places (base fill n : ℕ) : List ℕ :=
  (List.range fill).reverse.map fun i => n / base ^ i % base

@[simp] theorem length_places : (places base fill n).length = fill := by simp [places]

theorem places_succ (base fill n : ℕ) :
    places base (fill + 1) n = n / base ^ fill % base :: places base fill n := by
  simp [places, range_succ]

theorem place_lt (hbase : 0 < base) : ∀ place ∈ places base fill n, place < base := by
  intro place hplace
  obtain ⟨i, -, rfl⟩ := mem_map.mp hplace
  exact Nat.mod_lt _ hbase

theorem ofDigits_places (base fill n : ℕ) :
    Nat.ofDigits base (places base fill n).reverse = n % base ^ fill := by
  induction fill with
  | zero => simp [places, Nat.mod_one]
  | succ fill ih =>
    rw [places_succ, reverse_cons, Nat.ofDigits_append, ih, Nat.ofDigits_singleton,
      length_reverse, length_places, Nat.mod_pow_succ]

/-- The number of a word of `width` places with `heads` in the leading ones. -/
def placed (base width : ℕ) (heads : List ℕ) (last : ℕ) : ℕ :=
  last + (heads.zipIdx.map fun head => head.1 * base ^ (width - 1 - head.2)).sum

theorem sum_places (base fill : ℕ) (heads : List ℕ) (start : ℕ) :
    ((heads.zipIdx start).map fun head =>
        head.1 * base ^ (start + heads.length + fill - 1 - head.2)).sum =
      base ^ fill * Nat.ofDigits base heads.reverse := by
  induction heads generalizing start with
  | nil => simp
  | cons n heads ih =>
    have hhead : start + (heads.length + 1) + fill - 1 - start = heads.length + fill := by omega
    have hrest : ∀ i, start + (heads.length + 1) + fill - 1 - i =
        start + 1 + heads.length + fill - 1 - i := by
      intro i
      omega
    simp only [zipIdx_cons, map_cons, sum_cons, length_cons]
    rw [hhead]
    simp only [hrest]
    rw [ih, reverse_cons, Nat.ofDigits_append, Nat.ofDigits_singleton, length_reverse]
    ring

/-- The places of a word have its number. -/
theorem ofDigits_placed {heads : List ℕ} {last : ℕ} (hlast : last < base ^ fill) :
    Nat.ofDigits base (heads ++ places base fill last).reverse =
      placed base (heads.length + fill) heads last := by
  have hsum := sum_places base fill heads 0
  rw [Nat.zero_add] at hsum
  rw [placed, hsum, reverse_append, Nat.ofDigits_append, ofDigits_places,
    Nat.mod_eq_of_lt hlast, length_reverse, length_places]

end Rivect.Lib
