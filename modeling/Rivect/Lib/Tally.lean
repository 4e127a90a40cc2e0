import Mathlib.Algebra.Order.BigOperators.Group.List

/-! # Tallies over the rows of a list

`tally p w l` sums the weight `w` over the rows of `l` that `p` keeps. A counter kept beside
a list is compared with a tally, and each way of writing a row says how the tally moves.
-/

namespace Rivect.Lib

open List

variable {α M : Type*} [AddCommMonoid M] (p : α → Bool) (w : α → M)

def tally (l : List α) : M := ((l.filter p).map w).sum

/-- What one row adds to the tally. -/
def share (a : α) : M := if p a then w a else 0

variable {p w}

@[simp] theorem tally_nil : tally p w [] = 0 := rfl

@[simp] theorem tally_cons (a : α) (l : List α) : tally p w (a :: l) = share p w a + tally p w l := by
  by_cases h : p a <;> simp [tally, share, h]

@[simp] theorem tally_append (l l' : List α) : tally p w (l ++ l') = tally p w l + tally p w l' := by
  simp [tally]

theorem share_neg {a : α} (h : p a = false) : share p w a = 0 := by simp [share, h]

theorem tally_eq_zero {l : List α} (h : ∀ a ∈ l, p a = false) : tally p w l = 0 := by
  induction l with
  | nil => rfl
  | cons a l ih =>
    rw [tally_cons, share_neg (h a mem_cons_self), zero_add,
      ih fun b hb => h b (mem_cons_of_mem _ hb)]

theorem tally_perm {l l' : List α} (h : l.Perm l') : tally p w l = tally p w l' :=
  ((h.filter p).map w).sum_eq

theorem tally_filter (q : α → Bool) (l : List α) :
    tally p w (l.filter q) = tally (fun a => p a && q a) w l := by
  rw [tally, filter_filter, tally]

theorem tally_map {β : Type*} (f : β → α) (l : List β) :
    tally p w (l.map f) = tally (p ∘ f) (w ∘ f) l := by
  simp [tally, filter_map]

/-- Shares that add up row by row make tallies that add up. -/
theorem tally_eq_add {p' q : α → Bool} {w' v : α → M} {l : List α}
    (h : ∀ a ∈ l, share p w a = share p' w' a + share q v a) :
    tally p w l = tally p' w' l + tally q v l := by
  induction l with
  | nil => simp
  | cons a l ih =>
    rw [tally_cons, tally_cons, tally_cons, h a mem_cons_self,
      ih fun b hb => h b (mem_cons_of_mem _ hb)]
    ac_rfl

theorem tally_congr {p' : α → Bool} {w' : α → M} {l : List α}
    (h : ∀ a ∈ l, share p w a = share p' w' a) : tally p w l = tally p' w' l := by
  induction l with
  | nil => rfl
  | cons a l ih =>
    rw [tally_cons, tally_cons, h a mem_cons_self,
      ih fun b hb => h b (mem_cons_of_mem _ hb)]

theorem tally_one (l : List α) : tally p (fun _ => 1) l = l.countP p := by
  simp [tally, countP_eq_length_filter]

section Order

variable [PartialOrder M] [IsOrderedAddMonoid M]

theorem tally_nonneg {l : List α} (h : ∀ a ∈ l, p a → 0 ≤ w a) : 0 ≤ tally p w l := by
  apply sum_nonneg
  intro x hx
  obtain ⟨a, ha, rfl⟩ := mem_map.mp hx
  rw [mem_filter] at ha
  exact h a ha.1 ha.2

theorem tally_le {w' : α → M} {l : List α} (h : ∀ a ∈ l, p a → w a ≤ w' a) :
    tally p w l ≤ tally p w' l := by
  apply sum_le_sum
  intro a ha
  rw [mem_filter] at ha
  exact h a ha.1 ha.2

end Order

/-- Writing one row exchanges its share for the new one. -/
theorem tally_modify {l : List α} {i : ℕ} {a : α} (f : α → α) (h : l[i]? = some a) :
    tally p w (l.modify i f) + share p w a = tally p w l + share p w (f a) := by
  induction l generalizing i with
  | nil => simp at h
  | cons b l ih =>
    cases i with
    | zero =>
      obtain rfl : b = a := by simpa using h
      simp only [modify_zero_cons, tally_cons]
      ac_rfl
    | succ i =>
      have := ih (by simpa using h)
      simp only [modify_succ_cons, tally_cons, add_assoc, this]

theorem tally_modify_of_share {l : List α} {i : ℕ} (f : α → α)
    (h : ∀ a, share p w (f a) = share p w a) : tally p w (l.modify i f) = tally p w l := by
  induction l generalizing i with
  | nil => simp
  | cons b l ih => cases i <;> simp [h, ih]

/-- One element that no longer counts lowers the count of a duplicate-free list by one. -/
theorem countP_except [DecidableEq α] {l : List α} {a : α} (hl : l.Nodup) (ha : a ∈ l)
    (hp : p a = true) : l.countP p = l.countP (fun b => p b && b ≠ a) + 1 := by
  induction l with
  | nil => simp at ha
  | cons b l ih =>
    obtain ⟨hb, hl⟩ := nodup_cons.mp hl
    by_cases hba : b = a
    · subst hba
      have hsame : l.countP p = l.countP fun c => p c && c ≠ b := by
        apply countP_congr
        intro c hc
        have hcb : c ≠ b := fun he => hb (he ▸ hc)
        simp [hcb]
      simp [hp, hsame]
    · have := ih hl (by simpa [Ne.symm hba] using ha)
      simp only [countP_cons, this, ne_eq, hba, not_false_eq_true, decide_true, Bool.and_true]
      omega

end Rivect.Lib
