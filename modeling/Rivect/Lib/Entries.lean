import Mathlib.Data.List.Nodup

/-! # Maps written one entry at a time

A pass over a list that rewrites, for each item, the entry of the item's key. Where the keys are
distinct, each entry is rewritten once.
-/

namespace Rivect.Lib

open List

variable {α β κ : Type} [DecidableEq κ] (key : α → κ) (g : α → β → β)

def amend (entries : κ → β) (a : α) : κ → β :=
  Function.update entries (key a) (g a (entries (key a)))

variable {key g} {entries : κ → β} {l : List α}

theorem amend_of_ne {a : α} {k : κ} (h : k ≠ key a) : amend key g entries a k = entries k :=
  Function.update_of_ne h _ _

theorem amend_self (a : α) : amend key g entries a (key a) = g a (entries (key a)) :=
  Function.update_self _ _ _

theorem amends_of_notMem {k : κ} (h : k ∉ l.map key) : l.foldl (amend key g) entries k = entries k := by
  induction l generalizing entries with
  | nil => rfl
  | cons a l ih =>
    rw [map_cons, mem_cons, not_or] at h
    rw [foldl_cons, ih h.2, amend_of_ne h.1]

theorem amends_of_mem (hkeys : (l.map key).Nodup) {a : α} (ha : a ∈ l) :
    l.foldl (amend key g) entries (key a) = g a (entries (key a)) := by
  induction l generalizing entries with
  | nil => cases ha
  | cons b l ih =>
    obtain ⟨hb, hkeys⟩ := nodup_cons.mp hkeys
    rw [foldl_cons]
    rcases mem_cons.mp ha with rfl | ha
    · rw [amends_of_notMem hb, amend_self]
    · have hne : key a ≠ key b := fun h => hb (h ▸ mem_map_of_mem ha)
      rw [ih hkeys ha, amend_of_ne hne]

end Rivect.Lib
