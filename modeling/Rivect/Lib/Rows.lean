import Mathlib.Data.List.Nodup

/-! # Tables with a key

A table is the list of its rows in the order they were inserted. `rowAt key rows k` is the row of a
key, and each way of writing rows says what becomes of it.
-/

namespace Rivect.Lib

open List

variable {α κ : Type*} {key : α → κ} {rows : List α} {k : κ} {a : α}

/-- No two rows have one key. -/
def UniqueKeys (key : α → κ) (rows : List α) : Prop := (rows.map key).Nodup

namespace UniqueKeys

theorem nil : UniqueKeys key [] := nodup_nil

theorem insert (hkeys : UniqueKeys key rows) (h : ∀ b ∈ rows, key b ≠ key a) :
    UniqueKeys key (rows ++ [a]) := by
  unfold UniqueKeys
  rw [map_append, map_singleton]
  refine nodup_append.mpr ⟨hkeys, nodup_singleton _, ?_⟩
  rintro _ hb _ hc rfl
  obtain ⟨b, hb, hkey⟩ := mem_map.mp hb
  exact h b hb (hkey.trans (mem_singleton.mp hc))

theorem filter (hkeys : UniqueKeys key rows) (p : α → Bool) : UniqueKeys key (rows.filter p) :=
  hkeys.sublist ((filter_sublist).map key)

theorem map (hkeys : UniqueKeys key rows) {f : α → α} (hf : ∀ a, key (f a) = key a) :
    UniqueKeys key (rows.map f) := by
  unfold UniqueKeys
  rw [map_map, show key ∘ f = key from funext hf]
  exact hkeys

end UniqueKeys

section

variable [DecidableEq κ]

def rowAt (key : α → κ) (rows : List α) (k : κ) : Option α := rows.find? fun a => key a = k

theorem mem_of_rowAt (h : rowAt key rows k = some a) : a ∈ rows := mem_of_find?_eq_some h

theorem key_of_rowAt (h : rowAt key rows k = some a) : key a = k := by
  have := find?_some h
  simpa using this

theorem rowAt_eq_none : rowAt key rows k = none ↔ ∀ a ∈ rows, key a ≠ k := by
  simp [rowAt]

/-- With unique keys a row is the row of its key. -/
theorem rowAt_of_mem (hkeys : UniqueKeys key rows) (h : a ∈ rows) :
    rowAt key rows (key a) = some a := by
  cases hrow : rowAt key rows (key a) with
  | none => exact absurd rfl (rowAt_eq_none.mp hrow a h)
  | some b =>
    have hb := mem_of_rowAt hrow
    rw [inj_on_of_nodup_map hkeys hb h (key_of_rowAt hrow)]

/-- A rewrite of rows in place keeps the key of each. -/
theorem rowAt_map {f : α → α} (hf : ∀ a, key (f a) = key a) :
    rowAt key (rows.map f) k = (rowAt key rows k).map f := by
  unfold rowAt
  rw [find?_map]
  simp only [Function.comp_def, hf]

/-- Rows leave by their key. -/
theorem rowAt_filter (p : κ → Bool) :
    rowAt key (rows.filter fun a => p (key a)) k = if p k then rowAt key rows k else none := by
  have hboth : (fun a => decide (p (key a) = true ∧ decide (key a = k) = true)) =
      fun a => p k && decide (key a = k) := by
    funext a
    by_cases h : key a = k <;> simp [h]
  unfold rowAt
  rw [find?_filter, hboth]
  cases p k <;> simp

theorem rowAt_insert_self (h : ∀ b ∈ rows, key b ≠ key a) :
    rowAt key (rows ++ [a]) (key a) = some a := by
  have hnone : rowAt key rows (key a) = none := rowAt_eq_none.mpr h
  unfold rowAt at hnone ⊢
  rw [find?_append, hnone]
  simp

theorem rowAt_insert_of_ne (h : key a ≠ k) : rowAt key (rows ++ [a]) k = rowAt key rows k := by
  unfold rowAt
  rw [find?_append, find?_singleton]
  simp [h]

/-- `INSERT OR REPLACE`: the row of its key gives way. -/
def replaceRow (key : α → κ) (rows : List α) (a : α) : List α :=
  rows.filter (fun b => key b ≠ key a) ++ [a]

theorem UniqueKeys.replaceRow (h : UniqueKeys key rows) (a : α) :
    UniqueKeys key (replaceRow key rows a) :=
  (h.filter _).insert fun b hb => by simpa using (mem_filter.mp hb).2

theorem UniqueKeys.replaced (h : UniqueKeys key rows) (writes : List α) :
    UniqueKeys key (writes.foldl (Lib.replaceRow key) rows) := by
  induction writes generalizing rows with
  | nil => exact h
  | cons a writes ih => exact ih (h.replaceRow a)

theorem rowAt_replaceRow (a : α) :
    rowAt key (replaceRow key rows a) k = if key a = k then some a else rowAt key rows k := by
  have hgone : ∀ b ∈ rows.filter (fun b => key b ≠ key a), key b ≠ key a := fun b hb => by
    simpa using (mem_filter.mp hb).2
  by_cases hkey : key a = k
  · rw [if_pos hkey, ← hkey]
    exact rowAt_insert_self hgone
  · rw [if_neg hkey, replaceRow, rowAt_insert_of_ne hkey, rowAt_filter fun l => decide (l ≠ key a)]
    simp [Ne.symm hkey]

/-- Of several writes to one key the last one stands. -/
theorem rowAt_replaced (writes : List α) :
    rowAt key (writes.foldl (replaceRow key) rows) k =
      (writes.reverse.find? fun a => key a = k).or (rowAt key rows k) := by
  induction writes generalizing rows with
  | nil => rfl
  | cons a writes ih =>
    rw [foldl_cons, ih, rowAt_replaceRow, reverse_cons, find?_append,
      find?_singleton, Option.or_assoc]
    by_cases hkey : key a = k <;> simp [hkey]

end

end Rivect.Lib
