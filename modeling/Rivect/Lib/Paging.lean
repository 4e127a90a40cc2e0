import Mathlib.Data.List.Sort

/-! # Paging through a table that grows

A reader asks for the rows past the last key it has seen, a page at a time. The rows have
increasing keys, and a writer only adds rows past all others.
-/

namespace Rivect.Lib

open List

variable {α : Type*} {key : α → ℕ} {rows rows' : List α} {last limit : ℕ}

/-- The rows past a key in the order of the keys, as many as the page takes. -/
def page (key : α → ℕ) (rows : List α) (last limit : ℕ) : List α :=
  ((rows.filter fun a => last < key a).mergeSort fun a b => key a ≤ key b).take limit

/-- The key to continue from. -/
def lastKey (key : α → ℕ) (last : ℕ) (rows : List α) : ℕ :=
  rows.getLast?.elim last key

/-- What a reader at a key has seen. -/
def seen (key : α → ℕ) (rows : List α) (last : ℕ) : List α :=
  rows.filter fun a => key a ≤ last

abbrev Keyed (key : α → ℕ) (rows : List α) : Prop := rows.Pairwise fun a b => key a < key b

theorem Keyed.filter (h : Keyed key rows) (p : α → Bool) : Keyed key (rows.filter p) :=
  List.Pairwise.filter p h

/-- Rows in order need no sorting. -/
theorem page_eq (h : Keyed key rows) :
    page key rows last limit = (rows.filter fun a => last < key a).take limit := by
  rw [page, mergeSort_of_pairwise]
  exact (h.filter _).imp fun hlt => by simp [hlt.le]

theorem seen_append_rest (h : Keyed key rows) (last : ℕ) :
    seen key rows last ++ rows.filter (fun a => last < key a) = rows := by
  induction rows with
  | nil => rfl
  | cons a rows ih =>
    have htail : Keyed key rows := h.of_cons
    by_cases ha : key a ≤ last
    · simpa [seen, ha, Nat.not_lt.mpr ha] using ih htail
    · have hlt := Nat.lt_of_not_le ha
      have hnone : seen key rows last = [] := by
        apply filter_eq_nil_iff.mpr
        intro b hb
        have := rel_of_pairwise_cons h hb
        simpa using hlt.trans this
      have hall : rows.filter (fun a => last < key a) = rows := by
        apply filter_eq_self.mpr
        intro b hb
        have := rel_of_pairwise_cons h hb
        simpa using hlt.trans this
      rw [seen] at hnone
      simp [seen, ha, hlt, hnone, hall]

/-- Up to the key of its last row, a prefix of keyed rows is all there is. -/
theorem seen_of_prefix {pre post : List α} {a : α} (h : Keyed key (pre ++ a :: post)) :
    seen key (pre ++ a :: post) (key a) = pre ++ [a] := by
  obtain ⟨_, hpost, hcross⟩ := pairwise_append.mp h
  have hpre : pre.filter (fun b => key b ≤ key a) = pre := by
    apply filter_eq_self.mpr
    intro b hb
    simpa using (hcross b hb a mem_cons_self).le
  have hrest : post.filter (fun b => key b ≤ key a) = [] := by
    apply filter_eq_nil_iff.mpr
    intro b hb
    simpa using rel_of_pairwise_cons hpost hb
  rw [seen, filter_append, hpre, filter_cons, hrest]
  simp

/-- A page continues what the reader has seen, with nothing skipped and nothing repeated. -/
theorem seen_page (h : Keyed key rows) (last limit : ℕ) :
    seen key rows last ++ page key rows last limit =
      seen key rows (lastKey key last (page key rows last limit)) := by
  have hsplit : (seen key rows last ++ page key rows last limit) ++
      (rows.filter fun a => last < key a).drop limit = rows := by
    rw [page_eq h, append_assoc, take_append_drop, seen_append_rest h]
  cases hlast : (page key rows last limit).getLast? with
  | none =>
    have hnil : page key rows last limit = [] := getLast?_eq_none_iff.mp hlast
    simp [lastKey, hnil]
  | some a =>
    obtain ⟨front, hfront⟩ := getLast?_eq_some_iff.mp hlast
    rw [lastKey, hlast, Option.elim_some]
    rw [hfront] at hsplit ⊢
    rw [← append_assoc, append_assoc, singleton_append] at hsplit
    have hkeyed : Keyed key ((seen key rows last ++ front) ++
        a :: (rows.filter fun a => last < key a).drop limit) := by
      rw [hsplit]
      exact h
    have hseen := seen_of_prefix hkeyed
    rw [hsplit] at hseen
    rw [hseen, append_assoc]

/-- A page that is not full was the last. -/
theorem seen_page_short (h : Keyed key rows) (hshort : (page key rows last limit).length < limit) :
    seen key rows last ++ page key rows last limit = rows := by
  rw [page_eq h] at hshort ⊢
  have hle : (rows.filter fun a => last < key a).length ≤ limit := by
    rw [length_take] at hshort
    omega
  rw [take_of_length_le hle, seen_append_rest h]

/-- Rows past the reader's key do not change what it has seen. -/
theorem seen_grown (hgrow : rows <+: rows') (hnew : ∀ a ∈ rows', a ∈ rows ∨ last < key a)
    (hkeyed : Keyed key rows') : seen key rows' last = seen key rows last := by
  obtain ⟨new, rfl⟩ := hgrow
  rw [seen, filter_append, seen]
  have hnil : new.filter (fun a => key a ≤ last) = [] := by
    apply filter_eq_nil_iff.mpr
    intro a ha
    rcases hnew a (mem_append_right _ ha) with hold | hpast
    · have := (pairwise_append.mp hkeyed).2.2 a hold a ha
      omega
    · simpa using hpast
  rw [hnil, append_nil]

/-- The key only moves to a row's key. -/
theorem lastKey_le {bound : ℕ} (hlast : last ≤ bound) (hrows : ∀ a ∈ rows, key a ≤ bound) :
    lastKey key last rows ≤ bound := by
  rw [lastKey]
  cases hget : rows.getLast? with
  | none => exact hlast
  | some a => exact hrows a (mem_of_getLast? hget)

theorem mem_of_mem_page {a : α} (h : a ∈ page key rows last limit) : a ∈ rows := by
  have := mem_of_mem_take h
  rw [mem_mergeSort] at this
  exact mem_of_mem_filter this

end Rivect.Lib
