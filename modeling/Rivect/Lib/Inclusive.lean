import Mathlib.Data.List.Basic

/-! # Lists cut behind a mark

`split_inclusive`: the pieces of a list, each with the mark that ends it. Only the last piece may
lack its mark.
-/

namespace Rivect.Lib

open List

variable {α : Type*} [DecidableEq α] {mark : α} {line rest text u : List α} {lines : List (List α)}

/-- The pieces of a list, each with its mark. -/
def splitInclusive (mark : α) : List α → List (List α)
  | [] => []
  | a :: rest =>
    if a = mark then [a] :: splitInclusive mark rest
    else match splitInclusive mark rest with
      | [] => [[a]]
      | line :: lines => (a :: line) :: lines

/-- A piece that its mark ends. -/
def Ended (mark : α) (line : List α) : Prop := ∃ body, mark ∉ body ∧ line = body ++ [mark]

theorem splitInclusive_mark (rest : List α) :
    splitInclusive mark (mark :: rest) = [mark] :: splitInclusive mark rest := if_pos rfl

theorem splitInclusive_cons {a : α} (ha : a ≠ mark)
    (h : splitInclusive mark rest = line :: lines) :
    splitInclusive mark (a :: rest) = (a :: line) :: lines := by
  rw [splitInclusive, if_neg ha, h]

theorem splitInclusive_single {a : α} (ha : a ≠ mark) (h : splitInclusive mark rest = []) :
    splitInclusive mark (a :: rest) = [[a]] := by
  rw [splitInclusive, if_neg ha, h]

theorem flatten_splitInclusive (mark : α) (text : List α) :
    (splitInclusive mark text).flatten = text := by
  induction text with
  | nil => rfl
  | cons a rest ih =>
    by_cases ha : a = mark
    · rw [ha, splitInclusive_mark, flatten_cons, ih]
      rfl
    · cases hrest : splitInclusive mark rest with
      | nil =>
        rw [hrest] at ih
        rw [splitInclusive_single ha hrest, ← ih]
        rfl
      | cons line lines =>
        rw [hrest] at ih
        rw [splitInclusive_cons ha hrest, ← ih]
        rfl

theorem splitInclusive_ended_append (h : Ended mark line) (rest : List α) :
    splitInclusive mark (line ++ rest) = line :: splitInclusive mark rest := by
  obtain ⟨body, hbody, rfl⟩ := h
  induction body with
  | nil => exact splitInclusive_mark rest
  | cons a body ih =>
    have ha : a ≠ mark := fun h => hbody (h ▸ mem_cons_self)
    exact splitInclusive_cons ha (ih fun h => hbody (mem_cons_of_mem a h))

/-- Pieces in front of a list are its first pieces. -/
theorem splitInclusive_append (h : ∀ line ∈ lines, Ended mark line) (rest : List α) :
    splitInclusive mark (lines.flatten ++ rest) = lines ++ splitInclusive mark rest := by
  induction lines with
  | nil => rfl
  | cons line lines ih =>
    rw [flatten_cons, append_assoc,
      splitInclusive_ended_append (h line mem_cons_self),
      ih fun l hl => h l (mem_cons_of_mem _ hl)]
    rfl

/-- A list without its mark before its end begins the first piece. -/
theorem splitInclusive_begins (hu : u ≠ []) (h : mark ∉ u.dropLast) (rest : List α) :
    ∃ more lines, splitInclusive mark (u ++ rest) = (u ++ more) :: lines := by
  induction u with
  | nil => exact absurd rfl hu
  | cons a u ih =>
    by_cases ha : a = mark
    · -- The mark can only be the last byte.
      have hlast : u = [] := by
        by_contra hne
        refine h ?_
        rw [dropLast_cons_of_ne_nil hne, ha]
        exact mem_cons_self
      exact ⟨[], splitInclusive mark rest, by rw [hlast, ha]; exact splitInclusive_mark rest⟩
    · by_cases hne : u = []
      · subst hne
        cases hrest : splitInclusive mark rest with
        | nil => exact ⟨[], [], splitInclusive_single ha hrest⟩
        | cons line lines => exact ⟨line, lines, splitInclusive_cons ha hrest⟩
      · rw [dropLast_cons_of_ne_nil hne] at h
        obtain ⟨more, lines, hmore⟩ := ih hne fun hmem => h (mem_cons_of_mem a hmem)
        exact ⟨more, lines, splitInclusive_cons ha hmore⟩

/-- Every piece but the last has its mark, and none has it before its end. -/
theorem splitInclusive_pieces {earlier later : List (List α)}
    (h : splitInclusive mark text = earlier ++ line :: later) :
    (∀ l ∈ earlier, Ended mark l) ∧ line ≠ [] ∧ mark ∉ line.dropLast := by
  induction text generalizing earlier line with
  | nil => simp [splitInclusive] at h
  | cons a rest ih =>
    by_cases ha : a = mark
    · rw [ha, splitInclusive_mark] at h
      cases earlier with
      | nil =>
        obtain ⟨rfl, -⟩ := List.cons.inj h
        exact ⟨by simp, by simp, by simp⟩
      | cons first earlier =>
        obtain ⟨rfl, htail⟩ := List.cons.inj h
        obtain ⟨hearlier, hline⟩ := ih htail
        refine ⟨forall_mem_cons.mpr ⟨⟨[], by simp, rfl⟩, hearlier⟩, hline⟩
    · cases hrest : splitInclusive mark rest with
      | nil =>
        rw [splitInclusive_single ha hrest] at h
        cases earlier with
        | nil =>
          obtain ⟨rfl, -⟩ := List.cons.inj h
          exact ⟨by simp, by simp, by simp⟩
        | cons first earlier => simp at h
      | cons next lines =>
        rw [splitInclusive_cons ha hrest] at h
        cases earlier with
        | nil =>
          obtain ⟨rfl, rfl⟩ := List.cons.inj h
          obtain ⟨-, hne, hnext⟩ := @ih next [] hrest
          refine ⟨by simp, by simp, ?_⟩
          rw [dropLast_cons_of_ne_nil hne]
          exact not_mem_cons_of_ne_of_not_mem (Ne.symm ha) hnext
        | cons first earlier =>
          obtain ⟨rfl, rfl⟩ := List.cons.inj h
          obtain ⟨hall, hline⟩ := @ih line (next :: earlier) hrest
          obtain ⟨⟨body, hbody, rfl⟩, hearlier⟩ := forall_mem_cons.mp hall
          refine ⟨forall_mem_cons.mpr ⟨⟨a :: body, ?_, rfl⟩, hearlier⟩, hline⟩
          exact not_mem_cons_of_ne_of_not_mem (Ne.symm ha) hbody

/-- In a list that ends with the mark, every piece has its mark. -/
theorem ended_of_splitInclusive (htext : text.getLast? = some mark)
    (hline : line ∈ splitInclusive mark text) : Ended mark line := by
  obtain ⟨earlier, later, hsplit⟩ := append_of_mem hline
  rcases eq_nil_or_concat later with rfl | ⟨later, last, rfl⟩
  · obtain ⟨hearlier, hne, hmark⟩ := splitInclusive_pieces hsplit
    have hflat := flatten_splitInclusive mark text
    rw [hsplit, flatten_append, flatten_singleton] at hflat
    rw [← hflat, getLast?_append, getLast?_eq_some_getLast hne] at htext
    refine ⟨line.dropLast, hmark, ?_⟩
    have hlast : line.getLast hne = mark := by simpa using htext
    rw [← hlast, dropLast_append_getLast]
  · have hsplit' : splitInclusive mark text = (earlier ++ line :: later) ++ last :: [] := by
      rw [hsplit]
      simp
    exact (splitInclusive_pieces hsplit').1 line (by simp)

end Rivect.Lib
