import Mathlib.Data.List.Basic

/-! # Frames of a stream

A stream is cut into frames at each separator. However its parts arrive, the frames are the same:
`cut_append` takes a stream up where the last part left it.
-/

namespace Rivect.Lib

open List

variable {α : Type*} [DecidableEq α] (sep : α)

/-- The complete frames of a stream, without their separators, and what is left over. -/
def cut : List α → List (List α) × List α
  | [] => ([], [])
  | a :: rest =>
    if a = sep then ([] :: (cut rest).1, (cut rest).2)
    else match (cut rest).1 with
      | [] => ([], a :: (cut rest).2)
      | frame :: frames => ((a :: frame) :: frames, (cut rest).2)

/-- The first complete frame and what comes after its separator. -/
def firstFrame : List α → Option (List α × List α)
  | [] => none
  | a :: rest =>
    if a = sep then some ([], rest)
    else (firstFrame rest).map fun cut => (a :: cut.1, cut.2)

variable {sep} {l rest frame : List α}

theorem cut_cons (a : α) (rest : List α) : cut sep (a :: rest) =
    if a = sep then ([] :: (cut sep rest).1, (cut sep rest).2)
    else match (cut sep rest).1 with
      | [] => ([], a :: (cut sep rest).2)
      | frame :: frames => ((a :: frame) :: frames, (cut sep rest).2) := rfl

theorem firstFrame_cons (a : α) (rest : List α) : firstFrame sep (a :: rest) =
    if a = sep then some ([], rest)
    else (firstFrame sep rest).map fun cut => (a :: cut.1, cut.2) := rfl

theorem cut_append (l r : List α) :
    cut sep (l ++ r) =
      ((cut sep l).1 ++ (cut sep ((cut sep l).2 ++ r)).1, (cut sep ((cut sep l).2 ++ r)).2) := by
  induction l with
  | nil => rfl
  | cons a l ih =>
    rw [cons_append, cut_cons, ih, cut_cons]
    split
    · rfl
    · rename_i hsep
      cases (cut sep l).1 with
      | nil =>
        simp only [nil_append, cons_append]
        rw [cut_cons, if_neg hsep]
      | cons frame frames => rfl

/-- Nothing is left to cut of what is left over. -/
theorem cut_left (l : List α) : cut sep (cut sep l).2 = ([], (cut sep l).2) := by
  induction l with
  | nil => rfl
  | cons a l ih =>
    rw [cut_cons]
    split
    · exact ih
    · rename_i hsep
      cases hframes : (cut sep l).1 with
      | nil => simp only [cut_cons, if_neg hsep, ih]
      | cons frame frames => exact ih

theorem left_of_no_frame (h : (cut sep l).1 = []) : (cut sep l).2 = l := by
  induction l with
  | nil => rfl
  | cons a l ih =>
    rw [cut_cons] at h ⊢
    split at h
    · cases h
    · rename_i hsep
      rw [if_neg hsep]
      cases hframes : (cut sep l).1 with
      | nil => rw [ih hframes]
      | cons frame frames => rw [hframes] at h; cases h

/-- A separator ends what is left over. -/
theorem cut_ended (h : (cut sep l).1 = []) (rest : List α) :
    cut sep (l ++ sep :: rest) = (l :: (cut sep rest).1, (cut sep rest).2) := by
  induction l with
  | nil => rw [nil_append, cut_cons, if_pos rfl]
  | cons a l ih =>
    rw [cut_cons] at h
    rw [cons_append, cut_cons]
    split at h
    · cases h
    · rename_i hsep
      rw [if_neg hsep]
      cases hframes : (cut sep l).1 with
      | cons frame frames => rw [hframes] at h; cases h
      | nil => rw [ih hframes]

/-- The first frame is what stands before the first separator. -/
theorem head_frame {frames : List (List α)} (h : (cut sep l).1 = frame :: frames) :
    frame = l.takeWhile (· ≠ sep) := by
  induction l generalizing frame frames with
  | nil => cases h
  | cons a l ih =>
    rw [cut_cons] at h
    split at h
    · rename_i hsep
      obtain ⟨rfl, -⟩ := List.cons.inj h
      simp [hsep]
    · rename_i hsep
      cases hframes : (cut sep l).1 with
      | nil => rw [hframes] at h; cases h
      | cons first rest =>
        rw [hframes] at h
        obtain ⟨rfl, -⟩ := List.cons.inj h
        rw [takeWhile_cons_of_pos (by simpa using hsep), ← ih hframes]

theorem length_of_frame (h : frame ∈ (cut sep l).1) : frame.length < l.length := by
  induction l generalizing frame with
  | nil => cases h
  | cons a l ih =>
    rw [cut_cons] at h
    split at h
    · rcases mem_cons.mp h with rfl | h
      · exact Nat.succ_pos _
      · exact Nat.lt_succ_of_lt (ih h)
    · cases hframes : (cut sep l).1 with
      | nil => rw [hframes] at h; cases h
      | cons first rest =>
        rw [hframes] at h ih
        rcases mem_cons.mp h with rfl | h
        · exact Nat.succ_lt_succ (ih mem_cons_self)
        · exact Nat.lt_succ_of_lt (ih (mem_cons_of_mem _ h))

theorem length_left (l : List α) : (cut sep l).2.length ≤ l.length := by
  induction l with
  | nil => exact Nat.le_refl _
  | cons a l ih =>
    rw [cut_cons]
    split
    · exact Nat.le_succ_of_le ih
    · cases (cut sep l).1 with
      | nil => exact Nat.succ_le_succ ih
      | cons frame frames => exact Nat.le_succ_of_le ih

theorem cut_of_firstFrame (h : firstFrame sep l = some (frame, rest)) :
    cut sep l = (frame :: (cut sep rest).1, (cut sep rest).2) := by
  induction l generalizing frame with
  | nil => cases h
  | cons a l ih =>
    rw [firstFrame_cons] at h
    rw [cut_cons]
    split at h
    · rename_i hsep
      obtain ⟨rfl, rfl⟩ := Prod.mk.inj (Option.some.inj h)
      rw [if_pos hsep]
    · rename_i hsep
      obtain ⟨⟨first, tail⟩, hfirst, heq⟩ := Option.map_eq_some_iff.mp h
      obtain ⟨rfl, rfl⟩ := Prod.mk.inj heq
      rw [if_neg hsep, ih hfirst]

end Rivect.Lib
