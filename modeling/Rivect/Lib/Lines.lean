import Mathlib.Data.List.Basic

/-! # Lines with three endings

Text is cut into lines at each `cr`, `lf` or `cr lf`. A `cr` at the end of what has arrived waits
for its pair, so the lines are the same however the text arrives: `cutLines_append`.
-/

namespace Rivect.Lib

open List

variable {α : Type} [DecidableEq α] (cr lf : α)

def isEnd (b : α) : Bool := b = cr ∨ b = lf

/-- What follows an ending that begins with `b`. -/
def afterEnd (b : α) (rest : List α) : List α :=
  if b = cr ∧ rest.head? = some lf then rest.tail else rest

/-- The first complete line and what comes after its ending. -/
def firstLine : List α → Option (List α × List α)
  | [] => none
  | b :: rest =>
    if isEnd cr lf b then
      if b = cr ∧ rest = [] then none else some ([], afterEnd cr lf b rest)
    else (firstLine rest).map fun cut => (b :: cut.1, cut.2)

/-- Nothing of it ends a line. -/
def Clean (s : List α) : Prop := ∀ b ∈ s, isEnd cr lf b = false

variable {cr lf} {s clean line rest : List α} {b : α}

theorem firstLine_clean_append (h : Clean cr lf clean) (s : List α) :
    firstLine cr lf (clean ++ s) = (firstLine cr lf s).map fun cut => (clean ++ cut.1, cut.2) := by
  induction clean with
  | nil => simp
  | cons b clean ih =>
    have hb := h b mem_cons_self
    rw [cons_append, firstLine, if_neg (by simp [hb]),
      ih fun c hc => h c (mem_cons_of_mem _ hc), Option.map_map]
    rfl

theorem firstLine_clean (h : Clean cr lf clean) : firstLine cr lf clean = none := by
  have heq := firstLine_clean_append h []
  rwa [append_nil] at heq

theorem firstLine_held (h : Clean cr lf clean) : firstLine cr lf (clean ++ [cr]) = none := by
  rw [firstLine_clean_append h, firstLine, if_pos (by simp [isEnd]), if_pos ⟨rfl, rfl⟩]
  rfl

theorem firstLine_ended (h : Clean cr lf clean) (hb : isEnd cr lf b = true)
    (hpair : b = cr → rest ≠ []) :
    firstLine cr lf (clean ++ b :: rest) = some (clean, afterEnd cr lf b rest) := by
  rw [firstLine_clean_append h, firstLine, if_pos hb, if_neg fun hcr => hpair hcr.1 hcr.2]
  simp

variable (cr lf) in
/-- Text has no ending, or an ending that waits, or a first line. -/
theorem clean_or_ended (s : List α) :
    Clean cr lf s ∨
      ∃ clean b rest, s = clean ++ b :: rest ∧ Clean cr lf clean ∧ isEnd cr lf b = true := by
  induction s with
  | nil => exact Or.inl fun b hb => absurd hb not_mem_nil
  | cons b s ih =>
    by_cases hb : isEnd cr lf b = true
    · exact Or.inr ⟨[], b, s, rfl, fun c hc => absurd hc not_mem_nil, hb⟩
    · rcases ih with hclean | ⟨clean, c, rest, rfl, hclean, hc⟩
      · exact Or.inl (forall_mem_cons.2 ⟨Bool.eq_false_iff.2 hb, hclean⟩)
      · exact Or.inr ⟨b :: clean, c, rest, rfl,
          forall_mem_cons.2 ⟨Bool.eq_false_iff.2 hb, hclean⟩, hc⟩

theorem afterEnd_append (t : List α) (hpair : b = cr → rest ≠ []) :
    afterEnd cr lf b (rest ++ t) = afterEnd cr lf b rest ++ t := by
  rw [afterEnd, afterEnd]
  cases rest with
  | nil =>
    have hb : b ≠ cr := fun hb => hpair hb rfl
    simp [hb]
  | cons c rest =>
    by_cases h : b = cr ∧ c = lf <;> simp [h]

variable (cr lf) in
theorem afterEnd_suffix (b : α) (rest : List α) : afterEnd cr lf b rest <:+ rest := by
  rw [afterEnd]
  split
  · exact tail_suffix rest
  · exact suffix_rfl

/-- A first line is followed by what its ending leaves. -/
theorem firstLine_eq_some (h : firstLine cr lf s = some (line, rest)) :
    ∃ b after, s = line ++ b :: after ∧ Clean cr lf line ∧ isEnd cr lf b = true ∧
      (b = cr → after ≠ []) ∧ rest = afterEnd cr lf b after := by
  rcases clean_or_ended cr lf s with hclean | ⟨clean, b, after, rfl, hclean, hb⟩
  · rw [firstLine_clean hclean] at h
    cases h
  · by_cases hheld : b = cr ∧ after = []
    · obtain ⟨rfl, rfl⟩ := hheld
      rw [firstLine_held hclean] at h
      cases h
    · have hpair : b = cr → after ≠ [] := fun hcr hnil => hheld ⟨hcr, hnil⟩
      rw [firstLine_ended hclean hb hpair] at h
      obtain ⟨rfl, rfl⟩ := Prod.mk.inj (Option.some.inj h)
      exact ⟨b, after, rfl, hclean, hb, hpair, rfl⟩

theorem firstLine_append (t : List α) (h : firstLine cr lf s = some (line, rest)) :
    firstLine cr lf (s ++ t) = some (line, rest ++ t) := by
  obtain ⟨b, after, rfl, hclean, hb, hpair, rfl⟩ := firstLine_eq_some h
  rw [append_assoc, cons_append,
    firstLine_ended hclean hb fun hcr => append_ne_nil_of_left_ne_nil (hpair hcr) t,
    afterEnd_append t hpair]

theorem length_of_firstLine (h : firstLine cr lf s = some (line, rest)) :
    rest.length < s.length := by
  obtain ⟨b, after, rfl, -, -, -, rfl⟩ := firstLine_eq_some h
  have hle := (afterEnd_suffix cr lf b after).length_le
  rw [length_append, length_cons]
  omega

/-- What has no first line is clean but for an ending that waits. -/
theorem clean_of_firstLine (h : firstLine cr lf s = none) :
    Clean cr lf s ∨ ∃ clean, s = clean ++ [cr] ∧ Clean cr lf clean := by
  rcases clean_or_ended cr lf s with hclean | ⟨clean, b, rest, rfl, hclean, hb⟩
  · exact Or.inl hclean
  · by_cases hheld : b = cr ∧ rest = []
    · obtain ⟨rfl, rfl⟩ := hheld
      exact Or.inr ⟨clean, rfl, hclean⟩
    · rw [firstLine_ended hclean hb fun hcr hnil => hheld ⟨hcr, hnil⟩] at h
      cases h

/-! ## Text that arrives in parts -/

variable (cr lf) in
/-- The complete lines, and what waits for the rest of its line. -/
def cutLines (s : List α) : List (List α) × List α :=
  match _h : firstLine cr lf s with
  | none => ([], s)
  | some (line, rest) => (line :: (cutLines rest).1, (cutLines rest).2)
termination_by s.length
decreasing_by all_goals exact length_of_firstLine _h

theorem cutLines_none (h : firstLine cr lf s = none) : cutLines cr lf s = ([], s) := by
  rw [cutLines]
  split
  · rfl
  · rename_i heq
    rw [h] at heq
    cases heq

theorem cutLines_some (h : firstLine cr lf s = some (line, rest)) :
    cutLines cr lf s = (line :: (cutLines cr lf rest).1, (cutLines cr lf rest).2) := by
  rw [cutLines]
  split
  · rename_i heq
    rw [h] at heq
    cases heq
  · rename_i heq
    rw [h] at heq
    obtain ⟨rfl, rfl⟩ := Prod.mk.inj (Option.some.inj heq)
    rfl

variable (cr lf) in
/-- A property of all text that passes from what follows the first line to the whole. -/
theorem lines_induction {P : List α → Prop} (hnone : ∀ s, firstLine cr lf s = none → P s)
    (hsome : ∀ s line rest, firstLine cr lf s = some (line, rest) → P rest → P s)
    (s : List α) : P s := by
  induction hlength : s.length using Nat.strongRecOn generalizing s with
  | _ length ih =>
    cases h : firstLine cr lf s with
    | none => exact hnone s h
    | some cut =>
      exact hsome s cut.1 cut.2 h (ih _ (hlength ▸ length_of_firstLine h) cut.2 rfl)

variable (cr lf) in
theorem cutLines_append (s t : List α) :
    cutLines cr lf (s ++ t) =
      ((cutLines cr lf s).1 ++ (cutLines cr lf ((cutLines cr lf s).2 ++ t)).1,
        (cutLines cr lf ((cutLines cr lf s).2 ++ t)).2) := by
  induction s using lines_induction cr lf with
  | hnone s h => rw [cutLines_none h, nil_append]
  | hsome s line rest h ih => rw [cutLines_some (firstLine_append t h), cutLines_some h, ih]; rfl

theorem firstLine_suffix (h : firstLine cr lf s = some (line, rest)) : rest <:+ s := by
  obtain ⟨b, after, rfl, -, -, -, rfl⟩ := firstLine_eq_some h
  exact (afterEnd_suffix cr lf b after).trans ⟨line ++ [b], by simp⟩

variable (cr lf) in
theorem waiting_suffix (s : List α) : (cutLines cr lf s).2 <:+ s := by
  induction s using lines_induction cr lf with
  | hnone s h => simpa only [cutLines_none h] using suffix_refl s
  | hsome s line rest h ih =>
    rw [cutLines_some h]
    exact ih.trans (firstLine_suffix h)

variable (cr lf) in
theorem firstLine_waiting (s : List α) : firstLine cr lf (cutLines cr lf s).2 = none := by
  induction s using lines_induction cr lf with
  | hnone s h => rw [cutLines_none h, h]
  | hsome s line rest h ih => rw [cutLines_some h, ih]

/-! ## The whole text -/

variable (cr) in
/-- The line that the end of the text completes. -/
def lastLine (waiting : List α) : List (List α) :=
  if waiting.getLast? = some cr then [waiting.dropLast] else []

variable (cr) in
/-- The bytes of the line that waits. -/
def unended (waiting : List α) : List α :=
  if waiting.getLast? = some cr then waiting.dropLast else waiting

theorem getLast?_clean (h : Clean cr lf clean) : clean.getLast? ≠ some cr := by
  intro hlast
  have hcr := h cr (mem_of_getLast? hlast)
  simp [isEnd] at hcr

theorem lastLine_clean (h : Clean cr lf clean) : lastLine cr clean = [] :=
  if_neg (getLast?_clean h)

theorem unended_clean (h : Clean cr lf clean) : unended cr clean = clean :=
  if_neg (getLast?_clean h)

theorem lastLine_held (clean : List α) : lastLine cr (clean ++ [cr]) = [clean] := by
  simp [lastLine]

theorem unended_held (clean : List α) : unended cr (clean ++ [cr]) = clean := by
  simp [unended]

variable (cr lf) in
/-- The lines of a whole text and what no ending follows, after the bytes of a line before it. -/
def allLines : List α → List α → List (List α) × List α
  | line, [] => ([], line)
  | line, [b] => if isEnd cr lf b then ([line], []) else ([], line ++ [b])
  | line, b :: c :: rest =>
    if b = cr ∧ c = lf then (line :: (allLines [] rest).1, (allLines [] rest).2)
    else if isEnd cr lf b then
      (line :: (allLines [] (c :: rest)).1, (allLines [] (c :: rest)).2)
    else allLines (line ++ [b]) (c :: rest)

theorem allLines_clean_append (h : Clean cr lf clean) (line s : List α) :
    allLines cr lf line (clean ++ s) = allLines cr lf (line ++ clean) s := by
  induction clean generalizing line with
  | nil => simp
  | cons b clean ih =>
    have hb := h b mem_cons_self
    have hcr : b ≠ cr := by
      rintro rfl
      simp [isEnd] at hb
    rw [append_cons, ← ih fun c hc => h c (mem_cons_of_mem _ hc), cons_append]
    cases clean ++ s with
    | nil => simp [allLines, hb]
    | cons c rest => rw [allLines, if_neg fun hpair => hcr hpair.1, if_neg (by simp [hb])]

theorem allLines_end (hb : isEnd cr lf b = true) (line rest : List α) :
    allLines cr lf line (b :: rest) =
      (line :: (allLines cr lf [] (afterEnd cr lf b rest)).1,
        (allLines cr lf [] (afterEnd cr lf b rest)).2) := by
  cases rest with
  | nil => simp [allLines, hb, afterEnd]
  | cons c rest =>
    rw [allLines]
    by_cases hpair : b = cr ∧ c = lf
    · simp [hpair, afterEnd]
    · rw [if_neg hpair, if_pos hb, afterEnd, if_neg (by simpa using hpair)]

/-- The lines of the whole are those cut so far, with the one that its end completes. -/
theorem allLines_eq (s : List α) :
    allLines cr lf [] s =
      ((cutLines cr lf s).1 ++ lastLine cr (cutLines cr lf s).2,
        if (cutLines cr lf s).2.getLast? = some cr then [] else (cutLines cr lf s).2) := by
  induction s using lines_induction cr lf with
  | hnone s h =>
    rw [cutLines_none h]
    rcases clean_of_firstLine h with hclean | ⟨clean, rfl, hclean⟩
    · have heq := allLines_clean_append hclean [] []
      rw [append_nil] at heq
      rw [heq, lastLine_clean hclean, if_neg (getLast?_clean hclean)]
      rfl
    · rw [allLines_clean_append hclean, allLines_end (by simp [isEnd]), lastLine_held]
      simp [afterEnd, allLines]
  | hsome s line rest h ih =>
    obtain ⟨b, after, rfl, hclean, hb, -, rfl⟩ := firstLine_eq_some h
    rw [cutLines_some h, allLines_clean_append hclean, allLines_end hb, ih]
    rfl

end Rivect.Lib
