import Rivect.Lib.Fallible

/-! # Readers of a stream

A reader takes a stream in chunks. What it knows after any chunks is what it would know of the
whole, when each read carries the knowledge of the bytes before it to those with the chunk.
-/

namespace Rivect.Lib

open List

variable {α σ ω ε : Type} {Knows : List α → σ → Prop} {seen : List α} {s : σ}

variable (Knows) in
theorem foldl_knows {push : σ → List α → σ}
    (hpush : ∀ seen s chunk, Knows seen s → Knows (seen ++ chunk) (push s chunk))
    (chunks : List (List α)) (h : Knows seen s) :
    Knows (seen ++ chunks.flatten) (chunks.foldl push s) := by
  induction chunks generalizing seen s with
  | nil => simpa using h
  | cons chunk chunks ih =>
    rw [flatten_cons, ← append_assoc]
    exact ih (hpush seen s chunk h)

/-- The items of all chunks in order, up to the first error. -/
def feedAll (feed : σ → List α → Except ε (σ × List ω)) (s : σ) :
    List (List α) → Except ε (σ × List ω)
  | [] => .ok (s, [])
  | chunk :: chunks => do
    let fed ← feed s chunk
    let rest ← feedAll feed fed.1 chunks
    .ok (rest.1, fed.2 ++ rest.2)

variable {feed : σ → List α → Except ε (σ × List ω)}

theorem feedAll_cons_ok {chunk : List α} {chunks : List (List α)} {fed : σ × List ω}
    (h : feedAll feed s (chunk :: chunks) = .ok fed) :
    ∃ first rest, feed s chunk = .ok first ∧ feedAll feed first.1 chunks = .ok rest ∧
      fed = (rest.1, first.2 ++ rest.2) := by
  obtain ⟨first, hfirst, h⟩ := bind_eq_ok h
  obtain ⟨rest, hrest, h⟩ := bind_eq_ok h
  exact ⟨first, rest, hfirst, hrest, (Except.ok.inj h).symm⟩

theorem feedAll_cons {chunk : List α} {chunks : List (List α)} {first rest : σ × List ω}
    (hfirst : feed s chunk = .ok first) (hrest : feedAll feed first.1 chunks = .ok rest) :
    feedAll feed s (chunk :: chunks) = .ok (rest.1, first.2 ++ rest.2) := by
  rw [feedAll, hfirst, ok_bind, hrest, ok_bind]

theorem feedAll_append {a b : List (List α)} {first second : σ × List ω}
    (ha : feedAll feed s a = .ok first) (hb : feedAll feed first.1 b = .ok second) :
    feedAll feed s (a ++ b) = .ok (second.1, first.2 ++ second.2) := by
  induction a generalizing s first with
  | nil =>
    obtain rfl := Except.ok.inj ha
    exact hb
  | cons chunk a ih =>
    obtain ⟨fed, rest, hfed, hrest, rfl⟩ := feedAll_cons_ok ha
    rw [cons_append, feedAll_cons hfed (ih hrest hb), append_assoc]

/-- A stream taken to its end was taken up to any split. -/
theorem feedAll_split {a b : List (List α)} {fed : σ × List ω}
    (h : feedAll feed s (a ++ b) = .ok fed) :
    ∃ first second, feedAll feed s a = .ok first ∧ feedAll feed first.1 b = .ok second ∧
      fed = (second.1, first.2 ++ second.2) := by
  induction a generalizing s fed with
  | nil => exact ⟨(s, []), fed, rfl, h, rfl⟩
  | cons chunk a ih =>
    obtain ⟨next, rest, hnext, hrest, rfl⟩ := feedAll_cons_ok h
    obtain ⟨first, second, hfirst, hsecond, rfl⟩ := ih hrest
    exact ⟨_, second, feedAll_cons hnext hfirst, hsecond, by simp⟩

variable {items : List α → List ω}
  {Good : List α → Prop}

/-- The reader after `chunk`: it knows the bytes so far and has yielded their items. -/
structure Fed (Knows : List α → σ → Prop) (items : List α → List ω) (seen chunk : List α)
    (fed : σ × List ω) : Prop where
  knows : Knows (seen ++ chunk) fed.1
  items : items (seen ++ chunk) = items seen ++ fed.2

theorem Fed.nil (h : Knows seen s) : Fed Knows items seen [] (s, []) :=
  ⟨by simpa using h, by simp⟩

theorem Fed.append {chunk rest : List α} {fed fed' : σ × List ω}
    (h : Fed Knows items seen chunk fed) (h' : Fed Knows items (seen ++ chunk) rest fed') :
    Fed Knows items seen (chunk ++ rest) (fed'.1, fed.2 ++ fed'.2) := by
  constructor
  · rw [← append_assoc]
    exact h'.knows
  · rw [← append_assoc, h'.items, h.items, append_assoc]

variable (Knows items Good) in
/-- A reader that takes every chunk of a good stream takes the stream however it is split. -/
theorem feedAll_good (hclosed : ∀ seen more, Good (seen ++ more) → Good seen)
    (hfeed : ∀ seen s chunk, Knows seen s → Good (seen ++ chunk) →
      ∃ fed, feed s chunk = .ok fed ∧ Fed Knows items seen chunk fed)
    (chunks : List (List α)) (h : Knows seen s) (hgood : Good (seen ++ chunks.flatten)) :
    ∃ fed, feedAll feed s chunks = .ok fed ∧ Fed Knows items seen chunks.flatten fed := by
  induction chunks generalizing seen s with
  | nil => exact ⟨(s, []), rfl, Fed.nil h⟩
  | cons chunk chunks ih =>
    rw [flatten_cons, ← append_assoc] at hgood
    obtain ⟨fed, hok, hfed⟩ := hfeed seen s chunk h (hclosed _ _ hgood)
    obtain ⟨rest, hrest, hfed'⟩ := ih hfed.knows hgood
    exact ⟨_, feedAll_cons hok hrest, hfed.append hfed'⟩

variable (Knows items Good) in
/-- A reader that takes only good chunks takes only good streams. -/
theorem good_of_feedAll
    (hfeed : ∀ seen s chunk fed, Knows seen s → Good seen → feed s chunk = .ok fed →
      Good (seen ++ chunk) ∧ Fed Knows items seen chunk fed)
    (chunks : List (List α)) {fed : σ × List ω} (h : Knows seen s) (hgood : Good seen)
    (hok : feedAll feed s chunks = .ok fed) :
    Good (seen ++ chunks.flatten) ∧ Fed Knows items seen chunks.flatten fed := by
  induction chunks generalizing seen s fed with
  | nil =>
    obtain rfl := Except.ok.inj hok
    exact ⟨by simpa using hgood, Fed.nil h⟩
  | cons chunk chunks ih =>
    obtain ⟨first, rest, hfirst, hrest, rfl⟩ := feedAll_cons_ok hok
    obtain ⟨hnext, hfed⟩ := hfeed seen s chunk first h hgood hfirst
    obtain ⟨hall, hfed'⟩ := ih hfed.knows hnext hrest
    rw [flatten_cons, ← append_assoc]
    exact ⟨hall, by simpa only [append_assoc] using hfed.append hfed'⟩

end Rivect.Lib
