import Mathlib.Data.Fintype.Card

/-! # Two worklist loops

`depthFirst` pops a stack and pushes the successors of what it popped, with no memory of
what it has seen: on a forest it lists every descendant of the root once. `sweep` walks a
growing list by index and appends what an edge list hangs under the current element and
is not yet listed: it ends on every edge list, also a cyclic one.
-/

namespace Rivect.Lib

open List

variable {α : Type*}

section DepthFirst

variable (succ : α → List α)

def depthFirst : ℕ → List α → List α → Option (List α)
  | _, [], seen => some seen
  | 0, _ :: _, _ => none
  | n + 1, a :: stack, seen => depthFirst n (succ a ++ stack) (seen ++ [a])

abbrev Descends : α → α → Prop := Relation.ReflTransGen fun a b => b ∈ succ a

variable {succ}

/-- A successor function without sharing below `root` and with finitely many descendants. -/
structure ForestBelow (succ : α → List α) (root : α) (univ : List α) : Prop where
  nodup : ∀ a, (succ a).Nodup
  unique : ∀ a b c, c ∈ succ a → c ∈ succ b → a = b
  root_fresh : ∀ a, Descends succ root a → root ∉ succ a
  finite : ∀ a, Descends succ root a → a ∈ univ

/-- What holds between two iterations of `depthFirst` started at `root`. -/
structure Traversal (succ : α → List α) (root : α) (stack seen : List α) : Prop where
  nodup : (seen ++ stack).Nodup
  sound : ∀ a ∈ seen ++ stack, Descends succ root a
  root_mem : root ∈ seen ++ stack
  closed : ∀ a ∈ seen, ∀ b ∈ succ a, b ∈ seen ++ stack
  parent : ∀ a ∈ seen ++ stack, a ≠ root → ∃ b ∈ seen, a ∈ succ b

theorem Traversal.start (root : α) : Traversal succ root [root] [] where
  nodup := by simp
  sound a ha := by
    obtain rfl : a = root := by simpa using ha
    exact .refl
  root_mem := by simp
  closed a ha := by simp at ha
  parent a ha hne := absurd (by simpa using ha) hne

theorem Traversal.pop {root a : α} {stack seen univ : List α} (hf : ForestBelow succ root univ)
    (h : Traversal succ root (a :: stack) seen) :
    Traversal succ root (succ a ++ stack) (seen ++ [a]) := by
  have hmem : ∀ b, b ∈ seen ++ [a] ++ (succ a ++ stack) ↔ b ∈ seen ++ a :: stack ∨ b ∈ succ a := by
    intro b
    simp only [mem_append, mem_cons, not_mem_nil, or_false]
    tauto
  have ha : Descends succ root a := h.sound a (by simp)
  have hfresh : ∀ b ∈ succ a, b ∉ seen ++ a :: stack := by
    intro b hb hmemb
    by_cases hroot : b = root
    · exact hf.root_fresh a ha (hroot ▸ hb)
    · obtain ⟨c, hc, hbc⟩ := h.parent b hmemb hroot
      obtain rfl := hf.unique _ _ _ hb hbc
      exact (nodup_append.mp h.nodup).2.2 _ hc _ (by simp) rfl
  refine ⟨?_, ?_, ?_, ?_, ?_⟩
  · have hperm := perm_append_comm_assoc (seen ++ [a]) (succ a) stack
    refine hperm.nodup_iff.mpr (nodup_append.mpr ⟨hf.nodup a, by simpa using h.nodup, ?_⟩)
    rintro b hb c hc rfl
    exact hfresh b hb (by simpa using hc)
  · intro b hb
    rcases (hmem b).mp hb with hb | hb
    · exact h.sound b hb
    · exact ha.tail hb
  · exact (hmem root).mpr (.inl h.root_mem)
  · intro b hb c hc
    rcases mem_append.mp hb with hb | hb
    · exact (hmem c).mpr (.inl (by simpa using h.closed b hb c hc))
    · obtain rfl : b = a := by simpa using hb
      exact (hmem c).mpr (.inr hc)
  · intro b hb hne
    rcases (hmem b).mp hb with hb | hb
    · obtain ⟨c, hc, hbc⟩ := h.parent b hb hne
      exact ⟨c, by simp [hc], hbc⟩
    · exact ⟨a, by simp, hb⟩

/-- On a forest the fuel `univ.length` suffices and every descendant is listed once. -/
theorem depthFirst_spec [DecidableEq α] {root : α} {univ : List α}
    (hf : ForestBelow succ root univ) :
    ∃ l, depthFirst succ univ.length [root] [] = some l ∧ l.Nodup ∧
      ∀ a, a ∈ l ↔ Descends succ root a := by
  have hloop : ∀ n stack seen, univ.length ≤ n + seen.length → Traversal succ root stack seen →
      ∃ l, depthFirst succ n stack seen = some l ∧ Traversal succ root [] l := by
    intro n
    induction n with
    | zero =>
      intro stack seen hlen h
      cases stack with
      | nil => exact ⟨seen, rfl, h⟩
      | cons a stack =>
        have hsub : (seen ++ a :: stack).length ≤ univ.length :=
          (h.nodup.subperm fun b hb => hf.finite b (h.sound b hb)).length_le
        simp only [length_append, length_cons] at hsub
        omega
    | succ n ih =>
      intro stack seen hlen h
      cases stack with
      | nil => exact ⟨seen, rfl, h⟩
      | cons a stack => exact ih _ _ (by simp; omega) (h.pop hf)
  obtain ⟨l, hl, ht⟩ := hloop univ.length [root] [] (by simp) (Traversal.start root)
  refine ⟨l, hl, by simpa using ht.nodup, fun a => ⟨fun ha => ht.sound a (by simpa using ha), ?_⟩⟩
  intro ha
  induction ha with
  | refl => simpa using ht.root_mem
  | tail _ hbc ih => simpa using ht.closed _ ih _ hbc

end DepthFirst

section Sweep

abbrev Under (edges : List (α × α)) : α → α → Prop :=
  Relation.ReflTransGen fun p c => (c, p) ∈ edges

/-- What holds between two iterations of `sweep` started at `root`. -/
structure Sweeping (edges : List (α × α)) (root : α) (index : ℕ) (seen : List α) : Prop where
  nodup : seen.Nodup
  root_mem : root ∈ seen
  sound : ∀ a ∈ seen, Under edges root a
  named : ∀ a ∈ seen, a = root ∨ a ∈ edges.map Prod.fst
  closed : ∀ i < index, ∀ a, seen[i]? = some a → ∀ b, (b, a) ∈ edges → b ∈ seen

theorem Sweeping.start (edges : List (α × α)) (root : α) : Sweeping edges root 0 [root] where
  nodup := by simp
  root_mem := by simp
  sound a ha := by
    obtain rfl : a = root := by simpa using ha
    exact .refl
  named a ha := .inl (by simpa using ha)
  closed i hi := absurd hi (by omega)

variable [DecidableEq α] (edges : List (α × α))

/-- Appends the elements an edge `(child, current)` names and `seen` does not list yet. -/
def expand (current : α) (seen : List α) : List α :=
  edges.foldl (fun seen e => if e.2 = current ∧ e.1 ∉ seen then seen ++ [e.1] else seen) seen

def sweep : ℕ → ℕ → List α → Option (List α)
  | n, index, seen =>
    match seen[index]? with
    | none => some seen
    | some current =>
      match n with
      | 0 => none
      | n + 1 => sweep n (index + 1) (expand edges current seen)

variable {edges}

theorem expand_prefix (current : α) (seen : List α) : seen <+: expand edges current seen := by
  unfold expand
  induction edges generalizing seen with
  | nil => simp
  | cons e es ih =>
    simp only [foldl_cons]
    split
    · exact (prefix_append _ _).trans (ih _)
    · exact ih _

theorem mem_expand {current b : α} {seen : List α} :
    b ∈ expand edges current seen ↔ b ∈ seen ∨ (b, current) ∈ edges := by
  unfold expand
  induction edges generalizing seen with
  | nil => simp
  | cons e es ih =>
    obtain ⟨c, p⟩ := e
    simp only [foldl_cons, ih, mem_cons, Prod.mk.injEq]
    split
    · rename_i h
      simp only [mem_append, mem_singleton]
      obtain ⟨rfl, -⟩ := h
      tauto
    · rename_i h
      by_cases hp : p = current
      · have hc : c ∈ seen := by simpa [hp] using h
        constructor
        · tauto
        · rintro (hb | ⟨rfl, -⟩ | hb)
          · exact .inl hb
          · exact .inl hc
          · exact .inr hb
      · have : current ≠ p := fun he => hp he.symm
        tauto

theorem expand_nodup {current : α} {seen : List α} (h : seen.Nodup) :
    (expand edges current seen).Nodup := by
  unfold expand
  induction edges generalizing seen with
  | nil => simpa using h
  | cons e es ih =>
    simp only [foldl_cons]
    split
    · rename_i he
      refine ih (nodup_append.mpr ⟨h, by simp, ?_⟩)
      rintro a ha b hb rfl
      exact he.2 ((mem_singleton.mp hb) ▸ ha)
    · exact ih h

theorem Sweeping.next {root a : α} {index : ℕ} {seen : List α}
    (h : Sweeping edges root index seen) (ha : seen[index]? = some a) :
    Sweeping edges root (index + 1) (expand edges a seen) := by
  have hmem : a ∈ seen := mem_of_getElem? ha
  have hlt : index < seen.length := (List.getElem?_eq_some_iff.mp ha).1
  refine ⟨expand_nodup h.nodup, mem_expand.mpr (.inl h.root_mem), ?_, ?_, ?_⟩
  · intro b hb
    rcases mem_expand.mp hb with hb | hb
    · exact h.sound b hb
    · exact (h.sound a hmem).tail hb
  · intro b hb
    rcases mem_expand.mp hb with hb | hb
    · exact h.named b hb
    · exact .inr (mem_map.mpr ⟨_, hb, rfl⟩)
  · intro i hi b hb c hc
    obtain ⟨t, ht⟩ : seen <+: expand edges a seen := expand_prefix a seen
    rw [← ht, getElem?_append_left (by omega)] at hb
    by_cases hii : i = index
    · subst hii
      obtain rfl : a = b := by simpa [ha] using hb
      exact mem_expand.mpr (.inr hc)
    · exact mem_expand.mpr (.inl (h.closed i (by omega) b hb c hc))

/-- `edges.length + 1` fuel suffices on every edge list. -/
theorem sweep_spec (root : α) : ∃ l, sweep edges (edges.length + 1) 0 [root] = some l ∧
    ∀ a, a ∈ l ↔ Under edges root a := by
  have hloop : ∀ n index seen, edges.length + 1 ≤ n + index → Sweeping edges root index seen →
      ∃ l, sweep edges n index seen = some l ∧ ∃ m, l.length ≤ m ∧ Sweeping edges root m l := by
    intro n
    induction n with
    | zero =>
      intro index seen hlen h
      have hle : seen.length ≤ edges.length + 1 := by
        have hsub : seen ⊆ root :: edges.map Prod.fst := fun a ha => by
          simpa using h.named a ha
        simpa using (h.nodup.subperm hsub).length_le
      have hnone : seen[index]? = none := getElem?_eq_none (by omega)
      exact ⟨seen, by simp [sweep, hnone], index, by omega, h⟩
    | succ n ih =>
      intro index seen hlen h
      cases hs : seen[index]? with
      | none =>
        exact ⟨seen, by simp [sweep, hs], index, getElem?_eq_none_iff.mp hs, h⟩
      | some a =>
        obtain ⟨l, hl, hm⟩ := ih (index + 1) (expand edges a seen) (by omega) (h.next hs)
        exact ⟨l, by rw [sweep]; simpa [hs] using hl, hm⟩
  obtain ⟨l, hl, m, hlm, h⟩ := hloop (edges.length + 1) 0 [root] (by omega) (Sweeping.start edges root)
  refine ⟨l, hl, fun a => ⟨h.sound a, fun ha => ?_⟩⟩
  induction ha with
  | refl => exact h.root_mem
  | tail _ hbc ih =>
    obtain ⟨i, hi, hget⟩ := getElem_of_mem ih
    exact h.closed i (by omega) _ (List.getElem?_eq_some_iff.mpr ⟨hi, hget⟩) _ hbc

end Sweep

end Rivect.Lib
