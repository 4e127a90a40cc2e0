import Mathlib.Data.List.Nodup
import Mathlib.Data.List.Pairwise
import Mathlib.Order.Nat

/-! # Breadth first

A breadth-first walk between two expansions: what it has expanded, in order, and the frontier it
still has to expand, each with the depth at which it was found. What holds is closed under one
expansion, so it holds however the walk is cut.
-/

namespace Rivect.Lib

open List

variable {κ : Type*} {next : κ → List κ} {seeds new : List κ} {expanded frontier : List (κ × ℕ)}
  {a : κ} {d n : ℕ}

/-- `a` is found `n` rows away from some seed. -/
inductive Reaches (next : κ → List κ) (seeds : List κ) : ℕ → κ → Prop
  | seed {a : κ} : a ∈ seeds → Reaches next seeds 0 a
  | row {a b : κ} {n : ℕ} : Reaches next seeds n a → b ∈ next a → Reaches next seeds (n + 1) b

/-- `n` is the least number of rows that leads from a seed to `a`. -/
def Distance (next : κ → List κ) (seeds : List κ) (a : κ) (n : ℕ) : Prop :=
  Reaches next seeds n a ∧ ∀ m, Reaches next seeds m a → n ≤ m

structure Breadth (next : κ → List κ) (seeds : List κ) (expanded frontier : List (κ × ℕ)) :
    Prop where
  nodup : ((expanded ++ frontier).map Prod.fst).Nodup
  sound : ∀ p ∈ expanded ++ frontier, Reaches next seeds p.2 p.1
  seeded : ∀ s ∈ seeds, (s, 0) ∈ expanded ++ frontier
  closed : ∀ p ∈ expanded, ∀ k ∈ next p.1, ∃ n ≤ p.2 + 1, (k, n) ∈ expanded ++ frontier
  ordered : (expanded ++ frontier).Pairwise fun p q => p.2 ≤ q.2
  near : ∀ p ∈ frontier, ∀ q ∈ frontier, q.2 ≤ p.2 + 1

namespace Breadth

/-- Before the first expansion the frontier holds each seed once. -/
theorem start (hnodup : new.Nodup) (hmem : ∀ a, a ∈ new ↔ a ∈ seeds) :
    Breadth next seeds [] (new.map fun a => (a, 0)) where
  nodup := by simpa [Function.comp_def] using hnodup
  sound p hp := by
    obtain ⟨a, ha, rfl⟩ := mem_map.mp hp
    exact .seed ((hmem a).mp ha)
  seeded s hs := mem_map.mpr ⟨s, (hmem s).mpr hs, rfl⟩
  closed := nofun
  ordered := pairwise_map.mpr (pairwise_of_forall fun _ _ => Nat.le_refl _)
  near p hp q hq := by
    obtain ⟨a, -, rfl⟩ := mem_map.mp hp
    obtain ⟨b, -, rfl⟩ := mem_map.mp hq
    exact Nat.zero_le _

/-- The expansion of the first of the frontier, with the keys that were not held yet. -/
theorem expand (h : Breadth next seeds expanded ((a, d) :: frontier)) (hnodup : new.Nodup)
    (hmem : ∀ k, k ∈ new ↔
      k ∈ next a ∧ k ∉ (expanded ++ (a, d) :: frontier).map Prod.fst) :
    Breadth next seeds (expanded ++ [(a, d)]) (frontier ++ new.map fun k => (k, d + 1)) := by
  have hlist : expanded ++ [(a, d)] ++ (frontier ++ new.map fun k => (k, d + 1)) =
      expanded ++ (a, d) :: frontier ++ new.map fun k => (k, d + 1) := by simp
  have hhead : ∀ p ∈ expanded ++ (a, d) :: frontier, p.2 ≤ d + 1 := by
    intro p hp
    rcases mem_append.mp hp with hp | hp
    · exact Nat.le_succ_of_le ((pairwise_append.mp h.ordered).2.2 p hp (a, d)
        mem_cons_self)
    · exact h.near (a, d) mem_cons_self p hp
  have hlater : ∀ p ∈ frontier, d ≤ p.2 := fun p hp =>
    rel_of_pairwise_cons (pairwise_append.mp h.ordered).2.1 hp
  constructor
  · rw [hlist, map_append, nodup_append]
    refine ⟨h.nodup, by simpa [Function.comp_def] using hnodup, ?_⟩
    rintro k hk l hl rfl
    obtain ⟨p, hp, rfl⟩ := mem_map.mp hl
    obtain ⟨k, hknew, rfl⟩ := mem_map.mp hp
    exact ((hmem k).mp hknew).2 hk
  · rw [hlist]
    intro p hp
    rcases mem_append.mp hp with hp | hp
    · exact h.sound p hp
    · obtain ⟨k, hk, rfl⟩ := mem_map.mp hp
      have ha : Reaches next seeds d a := h.sound (a, d) (by simp)
      exact .row ha ((hmem k).mp hk).1
  · rw [hlist]
    exact fun s hs => mem_append_left _ (h.seeded s hs)
  · rw [hlist]
    intro p hp k hk
    rcases mem_append.mp hp with hp | hp
    · obtain ⟨n, hn, hmem⟩ := h.closed p hp k hk
      exact ⟨n, hn, mem_append_left _ hmem⟩
    · obtain rfl : p = (a, d) := by simpa using hp
      by_cases hheld : k ∈ (expanded ++ (a, d) :: frontier).map Prod.fst
      · obtain ⟨⟨k', n⟩, hmem, rfl⟩ := mem_map.mp hheld
        exact ⟨n, hhead _ hmem, mem_append_left _ hmem⟩
      · exact ⟨d + 1, Nat.le_refl _,
          mem_append_right _ (mem_map.mpr ⟨k, (hmem k).mpr ⟨hk, hheld⟩, rfl⟩)⟩
  · rw [hlist, pairwise_append]
    refine ⟨h.ordered,
      pairwise_map.mpr (pairwise_of_forall fun _ _ => Nat.le_refl _), ?_⟩
    intro p hp q hq
    obtain ⟨k, -, rfl⟩ := mem_map.mp hq
    exact hhead p hp
  · have hbounds : ∀ p ∈ frontier ++ new.map fun k => (k, d + 1), d ≤ p.2 ∧ p.2 ≤ d + 1 := by
      intro p hp
      rcases mem_append.mp hp with hp | hp
      · exact ⟨hlater p hp, hhead p (by simp [hp])⟩
      · obtain ⟨k, -, rfl⟩ := mem_map.mp hp
        exact ⟨Nat.le_succ d, Nat.le_refl _⟩
    intro p hp q hq
    have := hbounds p hp
    have := hbounds q hq
    omega

/-- Whatever is `n` rows away is held at a depth of at most `n`, or waits behind something of the
frontier that is nearer. -/
theorem held (h : Breadth next seeds expanded frontier) (ha : Reaches next seeds n a) :
    (∃ d ≤ n, (a, d) ∈ expanded ++ frontier) ∨ ∃ p ∈ frontier, p.2 < n := by
  induction ha with
  | seed ha => exact .inl ⟨0, Nat.le_refl _, h.seeded _ ha⟩
  | @row a b n _ hrow ih =>
    rcases ih with ⟨d, hd, hmem⟩ | ⟨p, hp, hlt⟩
    · rcases mem_append.mp hmem with hmem | hmem
      · obtain ⟨e, he, hb⟩ := h.closed (a, d) hmem b hrow
        exact .inl ⟨e, by dsimp only at he; omega, hb⟩
      · exact .inr ⟨(a, d), hmem, by dsimp only; omega⟩
    · exact .inr ⟨p, hp, by omega⟩

theorem distance (h : Breadth next seeds expanded frontier) (ha : (a, d) ∈ expanded ++ frontier) :
    Distance next seeds a d := by
  refine ⟨h.sound _ ha, fun m hm => ?_⟩
  rcases h.held hm with ⟨e, he, hmem⟩ | ⟨p, hp, hlt⟩
  · have heq : (a, d) = (a, e) := inj_on_of_nodup_map h.nodup ha hmem rfl
    cases heq
    exact he
  · rcases mem_append.mp ha with ha | ha
    · have := (pairwise_append.mp h.ordered).2.2 _ ha p hp
      dsimp only at this
      omega
    · have := h.near p hp _ ha
      dsimp only at this
      omega

/-- With nothing left to expand, everything that can be reached is held. -/
theorem complete (h : Breadth next seeds expanded []) :
    a ∈ expanded.map Prod.fst ↔ ∃ n, Reaches next seeds n a := by
  constructor
  · intro ha
    obtain ⟨p, hp, rfl⟩ := mem_map.mp ha
    exact ⟨p.2, h.sound p (by simpa using hp)⟩
  · rintro ⟨n, hn⟩
    rcases h.held hn with ⟨d, -, hmem⟩ | ⟨p, hp, -⟩
    · exact mem_map.mpr ⟨(a, d), by simpa using hmem, rfl⟩
    · cases hp

end Breadth

end Rivect.Lib
