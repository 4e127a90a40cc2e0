import Mathlib.Data.List.Basic
import Mathlib.Order.Nat

/-! # Editions

A shelf holds editions: the content that a key has under an epoch. A new edition takes an epoch past
every one issued, so an epoch names one content for as long as the shelf exists. A reader takes the
content of an edition a page at a time and goes on from an offset.
-/

namespace Rivect.Lib

open List

open Relation

structure Edition (κ α : Type*) where
  key : κ
  epoch : ℕ
  content : α

structure Shelf (κ α : Type*) where
  editions : List (Edition κ α)
  issued : ℕ

namespace Shelf

variable {κ α : Type*} {s s' s'' : Shelf κ α} {a b : Edition κ α}

/-- Every epoch on the shelf was issued, and to one edition. -/
structure Orderly (s : Shelf κ α) : Prop where
  issued : ∀ a ∈ s.editions, a.epoch ≤ s.issued
  apart : ∀ a ∈ s.editions, ∀ b ∈ s.editions, a.epoch = b.epoch → a = b

/-- One write: editions leave, or one comes in under a new epoch. -/
inductive Write (s s' : Shelf κ α) : Prop
  | keep (held : ∀ b ∈ s'.editions, b ∈ s.editions) (issued : s.issued ≤ s'.issued)
  | issue (a : Edition κ α) (held : ∀ b ∈ s'.editions, b = a ∨ b ∈ s.editions)
      (new : s.issued < a.epoch) (issued : a.epoch ≤ s'.issued)

/-- An edition under an old epoch is an old edition. -/
structure Follows (s s' : Shelf κ α) : Prop where
  issued : s.issued ≤ s'.issued
  old : ∀ b ∈ s'.editions, b.epoch ≤ s.issued → b ∈ s.editions

theorem Follows.refl (s : Shelf κ α) : Follows s s := ⟨le_rfl, fun _ hb _ => hb⟩

theorem Follows.trans (h : Follows s s') (h' : Follows s' s'') : Follows s s'' := by
  refine ⟨h.issued.trans h'.issued, ?_⟩
  intro b hb hle
  exact h.old b (h'.old b hb (hle.trans h.issued)) hle

theorem Write.follows (h : Write s s') : Follows s s' := by
  cases h with
  | keep held issued => exact ⟨issued, fun b hb _ => held b hb⟩
  | issue a held new issued =>
    refine ⟨new.le.trans issued, ?_⟩
    intro b hb hle
    rcases held b hb with rfl | hb
    · exact absurd hle (Nat.not_le.mpr new)
    · exact hb

theorem Orderly.write (h : Orderly s) (hwrite : Write s s') : Orderly s' := by
  cases hwrite with
  | keep held issued =>
    refine ⟨fun b hb => (h.issued b (held b hb)).trans issued, ?_⟩
    intro b hb c hc
    exact h.apart b (held b hb) c (held c hc)
  | issue a held new issued =>
    have hold : ∀ b ∈ s.editions, b.epoch < a.epoch := fun b hb => (h.issued b hb).trans_lt new
    refine ⟨?_, ?_⟩
    · intro b hb
      rcases held b hb with rfl | hb
      · exact issued
      · exact (hold b hb).le.trans issued
    · intro b hb c hc hepoch
      rcases held b hb with rfl | hb <;> rcases held c hc with rfl | hc
      · rfl
      · exact absurd hepoch (hold c hc).ne'
      · exact absurd hepoch (hold b hb).ne
      · exact h.apart b hb c hc hepoch

theorem follows_of_writes (hwrites : ReflTransGen Write s s') : Follows s s' := by
  induction hwrites with
  | refl => exact .refl s
  | tail _ hwrite ih => exact ih.trans hwrite.follows

/-- An epoch names one edition, now and later. -/
theorem Orderly.same (h : Orderly s) (hfollows : Follows s s') (ha : a ∈ s.editions)
    (hb : b ∈ s'.editions) (hepoch : a.epoch = b.epoch) : a = b := by
  have hissued : b.epoch ≤ s.issued := hepoch ▸ h.issued a ha
  exact h.apart a ha b (hfollows.old b hb hissued) hepoch

end Shelf

/-! ## Pages of one content -/

section

variable {α : Type*} {content : List α} {k : ℕ} {pages : List (List α)} {final : Option ℕ}

/-- The pages that a reader takes from an offset on, and the offset it would go on from. -/
inductive Pages (content : List α) : ℕ → List (List α) → Option ℕ → Prop
  | last {k size : ℕ} (rest : content.length ≤ k + size) :
      Pages content k [(content.drop k).take size] none
  | stop {k size : ℕ} (positive : 1 ≤ size) (rest : k + size < content.length) :
      Pages content k [(content.drop k).take size] (some (k + size))
  | more {k size : ℕ} {pages : List (List α)} {final : Option ℕ} (positive : 1 ≤ size)
      (rest : k + size < content.length) (later : Pages content (k + size) pages final) :
      Pages content k ((content.drop k).take size :: pages) final

theorem take_append_drop_add (content : List α) (k size : ℕ) :
    (content.drop k).take size ++ content.drop (k + size) = content.drop k := by
  rw [← drop_drop, take_append_drop]

/-- The pages and what they leave are all there is: nothing is skipped, nothing repeated. -/
theorem Pages.flatten (h : Pages content k pages final) :
    pages.flatten ++ content.drop (final.getD content.length) = content.drop k := by
  induction h with
  | @last k size rest =>
    have := take_append_drop_add content k size
    rw [drop_eq_nil_of_le rest] at this
    simpa using this
  | @stop k size positive rest =>
    rw [flatten_singleton, Option.getD_some, take_append_drop_add]
  | @more k size pages final positive rest later ih =>
    rw [flatten_cons, append_assoc, ih, take_append_drop_add]

/-- A reader that may go on has more to read. -/
theorem Pages.final_lt (h : Pages content k pages final) : ∀ k' ∈ final, k' < content.length := by
  induction h with
  | last rest => simp
  | stop positive rest =>
    intro k' hk'
    rwa [← Option.some.inj hk']
  | more positive rest later ih => exact ih

/-- Every page but the last advances. -/
theorem Pages.length_le (h : Pages content k pages final) :
    pages.length ≤ content.length - k + 1 := by
  induction h with
  | last rest => simp
  | stop positive rest => simp
  | more positive rest later ih =>
    rw [length_cons]
    omega

end

end Rivect.Lib
