import Mathlib.Data.Fintype.Pigeonhole
import Mathlib.Tactic.Ring

/-! # Walking a partial successor

`firstHit next hit n a` follows `next` from `a` until `hit` answers or the chain ends. The
fuel `n` bounds the elements looked at and `none` means it ran out. When only the elements
of a list `keys` have a successor, `keys.length + 1` is enough fuel for every walk that
ends at all (`firstHit_keys`), and every walk of an acyclic successor ends.
-/

namespace Rivect.Lib

open Option

section

variable {α β : Type*} (next : α → Option α) (hit : α → Option β)

def firstHit : ℕ → Option α → Option (Option β)
  | _, none => some none
  | 0, some _ => none
  | n + 1, some a =>
    match hit a with
    | some b => some (some b)
    | none => firstHit n (next a)

/-- The element `k` links up from `a`. -/
def link : ℕ → α → Option α
  | 0, a => some a
  | k + 1, a => (next a).bind (link k)

def Follows (a b : α) : Prop := next a = some b

def Acyclic : Prop := ∀ a, ¬ Relation.TransGen (Follows next) a a

variable {next hit}

theorem link_zero (a : α) : link next 0 a = some a := rfl

theorem link_succ (k : ℕ) (a : α) : link next (k + 1) a = (next a).bind (link next k) := rfl

theorem firstHit_zero (a : α) : firstHit next hit 0 (some a) = none := rfl

theorem firstHit_succ (n : ℕ) (a : α) : firstHit next hit (n + 1) (some a) =
    match hit a with
    | some b => some (some b)
    | none => firstHit next hit n (next a) := rfl

/-- A successor that raises a rank has no cycle. -/
theorem Acyclic.of_rank (rank : α → ℕ) (h : ∀ a b, next a = some b → rank a < rank b) :
    Acyclic next := by
  intro a ha
  have hlt : ∀ b, Relation.TransGen (Follows next) a b → rank a < rank b := by
    intro b hb
    induction hb with
    | single hab => exact h _ _ hab
    | tail _ hbc ih => exact ih.trans (h _ _ hbc)
  exact (hlt a ha).ne rfl

@[simp] theorem firstHit_end (n : ℕ) : firstHit next hit n none = some none := by
  cases n <;> rfl

theorem link_add (m n : ℕ) (a : α) : link next (m + n) a = (link next m a).bind (link next n) := by
  induction m generalizing a with
  | zero => simp [link_zero]
  | succ m ih =>
    rw [show m + 1 + n = m + n + 1 by omega, link_succ, link_succ]
    cases next a with
    | none => rfl
    | some b => simpa using ih b

theorem link_isSome_of_le {m n : ℕ} {a : α} (hmn : m ≤ n) (h : (link next n a).isSome) :
    (link next m a).isSome := by
  obtain ⟨k, rfl⟩ := Nat.exists_eq_add_of_le hmn
  rw [link_add] at h
  cases hm : link next m a with
  | none => simp [hm] at h
  | some b => rfl

theorem follows_iff_link {a b : α} :
    Relation.ReflTransGen (Follows next) a b ↔ ∃ k, link next k a = some b := by
  constructor
  · intro h
    induction h with
    | refl => exact ⟨0, rfl⟩
    | tail _ hbc ih =>
      obtain ⟨k, hk⟩ := ih
      refine ⟨k + 1, ?_⟩
      rw [link_add, hk]
      simp only [bind_some, link_zero, link_succ]
      rw [show next _ = some _ from hbc]
      rfl
  · rintro ⟨k, hk⟩
    induction k generalizing a with
    | zero =>
      obtain rfl : a = b := by simpa [link_zero, link_succ] using hk
      exact .refl
    | succ k ih =>
      cases hn : next a with
      | none => simp [link_succ, hn] at hk
      | some c => exact .head hn (ih (by simpa [link_zero, link_succ, hn] using hk))

/-- A positive number of links that returns to its start is a cycle. -/
theorem transGen_of_link {k : ℕ} {a : α} (hk : 0 < k) (h : link next k a = some a) :
    Relation.TransGen (Follows next) a a := by
  obtain ⟨k, rfl⟩ := Nat.exists_eq_succ_of_ne_zero hk.ne'
  cases hn : next a with
  | none => simp [link_succ, hn] at h
  | some c =>
    have hback : Relation.ReflTransGen (Follows next) c a := by
      rw [follows_iff_link]
      exact ⟨k, by simpa [link_succ, hn] using h⟩
    exact .head' hn hback

/-- A walk runs out of fuel exactly when the chain is longer and nothing on it was a hit. -/
theorem firstHit_eq_none {n : ℕ} {a : α} : firstHit next hit n (some a) = none ↔
    (∀ k < n, ∀ b, link next k a = some b → hit b = none) ∧ (link next n a).isSome := by
  induction n generalizing a with
  | zero => simp [firstHit_zero, link_zero]
  | succ n ih =>
    simp only [firstHit_succ, link_succ]
    cases hh : hit a with
    | some c =>
      simp only [reduceCtorEq, false_iff]
      intro h
      have := h.1 0 (by omega) a rfl
      simp [hh] at this
    | none =>
      cases hn : next a with
      | none => simp
      | some c =>
        simp only [bind_some, ih]
        constructor
        · rintro ⟨hk, hs⟩
          refine ⟨fun k hkn b hb => ?_, hs⟩
          cases k with
          | zero =>
            obtain rfl : a = b := by simpa [link_zero, link_succ] using hb
            exact hh
          | succ k => exact hk k (by omega) b (by simpa [link_zero, link_succ, hn] using hb)
        · rintro ⟨hk, hs⟩
          exact ⟨fun k hkn b hb => hk (k + 1) (by omega) b (by simpa [link_zero, link_succ, hn] using hb), hs⟩

theorem exists_link_of_firstHit {n : ℕ} {a : α} {b : β}
    (h : firstHit next hit n (some a) = some (some b)) :
    ∃ k c, link next k a = some c ∧ hit c = some b := by
  induction n generalizing a with
  | zero => simp [firstHit_zero] at h
  | succ n ih =>
    simp only [firstHit_succ] at h
    cases hh : hit a with
    | some c => exact ⟨0, a, rfl, by simpa [hh] using h⟩
    | none =>
      cases hn : next a with
      | none => simp [hh, hn] at h
      | some c =>
        obtain ⟨k, d, hk, hd⟩ := ih (by simpa [hh, hn] using h)
        exact ⟨k + 1, d, by simpa [link_zero, link_succ, hn] using hk, hd⟩

theorem no_hit_of_firstHit {n : ℕ} {a : α} (h : firstHit next hit n (some a) = some none)
    {k : ℕ} {c : α} (hk : link next k a = some c) : hit c = none := by
  induction n generalizing a k with
  | zero => simp [firstHit_zero] at h
  | succ n ih =>
    simp only [firstHit_succ] at h
    cases hh : hit a with
    | some d => simp [hh] at h
    | none =>
      cases k with
      | zero =>
        obtain rfl : a = c := by simpa [link_zero, link_succ] using hk
        exact hh
      | succ k =>
        cases hn : next a with
        | none => simp [link_succ, hn] at hk
        | some d =>
          exact ih (a := d) (by simpa [hh, hn] using h) (by simpa [link_zero, link_succ, hn] using hk)

theorem Acyclic.of_le {next' : α → Option α} (h : Acyclic next')
    (hsub : ∀ a b, next a = some b → next' a = some b) : Acyclic next := by
  intro a ha
  exact h a (Relation.TransGen.mono hsub _ _ ha)

section Extend

variable {next' : α → Option α} {a b : α} (hnone : next a = none) (ha : next' a = some b)
  (hother : ∀ c, c ≠ a → next' c = next c)

include ha hother

/-- A walk that may use the new link either does not, or first reaches it and leaves from its
end. -/
theorem reaches_extend {x y : α} (h : Relation.ReflTransGen (Follows next') x y) :
    Relation.ReflTransGen (Follows next) x y ∨
      Relation.ReflTransGen (Follows next) x a ∧ Relation.ReflTransGen (Follows next) b y := by
  induction h with
  | refl => exact .inl .refl
  | @tail y z _ hyz ih =>
    by_cases hy : y = a
    · subst hy
      obtain rfl : b = z := mem_unique ha hyz
      rcases ih with hold | ⟨hold, -⟩
      · exact .inr ⟨hold, .refl⟩
      · exact .inr ⟨hold, .refl⟩
    · have hold : next y = some z := (hother y hy).symm.trans hyz
      rcases ih with hxy | ⟨hxa, hby⟩
      · exact .inl (hxy.tail hold)
      · exact .inr ⟨hxa, hby.tail hold⟩

include hnone

/-- A link that starts at an end of the chains closes a cycle exactly where its start can be reached
from its target. -/
theorem acyclic_extend (hac : Acyclic next) :
    Acyclic next' ↔ ¬ Relation.ReflTransGen (Follows next) b a := by
  have hsub : ∀ c d, Follows next c d → Follows next' c d := by
    intro c d hcd
    have hc : c ≠ a := by
      rintro rfl
      cases hnone.symm.trans hcd
    exact (hother c hc).trans hcd
  constructor
  · intro hac' hba
    exact hac' a (Relation.TransGen.head' ha (Relation.ReflTransGen.mono hsub _ _ hba))
  · intro hba c hc
    obtain ⟨d, hcd, hdc⟩ := Relation.TransGen.head'_iff.mp hc
    have hback := reaches_extend ha hother hdc
    by_cases hca : c = a
    · subst hca
      obtain rfl : b = d := mem_unique ha hcd
      rcases hback with h | ⟨h, -⟩
      · exact hba h
      · exact hba h
    · have hold : next c = some d := (hother c hca).symm.trans hcd
      rcases hback with h | ⟨hda, hbc⟩
      · exact hac c (Relation.TransGen.head' hold h)
      · exact hba ((hbc.tail hold).trans hda)

end Extend

section Keys

variable {keys : List α} (hkeys : ∀ a b, next a = some b → a ∈ keys)

include hkeys

/-- A chain longer than `keys` visits one element twice. -/
theorem exists_repeat {a : α} (h : (link next (keys.length + 1) a).isSome) :
    ∃ i j b, i < j ∧ j < keys.length + 1 ∧ link next i a = some b ∧ link next j a = some b := by
  have hsome : ∀ i : Fin (keys.length + 1), ∃ b ∈ keys, link next i.val a = some b := by
    intro i
    have h1 : (link next (i.val + 1) a).isSome := link_isSome_of_le (by omega) h
    obtain ⟨c, hc⟩ := isSome_iff_exists.mp h1
    rw [link_add] at hc
    cases hb : link next i.val a with
    | none => simp [hb] at hc
    | some b =>
      refine ⟨b, ?_, rfl⟩
      cases hn : next b with
      | none => simp [hb, link_zero, link_succ, hn] at hc
      | some d => exact hkeys b d hn
  choose f hf hl using hsome
  have hcard : Fintype.card (Fin keys.length) < Fintype.card (Fin (keys.length + 1)) := by simp
  let g : Fin (keys.length + 1) → Fin keys.length := fun i =>
    ⟨(List.getElem_of_mem (hf i)).choose, (List.getElem_of_mem (hf i)).choose_spec.1⟩
  have hg : ∀ i, keys.get (g i) = f i := fun i => (List.getElem_of_mem (hf i)).choose_spec.2
  obtain ⟨i, j, hne, heq⟩ := Fintype.exists_ne_map_eq_of_card_lt g hcard
  have hfe : f i = f j := by rw [← hg i, ← hg j]; simp only [heq]
  rcases lt_or_gt_of_ne (fun hv => hne (Fin.ext hv)) with hlt | hlt
  · exact ⟨i.val, j.val, f i, hlt, j.isLt, hl i, by rw [hfe]; exact hl j⟩
  · exact ⟨j.val, i.val, f i, hlt, i.isLt, by rw [hfe]; exact hl j, hl i⟩

/-- An element visited twice keeps the chain among its first elements for ever. -/
theorem exists_small_link {a : α} (h : (link next (keys.length + 1) a).isSome) (m : ℕ) :
    ∃ k < keys.length + 1, link next m a = link next k a := by
  obtain ⟨i, j, b, hij, hj, hi, hjb⟩ := exists_repeat hkeys h
  induction m using Nat.strong_induction_on with
  | _ m ih =>
    by_cases hm : m < keys.length + 1
    · exact ⟨m, hm, rfl⟩
    · obtain ⟨k, hk, hmk⟩ := ih (i + (m - j)) (by omega)
      refine ⟨k, hk, ?_⟩
      rw [← hmk, show m = j + (m - j) by omega, link_add, link_add, hi, hjb]
      simp

/-- With `keys.length + 1` fuel a walk runs out only if no amount of fuel is enough. -/
theorem firstHit_keys {a : α} (h : firstHit next hit (keys.length + 1) (some a) = none) (n : ℕ) :
    firstHit next hit n (some a) = none := by
  rw [firstHit_eq_none] at h ⊢
  obtain ⟨hmiss, hsome⟩ := h
  have hall : ∀ m, ∃ b, link next m a = some b ∧ hit b = none := by
    intro m
    obtain ⟨k, hk, hmk⟩ := exists_small_link hkeys hsome m
    obtain ⟨b, hb⟩ := isSome_iff_exists.mp (link_isSome_of_le hk.le hsome)
    exact ⟨b, by rw [hmk, hb], hmiss k hk b hb⟩
  refine ⟨fun k _ b hb => ?_, ?_⟩
  · obtain ⟨c, hc, hmiss'⟩ := hall k
    rw [hc] at hb
    obtain rfl : c = b := by simpa using hb
    exact hmiss'
  · obtain ⟨c, hc, -⟩ := hall n
    simp [hc]

/-- A hit somewhere on the chain is found. -/
theorem firstHit_of_link {a c : α} {b : β} {k : ℕ} (hk : link next k a = some c)
    (hc : hit c = some b) :
    ∃ b', firstHit next hit (keys.length + 1) (some a) = some (some b') := by
  cases h : firstHit next hit (keys.length + 1) (some a) with
  | none =>
    have hnone := firstHit_keys hkeys h (k + 1)
    rw [firstHit_eq_none] at hnone
    have := hnone.1 k (by omega) c hk
    simp [hc] at this
  | some r =>
    cases r with
    | none => simp [no_hit_of_firstHit h hk] at hc
    | some b' => exact ⟨b', rfl⟩

theorem firstHit_ne_none_of_acyclic (hac : Acyclic next) (a : α) :
    firstHit next hit (keys.length + 1) (some a) ≠ none := by
  intro h
  rw [firstHit_eq_none] at h
  obtain ⟨i, j, b, hij, -, hi, hj⟩ := exists_repeat hkeys h.2
  refine hac b (transGen_of_link (k := j - i) (by omega) ?_)
  rw [show j = i + (j - i) by omega, link_add, hi] at hj
  simpa using hj

end Keys

end

end Rivect.Lib
