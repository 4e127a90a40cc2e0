import Mathlib.Order.Nat
import Rivect.Lib.Rows
import Rivect.Lib.Run

/-! # Succession in one office

Numbered contents take turns in one office. A content is nominated under the number after the
holder's, it may be withdrawn, and when it is promoted the holder becomes a former one. Former
holders may be forgotten.
-/

namespace Rivect.Lib

open List

inductive Standing where
  | candidate
  | holder
  | former
deriving DecidableEq

structure Entry (δ : Type*) where
  version : ℕ
  content : δ
  standing : Standing

namespace Succession

variable {δ : Type*} {entries entries' : List (Entry δ)} {e e' : Entry δ} {v : ℕ} {change : Bool}
  {changes : List Bool}

/-- The standing of an entry once `v` takes over. -/
def succeed (v : ℕ) (e : Entry δ) : Entry δ :=
  if e.version = v ∧ e.standing = .candidate then { e with standing := .holder }
  else if e.standing = .holder ∧ e.version ≠ v then { e with standing := .former }
  else e

def notWithdrawn (v : ℕ) (e : Entry δ) : Bool := !(e.version = v ∧ e.standing = .candidate)

/-- One step; its label says whether the office changes hands. -/
inductive Step : List (Entry δ) → Bool → List (Entry δ) → Prop
  | nominate {entries : List (Entry δ)} {v : ℕ} {d : δ}
      (hnone : ∀ e ∈ entries, e.standing ≠ .candidate)
      (hnext : ∀ e ∈ entries, e.standing = .holder → v = e.version + 1)
      (hnew : ∀ e ∈ entries, e.version ≠ v) : Step entries false (entries ++ [⟨v, d, .candidate⟩])
  | withdraw {entries : List (Entry δ)} {v : ℕ} : Step entries false (entries.filter (notWithdrawn v))
  | promote {entries : List (Entry δ)} {v : ℕ}
      (hcandidate : ∃ e ∈ entries, e.version = v ∧ e.standing = .candidate) :
      Step entries true (entries.map (succeed v))
  | forget {entries : List (Entry δ)} {dropped : ℕ → Bool}
      (hformer : ∀ e ∈ entries, dropped e.version = true → e.standing = .former) :
      Step entries false (entries.filter fun e => !dropped e.version)

/-- The office has at most one holder and one candidate, numbered in turn. -/
structure InOrder (entries : List (Entry δ)) : Prop where
  keys : UniqueKeys Entry.version entries
  holder : ∀ e ∈ entries, ∀ e' ∈ entries, e.standing = .holder → e'.standing = .holder → e = e'
  candidate : ∀ e ∈ entries, ∀ e' ∈ entries, e.standing = .candidate → e'.standing = .candidate →
    e = e'
  next : ∀ e ∈ entries, ∀ e' ∈ entries, e.standing = .holder → e'.standing = .candidate →
    e'.version = e.version + 1
  former : ∀ e ∈ entries, e.standing = .former →
    ∃ e' ∈ entries, e'.standing = .holder ∧ e.version < e'.version

theorem InOrder.nil : InOrder ([] : List (Entry δ)) :=
  ⟨UniqueKeys.nil, by simp, by simp, by simp, by simp⟩

@[simp] theorem succeed_version (v : ℕ) (e : Entry δ) : (succeed v e).version = e.version := by
  unfold succeed
  split
  · rfl
  · split <;> rfl

@[simp] theorem succeed_content (v : ℕ) (e : Entry δ) : (succeed v e).content = e.content := by
  unfold succeed
  split
  · rfl
  · split <;> rfl

theorem succeed_holder (h : (succeed v e).standing = .holder) : e.version = v := by
  unfold succeed at h
  split at h
  · rename_i hcandidate
    exact hcandidate.1
  · split at h
    · cases h
    · rename_i hholder
      by_contra hne
      exact hholder ⟨h, hne⟩

theorem succeed_candidate (h : (succeed v e).standing = .candidate) :
    e.standing = .candidate ∧ e.version ≠ v := by
  unfold succeed at h
  split at h
  · cases h
  · split at h
    · cases h
    · rename_i hcandidate _
      exact ⟨h, fun hv => hcandidate ⟨hv, h⟩⟩

theorem succeed_former (h : (succeed v e).standing = .former) :
    (e.standing = .holder ∧ e.version ≠ v) ∨ e.standing = .former := by
  unfold succeed at h
  split at h
  · cases h
  · split at h
    · rename_i hholder
      exact .inl hholder
    · exact .inr h

theorem succeed_of_candidate (hv : e.version = v) (h : e.standing = .candidate) :
    succeed v e = { e with standing := .holder } := if_pos ⟨hv, h⟩

/-- The holder stays, or its successor takes over. -/
theorem InOrder.holder_of_step (h : InOrder entries) (hstep : Step entries change entries')
    (he : e ∈ entries) (hholder : e.standing = .holder) :
    if change then ∃ e' ∈ entries', e'.standing = .holder ∧ e'.version = e.version + 1
    else e ∈ entries' := by
  cases hstep with
  | nominate => exact mem_append_left _ he
  | withdraw => exact mem_filter.mpr ⟨he, by simp [notWithdrawn, hholder]⟩
  | @promote v hcandidate =>
    obtain ⟨c, hc, rfl, hstanding⟩ := hcandidate
    refine ⟨succeed c.version c, mem_map_of_mem hc, ?_, ?_⟩
    · rw [succeed_of_candidate rfl hstanding]
    · rw [succeed_version, h.next e he c hc hholder hstanding]
  | @forget dropped hformer =>
    refine mem_filter.mpr ⟨he, ?_⟩
    cases hdropped : dropped e.version with
    | false => rfl
    | true => exact absurd (hformer e he hdropped) (by simp [hholder])

/-- Fewer entries are in order while the holder is among them. -/
theorem InOrder.filter (h : InOrder entries) {keep : Entry δ → Bool}
    (hkeep : ∀ e ∈ entries, e.standing = .holder → keep e = true) :
    InOrder (entries.filter keep) := by
  refine ⟨h.keys.filter _, ?_, ?_, ?_, ?_⟩
  · intro e he e' he'
    exact h.holder e (mem_of_mem_filter he) e' (mem_of_mem_filter he')
  · intro e he e' he'
    exact h.candidate e (mem_of_mem_filter he) e' (mem_of_mem_filter he')
  · intro e he e' he'
    exact h.next e (mem_of_mem_filter he) e' (mem_of_mem_filter he')
  · intro e he hs
    obtain ⟨e', he', hholder, hlt⟩ := h.former e (mem_of_mem_filter he) hs
    exact ⟨e', mem_filter.mpr ⟨he', hkeep e' he' hholder⟩, hholder, hlt⟩

theorem InOrder.step (h : InOrder entries) (hstep : Step entries change entries') : InOrder entries' := by
  cases hstep with
  | @nominate v d hnone hnext hnew =>
    -- the new entry is the one candidate, so all that is said of others is said of old entries
    have hold : ∀ {e : Entry δ}, e ∈ entries ++ [⟨v, d, .candidate⟩] → e.standing ≠ .candidate →
        e ∈ entries := by
      intro e he hne
      rcases mem_append.mp he with he | he
      · exact he
      · rw [mem_singleton.mp he] at hne
        exact absurd rfl hne
    have hlast : ∀ {e : Entry δ}, e ∈ entries ++ [⟨v, d, .candidate⟩] →
        e.standing = .candidate → e = ⟨v, d, .candidate⟩ := by
      intro e he hcandidate
      rcases mem_append.mp he with he | he
      · exact absurd hcandidate (hnone e he)
      · exact mem_singleton.mp he
    refine ⟨h.keys.insert hnew, ?_, ?_, ?_, ?_⟩
    · intro e he e' he' hs hs'
      exact h.holder e (hold he (by simp [hs])) e' (hold he' (by simp [hs'])) hs hs'
    · intro e he e' he' hs hs'
      rw [hlast he hs, hlast he' hs']
    · intro e he e' he' hs hs'
      rw [hlast he' hs']
      exact hnext e (hold he (by simp [hs])) hs
    · intro e he hs
      obtain ⟨e', he', hlt⟩ := h.former e (hold he (by simp [hs])) hs
      exact ⟨e', mem_append_left _ he', hlt⟩
  | withdraw => exact h.filter fun e _ hs => by simp [notWithdrawn, hs]
  | @promote v hcandidate =>
    obtain ⟨c, hc, rfl, hstanding⟩ := hcandidate
    -- the candidate is the only holder after it, and no candidate is left
    have hversion : ∀ {e : Entry δ}, e ∈ entries.map (succeed c.version) →
        e.standing = .holder → e = { c with standing := .holder } := by
      intro e he hs
      obtain ⟨held, hheld, rfl⟩ := mem_map.mp he
      have := succeed_holder hs
      rw [inj_on_of_nodup_map h.keys hheld hc this, succeed_of_candidate rfl hstanding]
    have hnone : ∀ {e : Entry δ}, e ∈ entries.map (succeed c.version) →
        e.standing ≠ .candidate := by
      intro e he hs
      obtain ⟨held, hheld, rfl⟩ := mem_map.mp he
      obtain ⟨hs, hne⟩ := succeed_candidate hs
      exact hne (congrArg Entry.version (h.candidate held hheld c hc hs hstanding))
    have hnew : { c with standing := .holder } ∈ entries.map (succeed c.version) :=
      mem_map.mpr ⟨c, hc, succeed_of_candidate rfl hstanding⟩
    refine ⟨h.keys.map (succeed_version _), ?_, ?_, ?_, ?_⟩
    · intro e he e' he' hs hs'
      rw [hversion he hs, hversion he' hs']
    · intro e he e' he' hs _
      exact absurd hs (hnone he)
    · intro e he e' he' _ hs'
      exact absurd hs' (hnone he')
    · intro e he hs
      refine ⟨_, hnew, rfl, ?_⟩
      obtain ⟨held, hheld, rfl⟩ := mem_map.mp he
      rw [succeed_version]
      rcases succeed_former hs with ⟨hholder, -⟩ | hformer
      · have := h.next held hheld c hc hholder hstanding
        simp [this]
      · obtain ⟨e', he', hholder, hlt⟩ := h.former held hheld hformer
        have := h.next e' he' c hc hholder hstanding
        simpa [this] using Nat.lt_succ_of_lt hlt
  | @forget dropped hformer =>
    refine h.filter fun e he hs => ?_
    cases hdropped : dropped e.version with
    | false => rfl
    | true => exact absurd (hformer e he hdropped) (by simp [hs])

theorem InOrder.run (h : InOrder entries) (hrun : Run Step entries changes entries') :
    InOrder entries' := hrun.invariant (fun _ _ _ hin hstep => hin.step hstep) h

/-- The holder after a run is as many numbers further as the office changed hands. -/
theorem InOrder.holder_of_run (h : InOrder entries) (hrun : Run Step entries changes entries')
    (he : e ∈ entries) (hholder : e.standing = .holder) :
    ∃ e' ∈ entries', e'.standing = .holder ∧ e'.version = e.version + changes.count true := by
  induction hrun generalizing e with
  | nil => exact ⟨e, he, hholder, by simp⟩
  | @cons _ _ _ change changes hstep _ ih =>
    have hnext := h.holder_of_step hstep he hholder
    cases change with
    | false =>
      obtain ⟨e', he', hholder', hversion⟩ := ih (h.step hstep) hnext hholder
      exact ⟨e', he', hholder', by simpa using hversion⟩
    | true =>
      obtain ⟨m, hm, hstanding, hm'⟩ := hnext
      obtain ⟨e', he', hholder', hversion⟩ := ih (h.step hstep) hm hstanding
      refine ⟨e', he', hholder', ?_⟩
      rw [hversion, hm', count_cons_self]
      omega

/-- Only a promotion makes a holder. -/
theorem holder_of_step_false (hstep : Step entries false entries') (he : e ∈ entries')
    (hholder : e.standing = .holder) : e ∈ entries := by
  cases hstep with
  | nominate =>
    rcases mem_append.mp he with he | he
    · exact he
    · rw [mem_singleton.mp he] at hholder
      cases hholder
  | withdraw => exact mem_of_mem_filter he
  | forget => exact mem_of_mem_filter he

/-- Where the office does not change hands, its holder is the same. -/
theorem InOrder.holder_iff (h : InOrder entries) (hrun : Run Step entries changes entries')
    (hcount : changes.count true = 0) (hholder : e.standing = .holder) :
    e ∈ entries' ↔ e ∈ entries := by
  induction hrun with
  | nil => exact Iff.rfl
  | @cons _ _ _ change changes hstep _ ih =>
    cases change with
    | true => simp at hcount
    | false =>
      rw [ih (h.step hstep) (by simpa using hcount)]
      exact ⟨fun he => holder_of_step_false hstep he hholder,
        fun he => h.holder_of_step hstep he hholder⟩

/-- What was in the office at or before a holder's turn stays as it was, or is forgotten. -/
def Preserves (entries entries' : List (Entry δ)) : Prop :=
  ∀ e ∈ entries, e.standing = .holder →
    (∃ e' ∈ entries', e'.standing = .holder ∧ e.version ≤ e'.version) ∧
    ∀ e' ∈ entries', e'.version ≤ e.version →
      ∃ held ∈ entries, held.version = e'.version ∧ held.content = e'.content

theorem Preserves.refl (entries : List (Entry δ)) : Preserves entries entries :=
  fun e he hholder => ⟨⟨e, he, hholder, le_rfl⟩, fun e' he' _ => ⟨e', he', rfl, rfl⟩⟩

theorem Preserves.trans {entries'' : List (Entry δ)} (h : Preserves entries entries')
    (h' : Preserves entries' entries'') : Preserves entries entries'' := by
  intro e he hholder
  obtain ⟨⟨e1, he1, hholder1, hle⟩, hback⟩ := h e he hholder
  obtain ⟨⟨e2, he2, hholder2, hle'⟩, hback'⟩ := h' e1 he1 hholder1
  refine ⟨⟨e2, he2, hholder2, hle.trans hle'⟩, ?_⟩
  intro e' he' hversion
  obtain ⟨held, hheld, hsame, hcontent⟩ := hback' e' he' (hversion.trans hle)
  obtain ⟨first, hfirst, hsame', hcontent'⟩ := hback held hheld (hsame.le.trans hversion)
  exact ⟨first, hfirst, hsame'.trans hsame, hcontent'.trans hcontent⟩

theorem InOrder.preserves_step (h : InOrder entries) (hstep : Step entries change entries') :
    Preserves entries entries' := by
  intro e he hholder
  constructor
  · have hnext := h.holder_of_step hstep he hholder
    cases change with
    | false => exact ⟨e, hnext, hholder, le_rfl⟩
    | true =>
      obtain ⟨e', he', hholder', hversion⟩ := hnext
      exact ⟨e', he', hholder', by omega⟩
  · intro e' he' hle
    cases hstep with
    | nominate hnone hnext hnew =>
      rcases mem_append.mp he' with he' | he'
      · exact ⟨e', he', rfl, rfl⟩
      · have := hnext e he hholder
        rw [mem_singleton.mp he'] at hle
        simp only at hle
        omega
    | withdraw => exact ⟨e', mem_of_mem_filter he', rfl, rfl⟩
    | promote =>
      obtain ⟨held, hheld, rfl⟩ := mem_map.mp he'
      exact ⟨held, hheld, by simp, by simp⟩
    | forget => exact ⟨e', mem_of_mem_filter he', rfl, rfl⟩

theorem InOrder.preserves (h : InOrder entries) (hrun : Run Step entries changes entries') :
    Preserves entries entries' :=
  hrun.relates .refl (fun _ _ _ => .trans) (fun _ _ _ hin hstep => hin.step hstep)
    (fun _ _ _ hin hstep => hin.preserves_step hstep) h

end Succession

end Rivect.Lib
