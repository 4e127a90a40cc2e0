import Rivect.Base.Store

/-! # The policy generation that a base serves under

A stage leaves the pin of its install in memory and a later activation records it. While no call
leaves the pin of one document beside another that is staged, every base serves under a pin that
came with its own document.
-/

namespace Rivect.Base

open Lib Succession

variable {store store' : Store} {faults : CallFaults} {before : Ledger} {install : BaseInstall}
  {given : List BaseInstall}

theorem Ledger.unserved_of_active {ledger : Ledger} {version : ℕ} (hin : InOrder ledger.entries)
    (hother : ∀ active ∈ ledger.inState .active, active.version ≠ version) :
    ∀ e ∈ ledger.entries, e.standing = .holder → e.version ≠ version := by
  intro e he hholder
  obtain ⟨row, hrow, rfl⟩ := mem_entries.mp he
  exact hother _ (inState_active hin hrow (entryOf_holder.mp hholder))

namespace Store

/-- A stage whose COMMIT lands unreported finds no pin, or its own document staged. -/
def LandsBesidePin (store : Store) (faults : CallFaults) (install : BaseInstall) : Prop :=
  faults.stage.commit = .landed → store.stagedPolicy = none ∨
    store.primary.inState .staged = some ⟨install.version, install.digest⟩

/-- The holder that the document of an install becomes, under the pin of that install. -/
def served (install : BaseInstall) : Entry String × Option String :=
  ({ Ledger.nominee install with standing := .holder }, some install.policyGeneration)

/-- The pin came with the document that is staged, and whatever did not serve before serves under a
pin that came with it. -/
structure Warranted (given : List BaseInstall) (before : Ledger) (store : Store) : Prop where
  staged : ∀ s ∈ store.primary.stamps, s.1.standing = .candidate → ∀ pin ∈ store.stagedPolicy,
    ∃ install ∈ given, s.1 = Ledger.nominee install ∧ install.policyGeneration = pin
  active : ∀ s ∈ store.primary.stamps, s.1.standing = .holder →
    s ∈ before.stamps ∨ ∃ install ∈ given, s = served install

/-- What stages nothing writes at most the holder that the pin activates. -/
theorem Warranted.keep (h : Warranted given before store)
    (hstamps : ∀ s ∈ store'.primary.stamps,
      s ∈ store.primary.stamps ∨ store.primary.Activates store.stagedPolicy s)
    (hpin : ∀ pin ∈ store'.stagedPolicy, pin ∈ store.stagedPolicy) :
    Warranted given before store' := by
  constructor
  · intro s hs hcandidate pin hheld
    rcases hstamps s hs with hs | hformer | ⟨r, -, -, policy, -, rfl⟩
    · exact h.staged s hs hcandidate pin (hpin pin hheld)
    · rw [hformer] at hcandidate
      cases hcandidate
    · cases hcandidate
  · intro s hs hholder
    rcases hstamps s hs with hs | hformer | ⟨r, hr, hcandidate, policy, hpolicy, rfl⟩
    · exact h.active s hs hholder
    · rw [hformer] at hholder
      cases hholder
    · obtain ⟨install, hmem, hentry, rfl⟩ := h.staged r hr hcandidate policy hpolicy
      rw [hentry]
      exact .inr ⟨install, hmem, rfl⟩

theorem Warranted.still (h : Warranted given before store)
    (hprimary : store'.primary = store.primary)
    (hpin : ∀ pin ∈ store'.stagedPolicy, pin ∈ store.stagedPolicy) :
    Warranted given before store' :=
  h.keep (fun _ hs => .inl (hprimary ▸ hs)) hpin

/-- A stage that reports leaves its pin beside its document, and another leaves the pin of one that
is staged already. -/
theorem Warranted.stage (h : Warranted given before store) (hmem : install ∈ given)
    (hstamps : ∀ s ∈ store'.primary.stamps,
      s ∈ store.primary.stamps ∨ s = (Ledger.nominee install, none))
    (hpin : (store'.stagedPolicy = some install.policyGeneration ∧ ∀ s ∈ store'.primary.stamps,
        s.1.standing = .candidate → s.1 = Ledger.nominee install) ∨
      store'.stagedPolicy = store.stagedPolicy ∧ (store.stagedPolicy = none ∨
        ∃ s ∈ store.primary.stamps, s.1 = Ledger.nominee install)) :
    Warranted given before store' := by
  constructor
  · intro s hs hcandidate pin hheld
    rcases hpin with ⟨hpin, hnominee⟩ | ⟨hsame, hpin⟩
    · rw [hpin] at hheld
      exact ⟨install, hmem, hnominee s hs hcandidate, Option.some.inj hheld⟩
    · rw [hsame] at hheld
      rcases hpin with hnone | ⟨r, hr, hstaged⟩
      · rw [hnone] at hheld
        cases hheld
      · rcases hstamps s hs with hs | rfl
        · exact h.staged s hs hcandidate pin hheld
        · rw [← hstaged] at hcandidate ⊢
          exact h.staged r hr hcandidate pin hheld
  · intro s hs hholder
    rcases hstamps s hs with hs | rfl
    · exact h.active s hs hholder
    · cases hholder

/-- A call that meets its condition leaves the pin warranted by what it offers. -/
def KeepsPins (offers : List BaseInstall) (pinned : Prop) (store store' : Store) : Prop :=
  pinned → ∀ given before, offers ⊆ given → Warranted given before store →
    Warranted given before store'

theorem staged_of_landed (hlands : store.LandsBesidePin faults install)
    (hlanded : faults.stage.commit = .landed) :
    store.stagedPolicy = none ∨ ∃ s ∈ store.primary.stamps, s.1 = Ledger.nominee install := by
  refine (hlands hlanded).imp id ?_
  intro hstaged
  obtain ⟨row, hrow, hstate, hversion, hdigest⟩ := Ledger.inState_eq_some hstaged
  refine ⟨Ledger.stampOf row, List.mem_map_of_mem hrow, ?_⟩
  unfold Ledger.stampOf Ledger.entryOf Ledger.nominee
  rw [hstate, hversion, hdigest]

end Store

end Rivect.Base
