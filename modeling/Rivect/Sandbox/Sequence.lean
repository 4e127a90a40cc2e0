import Rivect.Sandbox.RoundTrip

/-! # The transcript of one launch

`OwnedSequence`: at most one entry and one terminal, or a pair of faults before the entry.
-/

namespace Rivect.Sandbox

open Option

def spawnFaultRank (fault : OwnedFault) : Option ℕ :=
  if fault.boundary ≠ "owned.child.spawn" then none
  else match fault.cause with
    | .io operation field _ =>
      if (operation = 5 ∨ operation = 22) ∧ field = 24 then some 0
      else if operation = 7 ∧ field = 20 then some 1
      else if operation = 14 ∧ field = 0 then some 2
      else none
    | .missing field => if field = 24 then some 0 else none
    | .duplicate field _ => if field = 24 then some 0 else none
    | .malformed field _ => if field = 24 then some 0 else none
    | .numericOverflow field _ => if field = 24 then some 0 else none
    | .trailing field _ => if field = 24 then some 0 else none
    | .limit field _ _ => if field = 24 then some 0 else none
    | .earlyEof field _ _ => if field = 24 then some 0 else none
    | _ => none

/-- The only ordered pair of faults that may precede an entry. -/
def ownedFaultPair (primary secondary : OwnedFault) : Bool :=
  match spawnFaultRank primary, spawnFaultRank secondary with
  | none, some _ => true
  | some first, some next => first < next
  | _, none => false

structure OwnedSequence where
  entry : Option OwnedRecord := none
  terminal : Option OwnedRecord := none
  primary : Option OwnedFault := none
  secondary : Option OwnedFault := none
  failed : Bool := false
deriving DecidableEq

namespace OwnedSequence

/-- Marks transport loss without discarding what was authenticated. -/
def lost (s : OwnedSequence) : OwnedSequence := { s with failed := true }

/-- The sequence with the record in its place, if it has one. -/
def admitRecord (s : OwnedSequence) : OwnedRecord → Option OwnedSequence
  | .entry profile baseline nproc verified =>
    if s.entry.isNone ∧ s.primary.isNone ∧ s.terminal.isNone then
      some { s with entry := some (.entry profile baseline nproc verified) }
    else none
  | .fault fault =>
    if s.entry.isSome then
      if s.terminal.isNone then
        some { s with terminal := some (.fault fault), primary := some fault }
      else none
    else match s.primary with
      | some primary =>
        if s.secondary.isNone ∧ ownedFaultPair primary fault then
          some { s with secondary := some fault }
        else none
      | none => some { s with primary := some fault }
  | record =>
    if s.entry.isSome ∧ s.terminal.isNone then some { s with terminal := some record } else none

def push (s : OwnedSequence) (record : OwnedRecord) :
    OwnedSequence × Except OwnedProtocolError Unit :=
  match record.encode with
  | .error error => (s.lost, .error error)
  | .ok _ =>
    if s.failed then (s, .error .malformed)
    else match s.admitRecord record with
      | some s' => (s', .ok ())
      | none => (s.lost, .error .malformed)

/-- A complete transcript and the normal end of the waiter establish release. -/
def released (s : OwnedSequence) (eof waiterSuccess : Bool) : Bool :=
  !s.failed && eof && waiterSuccess && s.entry.isSome &&
    match s.terminal with
    | some (.exit _) => true
    | some (.signal _) => true
    | some (.stop _) => true
    | _ => false

/-- A fault precedes every entry, or it is the terminal. -/
def Proper (s : OwnedSequence) : Prop :=
  (s.primary.isSome → s.entry = none ∨ ∃ fault, s.terminal = some (.fault fault)) ∧
    (s.entry = none → s.terminal = none)

variable {s s' : OwnedSequence} {record : OwnedRecord}

theorem Proper.admitRecord (h : s.Proper) (hadmits : s.admitRecord record = some s') : s'.Proper := by
  obtain ⟨hprimary, hterminal⟩ := h
  unfold OwnedSequence.admitRecord at hadmits
  split at hadmits
  · split at hadmits
    · rename_i hempty
      obtain rfl := some.inj hadmits
      have hnone := isNone_iff_eq_none.mp hempty.2.1
      refine ⟨fun hsome => ?_, nofun⟩
      rw [hnone] at hsome
      cases hsome
    · cases hadmits
  · split at hadmits
    · rename_i fault hentry
      split at hadmits
      · obtain rfl := some.inj hadmits
        refine ⟨fun _ => .inr ⟨fault, rfl⟩, fun hnone => ?_⟩
        rw [show s.entry = none from hnone] at hentry
        cases hentry
      · cases hadmits
    · rename_i hentry
      have hnone : s.entry = none := by simpa using hentry
      split at hadmits
      · split at hadmits
        · obtain rfl := some.inj hadmits
          exact ⟨fun _ => .inl hnone, hterminal⟩
        · cases hadmits
      · obtain rfl := some.inj hadmits
        exact ⟨fun _ => .inl hnone, hterminal⟩
  · split at hadmits
    · rename_i hopen
      obtain rfl := some.inj hadmits
      refine ⟨fun hsome => ?_, fun hnone => by
        rw [show s.entry = none from hnone] at hopen
        cases hopen.1⟩
      rcases hprimary hsome with hnone | ⟨fault, hfault⟩
      · simp [hnone] at hopen
      · simp [hfault] at hopen
    · cases hadmits

theorem Proper.lost (h : s.Proper) : s.lost.Proper := h

theorem Proper.push (h : s.Proper) (record : OwnedRecord) : (s.push record).1.Proper := by
  unfold OwnedSequence.push
  split
  · exact h.lost
  · split
    · exact h
    · split
      · rename_i s' hadmits
        exact h.admitRecord hadmits
      · exact h.lost

/-- A record is accepted by a sequence that has not failed and has a place for it. -/
theorem push_ok (h : s.push record = (s', .ok ())) :
    s.failed = false ∧ s.admitRecord record = some s' := by
  unfold push at h
  split at h
  · cases h
  · split at h
    · cases h
    · rename_i hfailed
      split at h
      · rename_i hadmits
        obtain ⟨rfl, -⟩ := Prod.mk.inj h
        exact ⟨by simpa using hfailed, hadmits⟩
      · cases h

theorem primary_of_admit (h : s.admitRecord record = some s') (hprimary : s'.primary = none) :
    s.primary = none := by
  unfold admitRecord at h
  split at h
  · split at h
    · obtain rfl := some.inj h
      exact hprimary
    · cases h
  · split at h
    · split at h
      · obtain rfl := some.inj h
        cases hprimary
      · cases h
    · split at h
      · split at h
        · obtain rfl := some.inj h
          exact hprimary
        · cases h
      · assumption
  · split at h
    · obtain rfl := some.inj h
      exact hprimary
    · cases h

/-- Nothing but an exit, a signal or a stop is released, and no fault was seen. -/
theorem released_primary {eof waiterSuccess : Bool} (h : s.Proper)
    (hreleased : s.released eof waiterSuccess = true) : s.primary = none ∧ s.failed = false := by
  simp only [released, Bool.and_eq_true, Bool.not_eq_true'] at hreleased
  obtain ⟨⟨⟨⟨hfailed, -⟩, -⟩, hentry⟩, hterminal⟩ := hreleased
  refine ⟨?_, hfailed⟩
  by_contra hne
  rcases h.1 (isSome_iff_ne_none.mpr hne) with hnone | ⟨fault, hfault⟩
  · simp [hnone] at hentry
  · simp [hfault] at hterminal

end OwnedSequence

end Rivect.Sandbox
