import Rivect.Sandbox.Sequence

/-! # What a launch transcript can show

Any calls of one `OwnedSequence`, refused and late records and losses among them: what it retains is
the places of the records it admitted, and it admits nothing after its first refusal.
-/

namespace Rivect.Sandbox

open List

/-- A call of an `OwnedSequence`. -/
inductive Call where
  | push (record : OwnedRecord)
  | lost

/-- The record of an entry. -/
def OwnedRecord.IsEntry : OwnedRecord → Prop
  | .entry .. => True
  | _ => False

/-- An exit, a signal or a stop. -/
def OwnedRecord.Ends : OwnedRecord → Prop
  | .exit _ | .signal _ | .stop _ => True
  | _ => False

/-- What is set stays. -/
def Stays {α : Type} (fact fact' : Option α) : Prop := ∀ a, fact = some a → fact' = some a

namespace OwnedSequence

def call (s : OwnedSequence) : Call → OwnedSequence
  | .push record => (s.push record).1
  | .lost => s.lost

/-- A loss admits nothing. -/
def admits (s : OwnedSequence) : Call → Bool
  | .push record => (s.push record).2.isOk
  | .lost => false

/-- The default sequence after some calls. -/
def after (calls : List Call) : OwnedSequence := calls.foldl call {}

/-- The records that some calls had admitted. -/
def admittedFrom (s : OwnedSequence) : List Call → List OwnedRecord
  | [] => []
  | .push record :: calls =>
    (if s.admits (.push record) then [record] else []) ++
      admittedFrom (s.call (.push record)) calls
  | .lost :: calls => admittedFrom s.lost calls

def admitted (calls : List Call) : List OwnedRecord := admittedFrom {} calls

def facts (s : OwnedSequence) :
    Option OwnedRecord × Option OwnedRecord × Option OwnedFault × Option OwnedFault :=
  (s.entry, s.terminal, s.primary, s.secondary)

/-- The sequence that some admitted records make. -/
inductive Holds : List OwnedRecord → OwnedSequence → Prop
  | empty : Holds [] {}
  | entered {entry : OwnedRecord} (h : entry.IsEntry) : Holds [entry] { entry := some entry }
  | ended {entry terminal : OwnedRecord} (h : entry.IsEntry) (hends : terminal.Ends) :
    Holds [entry, terminal] { entry := some entry, terminal := some terminal }
  | failed {entry : OwnedRecord} {fault : OwnedFault} (h : entry.IsEntry) :
    Holds [entry, .fault fault]
      { entry := some entry, terminal := some (.fault fault), primary := some fault }
  | faulted (fault : OwnedFault) : Holds [.fault fault] { primary := some fault }
  | paired {primary secondary : OwnedFault} (h : ownedFaultPair primary secondary = true) :
    Holds [.fault primary, .fault secondary]
      { primary := some primary, secondary := some secondary }

variable {s s' : OwnedSequence} {records : List OwnedRecord} {record : OwnedRecord}
  {calls : List Call}

theorem Holds.admitRecord (h : Holds records s) (hadmits : s.admitRecord record = some s') :
    Holds (records ++ [record]) s' := by
  cases h with
  | empty =>
    cases record with
    | entry profile baseline nproc verified =>
      cases hadmits
      exact .entered trivial
    | fault fault =>
      cases hadmits
      exact .faulted fault
    | exit | signal | stop => cases hadmits
  | entered hentry =>
    cases record with
    | entry => cases hadmits
    | fault fault =>
      cases hadmits
      exact .failed hentry
    | exit | signal | stop =>
      cases hadmits
      exact .ended hentry trivial
  | ended => cases record <;> cases hadmits
  | failed => cases record <;> cases hadmits
  | faulted primary =>
    cases record with
    | fault fault =>
      by_cases hpair : ownedFaultPair primary fault = true
      · have hplace : (⟨none, none, some primary, none, false⟩ : OwnedSequence).admitRecord
            (.fault fault) = some ⟨none, none, some primary, some fault, false⟩ :=
          if_pos ⟨rfl, hpair⟩
        obtain rfl := Option.mem_unique hplace hadmits
        exact .paired hpair
      · have hrefused : (⟨none, none, some primary, none, false⟩ : OwnedSequence).admitRecord
            (.fault fault) = none := if_neg fun h => hpair h.2
        rw [hrefused] at hadmits
        cases hadmits
    | entry | exit | signal | stop => cases hadmits
  | paired => cases record <;> cases hadmits

theorem push_cases (s : OwnedSequence) (record : OwnedRecord) :
    ((s.push record).2 = .ok () ∧ s.failed = false ∧
      s.admitRecord record = some (s.push record).1) ∨
    ∃ error, (s.push record).2 = .error error ∧ (s.push record).1.failed = true ∧
      (s.push record).1.facts = s.facts := by
  unfold push
  split
  · exact .inr ⟨_, rfl, rfl, rfl⟩
  · split
    · rename_i hfailed
      exact .inr ⟨_, rfl, hfailed, rfl⟩
    · rename_i hfailed
      split
      · rename_i hadmits
        exact .inl ⟨rfl, by simpa using hfailed, hadmits⟩
      · exact .inr ⟨_, rfl, rfl, rfl⟩

theorem call_cases (s : OwnedSequence) (call : Call) :
    (s.admits call = true ∧ s.failed = false ∧ ∃ record, call = .push record ∧
      s.admitRecord record = some (s.call call)) ∨
    (s.admits call = false ∧ (s.call call).failed = true ∧ (s.call call).facts = s.facts) := by
  cases call with
  | lost => exact .inr ⟨rfl, rfl, rfl⟩
  | push record =>
    rcases push_cases s record with ⟨hok, hopen, hplace⟩ | ⟨error, herror, hfailed, hfacts⟩
    · exact .inl ⟨congrArg Except.isOk hok, hopen, record, rfl, hplace⟩
    · exact .inr ⟨congrArg Except.isOk herror, hfailed, hfacts⟩

theorem refused {call : Call} (h : s.admits call = false) :
    (s.call call).failed = true ∧ (s.call call).facts = s.facts := by
  rcases call_cases s call with ⟨hadmits, -⟩ | ⟨-, hrefused⟩
  · rw [h] at hadmits
    cases hadmits
  · exact hrefused

theorem failed_refuses (h : s.failed = true) (call : Call) : s.admits call = false := by
  rcases call_cases s call with ⟨-, hopen, -⟩ | ⟨hrefuses, -⟩
  · rw [h] at hopen
    cases hopen
  · exact hrefuses

theorem failed_stays (hfailed : s.failed = true) (calls : List Call) :
    (calls.foldl call s).failed = true ∧ (calls.foldl call s).facts = s.facts := by
  induction calls generalizing s with
  | nil => exact ⟨hfailed, rfl⟩
  | cons call calls ih =>
    obtain ⟨hfirst, hkept⟩ := refused (failed_refuses hfailed call)
    obtain ⟨hlast, hfacts⟩ := ih hfirst
    exact ⟨hlast, hfacts.trans hkept⟩

theorem admittedFrom_cons (call : Call) (calls : List Call) : admittedFrom s (call :: calls) =
    admittedFrom s [call] ++ admittedFrom (s.call call) calls := by
  cases call with
  | lost => rfl
  | push record =>
    rw [admittedFrom, admittedFrom, admittedFrom, append_nil]

theorem admittedFrom_append (calls more : List Call) : admittedFrom s (calls ++ more) =
    admittedFrom s calls ++ admittedFrom (calls.foldl call s) more := by
  induction calls generalizing s with
  | nil => rfl
  | cons call calls ih =>
    rw [cons_append, admittedFrom_cons, ih, ← append_assoc, ← admittedFrom_cons]
    rfl

theorem admittedFrom_single (call : Call) : admittedFrom s [call] =
    if s.admits call then (match call with | .push record => [record] | .lost => []) else [] := by
  cases call with
  | lost => rfl
  | push record =>
    rw [admittedFrom, admittedFrom, append_nil]

/-- Any calls: the records pushed before the first refusal, all of them admitted, and the rest. -/
inductive Traces (calls : List Call) : Prop
  | clean {records : List OwnedRecord} (hcalls : calls = records.map .push)
      (hholds : Holds records (after calls)) (hadmitted : admitted calls = records)
  | failed {records : List OwnedRecord} {held : OwnedSequence} (hholds : Holds records held)
      (hfailed : (after calls).failed = true) (hfacts : (after calls).facts = held.facts)
      (hadmitted : admitted calls = records) (hfewer : records.length < calls.length)

theorem after_snoc (call : Call) : after (calls ++ [call]) = (after calls).call call :=
  foldl_append

theorem admitted_snoc (calls : List Call) (call : Call) : admitted (calls ++ [call]) =
    admitted calls ++ admittedFrom (after calls) [call] := admittedFrom_append calls [call]

theorem admitted_snoc_refused {call : Call} (h : (after calls).admits call = false) :
    admitted (calls ++ [call]) = admitted calls := by
  rw [admitted_snoc, admittedFrom_single, h]
  exact append_nil _

theorem traces (calls : List Call) : Traces calls := by
  induction calls using reverseRecOn with
  | nil => exact @Traces.clean [] [] rfl .empty rfl
  | append_singleton calls call ih =>
    rcases call_cases (after calls) call with ⟨hadmits, hopen, record, rfl, hplace⟩ |
      ⟨hrefuses, hfailed, hfacts⟩
    · cases ih with
      | @clean records hcalls hholds hadmitted =>
        have hall : calls ++ [.push record] = (records ++ [record]).map .push := by
          rw [hcalls, map_append]
          rfl
        refine .clean hall ?_ ?_
        · rw [after_snoc]
          exact hholds.admitRecord hplace
        · rw [admitted_snoc, admittedFrom_single, hadmits, hadmitted]
          rfl
      | failed _ hfailed =>
        rw [hfailed] at hopen
        cases hopen
    · rw [← after_snoc] at hfailed hfacts
      have hadmitted := admitted_snoc_refused hrefuses
      have hlength : (calls ++ [call]).length = calls.length + 1 := length_append
      cases ih with
      | clean hcalls hholds hall =>
        have hsame : calls.length = _ := hcalls ▸ length_map _
        exact .failed hholds hfailed hfacts (hadmitted.trans hall) (by omega)
      | failed hholds _ hheld hall hfewer =>
        exact .failed hholds hfailed (hfacts.trans hheld) (hadmitted.trans hall) (by omega)

/-- Every fact that was set stays. -/
structure Keeps (s s' : OwnedSequence) : Prop where
  entry : Stays s.entry s'.entry
  terminal : Stays s.terminal s'.terminal
  primary : Stays s.primary s'.primary
  secondary : Stays s.secondary s'.secondary

theorem Keeps.trans {s'' : OwnedSequence} (h : Keeps s s') (h' : Keeps s' s'') : Keeps s s'' where
  entry a ha := h'.entry a (h.entry a ha)
  terminal a ha := h'.terminal a (h.terminal a ha)
  primary a ha := h'.primary a (h.primary a ha)
  secondary a ha := h'.secondary a (h.secondary a ha)

theorem Keeps.of_facts (h : s'.facts = s.facts) : Keeps s s' := by
  simp only [facts, Prod.mk.injEq] at h
  obtain ⟨hentry, hterminal, hprimary, hsecondary⟩ := h
  exact ⟨fun _ => hentry.trans, fun _ => hterminal.trans, fun _ => hprimary.trans,
    fun _ => hsecondary.trans⟩

theorem Holds.keeps (h : Holds records s) (hadmits : s.admitRecord record = some s') :
    Keeps s s' := by
  have hnew := h.admitRecord hadmits
  constructor <;> cases h <;> cases hnew <;> simp_all [Stays, OwnedRecord.IsEntry]

theorem keeps_snoc (calls : List Call) (call : Call) :
    Keeps (after calls) (after (calls ++ [call])) := by
  rw [after_snoc]
  rcases call_cases (after calls) call with ⟨-, hopen, record, -, hplace⟩ | ⟨-, -, hfacts⟩
  · cases traces calls with
    | clean _ hholds => exact hholds.keeps hplace
    | failed _ hfailed =>
      rw [hfailed] at hopen
      cases hopen
  · exact .of_facts hfacts

theorem keeps_append (calls more : List Call) : Keeps (after calls) (after (calls ++ more)) := by
  induction more using reverseRecOn with
  | nil =>
    rw [append_nil]
    exact .of_facts rfl
  | append_singleton more call ih =>
    rw [← append_assoc]
    exact ih.trans (keeps_snoc _ call)

/-- What any calls of a default sequence show. -/
structure Transcript (calls : List Call) : Prop where
  released : ∀ eof waiterSuccess, (after calls).released eof waiterSuccess = true ↔
    eof = true ∧ waiterSuccess = true ∧ ∃ entry terminal : OwnedRecord, entry.IsEntry ∧
      terminal.Ends ∧ calls = [.push entry, .push terminal] ∧ admitted calls = [entry, terminal]
  kept : ∀ more, Keeps (after calls) (after (calls ++ more))
  refused : ∀ call more, (after calls).admits call = false →
    (after (calls ++ call :: more)).facts = (after calls).facts ∧
      ∀ record, (after (calls ++ call :: more)).admits (.push record) = false
  two : (admitted calls).length ≤ 2
  pair : ∀ primary secondary, (after calls).primary = some primary →
    (after calls).secondary = some secondary → ownedFaultPair primary secondary = true

theorem Holds.released_iff {eof waiterSuccess : Bool} (h : Holds records s) :
    s.released eof waiterSuccess = true ↔ eof = true ∧ waiterSuccess = true ∧
      ∃ entry terminal : OwnedRecord, entry.IsEntry ∧ terminal.Ends ∧
        records = [entry, terminal] := by
  cases h with
  | empty => simp [released]
  | entered => simp [released]
  | faulted => simp [released]
  | @ended entry terminal hentry hends =>
    cases terminal with
    | exit | signal | stop => simp [released, hentry, OwnedRecord.Ends]
    | entry | fault => cases hends
  | failed => simp [released, OwnedRecord.Ends]
  | paired => simp [released, OwnedRecord.Ends]

theorem released_iff (calls : List Call) (eof waiterSuccess : Bool) :
    (after calls).released eof waiterSuccess = true ↔
    eof = true ∧ waiterSuccess = true ∧ ∃ entry terminal : OwnedRecord, entry.IsEntry ∧
      terminal.Ends ∧ calls = [.push entry, .push terminal] ∧
      admitted calls = [entry, terminal] := by
  cases traces calls with
  | clean hcalls hholds hadmitted =>
    rw [hholds.released_iff, hadmitted]
    refine and_congr_right fun _ => and_congr_right fun _ => ?_
    constructor
    · rintro ⟨entry, terminal, hentry, hends, rfl⟩
      exact ⟨entry, terminal, hentry, hends, hcalls, rfl⟩
    · rintro ⟨entry, terminal, hentry, hends, -, rfl⟩
      exact ⟨entry, terminal, hentry, hends, rfl⟩
  | failed hholds hfailed hfacts hadmitted hfewer =>
    constructor
    · intro h
      simp [released, hfailed] at h
    · rintro ⟨-, -, entry, terminal, -, -, rfl, hboth⟩
      rw [hadmitted] at hboth
      simp [hboth] at hfewer

/-- The facts of any calls are those of the records they had admitted. -/
theorem holding (calls : List Call) :
    ∃ held, Holds (admitted calls) held ∧ (after calls).facts = held.facts := by
  cases traces calls with
  | clean _ hholds hadmitted => exact ⟨after calls, hadmitted ▸ hholds, rfl⟩
  | failed hholds _ hfacts hadmitted => exact ⟨_, hadmitted ▸ hholds, hfacts⟩

theorem transcript (calls : List Call) : Transcript calls where
  released := released_iff calls
  kept := keeps_append calls
  refused call more hrefuses := by
    obtain ⟨hfailed, hkept⟩ := OwnedSequence.refused hrefuses
    have hafter : after (calls ++ call :: more) = more.foldl OwnedSequence.call
        ((after calls).call call) := foldl_append
    obtain ⟨hlast, hfacts⟩ := failed_stays hfailed more
    rw [hafter]
    exact ⟨hfacts.trans hkept, fun record => failed_refuses hlast _⟩
  two := by
    obtain ⟨held, hholds, -⟩ := holding calls
    generalize admitted calls = records at hholds ⊢
    cases hholds <;> simp
  pair primary secondary hprimary hsecondary := by
    obtain ⟨held, hholds, hfacts⟩ := holding calls
    simp only [facts, Prod.mk.injEq] at hfacts
    obtain ⟨-, -, hheld, hheld'⟩ := hfacts
    rw [hheld] at hprimary
    rw [hheld'] at hsecondary
    generalize admitted calls = records at hholds
    cases hholds with
    | paired hpair =>
      obtain rfl := Option.some.inj hprimary
      obtain rfl := Option.some.inj hsecondary
      exact hpair
    | empty | entered | ended | failed | faulted => cases hsecondary

end OwnedSequence

end Rivect.Sandbox
