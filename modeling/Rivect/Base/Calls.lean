import Rivect.Base.Pins

/-! # Runs of calls

Every call is a run of committed transactions of `Rivect.Base.Steps`, of which at most one activates
a base, and it keeps the pins of `Rivect.Base.Pins`; a call that answers an error left the serving
base alone, lost its connection, or could not read the receipt of what it had committed.
-/

namespace Rivect.Base

open Lib Config Succession List Option

variable {store store' : Store} {faults : CallFaults} {ledger ledger' : Ledger}
  {install : BaseInstall} {version : Option ℕ} {offers : List BaseInstall} {pinned : Prop}

/-- The calls on one store, and the ends of its connection and of its process. -/
inductive BaseCall where
  | stage (install : BaseInstall)
  | commit (version : ℕ)
  | abandon (version : ℕ)
  | serve (install : BaseInstall)
  | cutOver (install : BaseInstall) (rules : List IdentityMigration) (config : Option Table)
  | migration (migration : IdentityMigration)
  | learn (op : LearningOp)
  | reopen
  | restart

namespace Store

def fresh (schemaGeneration : ℕ) (boundDb : String) : Store :=
  ⟨.fresh schemaGeneration, none, none, true, boundDb⟩

/-- The store after a call, and what the call answered. -/
def perform (store : Store) (faults : CallFaults) : BaseCall → Store × Except BaseError Unit
  | .stage install => (store.stageBase faults install).map id fun answer => answer.map fun _ => ()
  | .commit version => (store.commitBase faults version).map id fun answer => answer.map fun _ => ()
  | .abandon version => (store.abandonBase faults version).map id fun answer => answer.map fun _ => ()
  | .serve install => (store.serveBase faults install).map id fun answer => answer.map fun _ => ()
  | .cutOver install rules config =>
    (store.cutOverBase faults install rules config).map id fun done => done.2.map fun _ => ()
  | .migration migration =>
    (store.recordIdentityMigration faults migration).map id fun answer => answer.map fun _ => ()
  | .learn op => store.transact faults.stage fun ledger => do
      let learned ← ledger.perform (.learn op)
      .ok (learned, ())
  | .reopen => ({ store with opened := none, connected := true }, .ok ())
  | .restart => ({ store with opened := none, connected := true, stagedPolicy := none }, .ok ())

def Step (store : Store) (call : BaseCall × CallFaults) (store' : Store) : Prop :=
  (store.perform call.2 call.1).1 = store'

/-! ## One transaction -/

theorem begin_ok {faults : TxFaults} (h : store.begin faults = .ok ledger) :
    ledger = store.primary ∧ store.opened = none ∧ store.connected = true := by
  have hwithin : Within Fails (fun ledger => ledger = store.primary ∧
      store.opened = none ∧ store.connected = true) (store.begin faults) := by
    apply Within.guard
    intro hconnected
    apply Within.guard
    intro hopened
    exact ⟨rfl, isNone_iff_eq_none.mp hopened.1, hconnected⟩
  exact hwithin.of_ok h

theorem attempt_ok {α : Type} {faults : TxFaults} {body : Ledger → Except BaseError α}
    {a : α} (h : attempt faults body ledger = .ok a) : body ledger = .ok a := by
  unfold attempt at h
  split at h
  · exact h
  · cases h

/-- A transaction commits its body or nothing. -/
structure Transacts {α : Type} (store : Store) (faults : TxFaults)
    (body : Ledger → Except BaseError (Ledger × α)) (done : Store × Except BaseError α) : Prop where
  pin : done.1.stagedPolicy = store.stagedPolicy
  primary : done.1.primary = store.primary ∨ ∃ written answer, store.opened = none ∧
    body store.primary = .ok (written, answer) ∧ done.1.primary = written ∧
    ∀ refusal, done.2 = .error refusal → faults.commit = .landed
  answered : ∀ answer, done.2 = .ok answer →
    store.opened = none ∧ store.connected = true ∧ ∃ written,
      body store.primary = .ok (written, answer) ∧ done.1 = { store with primary := written }

theorem transacts {α : Type} (store : Store) (faults : TxFaults)
    (body : Ledger → Except BaseError (Ledger × α)) :
    Transacts store faults body (store.transact faults body) := by
  unfold transact
  split
  · exact ⟨rfl, .inl rfl, nofun⟩
  · rename_i ledger hbegin
    obtain ⟨rfl, hopened, hconnected⟩ := begin_ok hbegin
    split
    · exact ⟨rfl, .inl rfl, nofun⟩
    · rename_i written answer hattempt
      have hbody := attempt_ok hattempt
      split
      · refine ⟨rfl, .inr ⟨written, answer, hopened, hbody, rfl, nofun⟩, ?_⟩
        rintro _ ⟨rfl⟩
        exact ⟨hopened, hconnected, written, hbody, rfl⟩
      · rename_i hlanded
        exact ⟨rfl, .inr ⟨written, answer, hopened, hbody, rfl, fun _ _ => hlanded⟩, nofun⟩
      · exact ⟨rfl, .inl rfl, nofun⟩
      · exact ⟨rfl, .inl rfl, nofun⟩

end Store

/-! ## What a call performs -/

/-- The operations that neither activate a base nor write a delta. -/
def LedgerOp.Quiet : LedgerOp → Prop
  | .commit .. | .learn _ => False
  | _ => True

namespace Ledger

/-- Quiet operations leave the deltas and the base that serves. -/
theorem quiet_of_run {ops : List LedgerOp} (hin : InOrder ledger.entries)
    (hrun : Run Step ledger ops ledger') (hquiet : ∀ op ∈ ops, op.Quiet) :
    InOrder ledger'.entries ∧ ledger'.learning = ledger.learning ∧
      ∀ e : Entry String, e.standing = .holder → (e ∈ ledger'.entries ↔ e ∈ ledger.entries) := by
  induction hrun with
  | nil => exact ⟨hin, rfl, fun _ _ => Iff.rfl⟩
  | @cons ledger middle ledger' op ops hstep _ ih =>
    have heffect := effect_of_step hin hstep
    have hop : op.commits = 0 ∧ op.learned ledger = Unlearned := by
      have := hquiet op mem_cons_self
      cases op with
      | commit | learn => exact absurd this id
      | stage | stageForCutover | abandon | releaseRules | migration => exact ⟨rfl, rfl⟩
    obtain ⟨changes, hchanges, hcount⟩ := heffect.run
    have hlearning := heffect.learning
    rw [hop.2] at hlearning
    obtain ⟨hin', hsame, hholder⟩ := ih (hin.run hchanges)
      fun op hop => hquiet op (mem_cons_of_mem _ hop)
    refine ⟨hin', hsame.trans hlearning, ?_⟩
    intro e he
    rw [hholder e he]
    exact hin.holder_iff hchanges (hcount.trans hop.1) he

theorem inState_active_eq_some (hin : InOrder ledger.entries)
    {document : BaseDocument} : ledger.inState .active = some document ↔
      ⟨document.version, document.digest, .holder⟩ ∈ ledger.entries := by
  constructor
  · intro h
    obtain ⟨row, hrow, hstate, hversion, hdigest⟩ := inState_eq_some h
    refine mem_entries.mpr ⟨row, hrow, ?_⟩
    unfold entryOf
    rw [hstate, hversion, hdigest]
  · intro h
    obtain ⟨row, hrow, hentry⟩ := mem_entries.mp h
    have hactive : row.state = .active := by
      rw [← entryOf_holder, hentry]
    have hversion : row.version = document.version := congrArg Entry.version hentry
    have hdigest : row.digest = document.digest := congrArg Entry.content hentry
    rw [inState_active hin hrow hactive, hversion, hdigest]

theorem inState_active_congr (hin : InOrder ledger.entries)
    (hin' : InOrder ledger'.entries) (h : ∀ e : Entry String, e.standing = .holder →
      (e ∈ ledger'.entries ↔ e ∈ ledger.entries)) :
    ledger'.inState .active = ledger.inState .active := by
  apply Option.ext
  intro document
  rw [inState_active_eq_some hin', inState_active_eq_some hin]
  exact h _ rfl

theorem step_of_prepared {version : ℕ} {pin : Option String} {done : Ledger × IdentityRebind}
    (h : ledger.prepareActivation version pin = .ok done) :
    ledger.Step (.commit version pin) done.1 := by
  refine ⟨trivial, ?_⟩
  change ledger.prepareActivation version pin >>= _ = _
  rw [h]
  rfl

theorem active_of_commit (hin : InOrder ledger.entries) {version : ℕ}
    {pin : Option String} (hstep : ledger.Step (.commit version pin) ledger') :
    ∃ document, ledger'.inState .active = some document ∧ document.version = version := by
  have hin' := inOrder_of_step hin hstep
  have hwithin : Within Fails (fun ledger' => ∃ e ∈ entries ledger',
      e.standing = .holder ∧ e.version = version) (ledger.perform (.commit version pin)) := by
    apply Within.bind (prepareActivation_inv hin version pin)
    rintro done ⟨policy, learning, -, -, ⟨row, hrow, hversion, hstaged⟩, -, hdone⟩
    have hentries : (ledger.activated version policy learning).entries =
        ledger.entries.map (succeed version) :=
      entries_activated ledger version ledger.schemaGeneration policy
    have hsucceeds := succeed_of_candidate (e := entryOf row) hversion (entryOf_candidate.mpr hstaged)
    have hholder : { entryOf row with standing := .holder } ∈
        (ledger.activated version policy learning).entries := by
      rw [hentries, ← hsucceeds]
      exact mem_map_of_mem (mem_entries.mpr ⟨row, hrow, rfl⟩)
    have hpromote : Succession.Step ledger.entries true
        (ledger.activated version policy learning).entries := by
      rw [hentries]
      exact .promote ⟨entryOf row, mem_entries.mpr ⟨row, hrow, rfl⟩, hversion,
        entryOf_candidate.mpr hstaged⟩
    obtain ⟨changes, hrun, hcount⟩ :=
      (pruneBaseVersions_effect (hin.step hpromote) BASE_VERSION_RETENTION).run
    rw [Within.ok_iff, hdone]
    refine ⟨_, ((hin.step hpromote).holder_iff hrun hcount rfl).mpr hholder, rfl, hversion⟩
  obtain ⟨e, he, hholder, hversion⟩ := hwithin.of_ok hstep.2
  obtain ⟨row, hrow, rfl⟩ := mem_entries.mp he
  exact ⟨_, inState_active hin' hrow (entryOf_holder.mp hholder), hversion⟩

/-- The version that an activation takes over with did not serve before. -/
theorem unserved_of_commit (hin : InOrder ledger.entries) {version : ℕ} {pin : Option String}
    (hstep : ledger.Step (.commit version pin) ledger') {document : BaseDocument}
    (hactive : ledger.inState .active = some document) : document.version ≠ version := by
  have hwithin : Within Fails (fun _ => document.version ≠ version)
      (ledger.perform (.commit version pin)) := by
    apply Within.bind (prepareActivation_inv hin version pin)
    rintro done ⟨-, -, -, -, ⟨row, hrow, hversion, hstaged⟩, -, -⟩ hserves
    obtain ⟨held, hheld, hstate, hsame, -⟩ := inState_eq_some hactive
    obtain rfl := inj_on_of_nodup_map (uniqueKeys_of_inOrder hin) hheld hrow
      (hsame.trans (hserves.trans hversion.symm))
    rw [hstaged] at hstate
    cases hstate
  exact hwithin.of_ok hstep.2

theorem generationTuple_base {tuple : GenerationTuple} (h : ledger.generationTuple = .ok tuple) :
    tuple.base = (ledger.inState .active).map BaseDocument.version := by
  have hwithin : Within Fails (fun tuple : GenerationTuple =>
      tuple.base = (ledger.inState .active).map BaseDocument.version) ledger.generationTuple := by
    apply Within.skip
    intro _
    apply Within.skip
    intro _
    rfl
  exact hwithin.of_ok h

end Ledger

namespace Store

/-- Quiet transactions, and then at most the activation of the version of the call; a refusal beside
an activation lost the connection, or is what reading the receipt answered. -/
structure Cuts {α : Type} (store : Store) (faults : CallFaults) (version : Option ℕ)
    (offers : List BaseInstall) (pinned : Prop) (done : Store × Except BaseError α) : Prop where
  run : ∃ quiet activation, Run Ledger.Step store.primary (quiet ++ activation) done.1.primary ∧
    (∀ op ∈ quiet, op.Quiet) ∧
    (activation = [] ∨ ∃ v ∈ version, ∃ pin, activation = [.commit v pin]) ∧
    ∀ refusal, done.2 = .error refusal → activation = [] ∨ done.1.connected = false ∨
      ∃ v ∈ version, done.1.readReceipt faults v = .error refusal
  pins : KeepsPins offers pinned store done.1

theorem Cuts.still {α : Type} (answer : Except BaseError α) (h : store'.primary = store.primary)
    (hpin : ∀ pin ∈ store'.stagedPolicy, pin ∈ store.stagedPolicy) :
    Cuts store faults version offers pinned (store', answer) :=
  ⟨⟨[], [], h ▸ .nil _, by simp, .inl rfl, fun _ _ => .inl rfl⟩, fun _ _ _ _ hw => hw.still h hpin⟩

theorem Cuts.quiet {α : Type} {op : LedgerOp} (answer : Except BaseError α) (hop : op.Quiet)
    (h : Ledger.Step store.primary op store'.primary) (hpins : KeepsPins offers pinned store store') :
    Cuts store faults version offers pinned (store', answer) := by
  refine ⟨⟨[op], [], .single h, ?_, .inl rfl, fun _ _ => .inl rfl⟩, hpins⟩
  intro op' hop'
  rwa [mem_singleton.mp hop']

/-- What activates nothing leaves the deltas and the base that serves. -/
theorem Cuts.leaves {α : Type} {done : Store × Except BaseError α} (hin : InOrder store.primary.entries)
    (h : Cuts store faults none offers pinned done) : InOrder done.1.primary.entries ∧
      done.1.primary.learning = store.primary.learning ∧ ∃ ops,
        Run Ledger.Step store.primary ops done.1.primary ∧ ∀ op ∈ ops, op.Quiet := by
  obtain ⟨quiet, activation, hrun, hquiet, hactivation, -⟩ := h.run
  obtain rfl : activation = [] := hactivation.resolve_right fun ⟨_, hv, _⟩ => nomatch hv
  rw [append_nil] at hrun
  obtain ⟨hin', hlearning, -⟩ := Ledger.quiet_of_run hin hrun hquiet
  exact ⟨hin', hlearning, quiet, hrun, hquiet⟩

theorem Cuts.then {α β : Type} {middle : Store} {answer : Except BaseError β}
    {done : Store × Except BaseError α} (hin : InOrder store.primary.entries)
    (hfirst : Cuts store faults none offers pinned (middle, answer))
    (h : Cuts middle faults version [] True done) :
    Cuts store faults version offers pinned done := by
  obtain ⟨quiet, activation, hrest, hquiet, hactivation, hrefusal⟩ := h.run
  obtain ⟨-, -, ops, hrun, hops⟩ := hfirst.leaves hin
  refine ⟨⟨ops ++ quiet, activation, ?_, ?_, hactivation, hrefusal⟩, ?_⟩
  · rw [append_assoc]
    exact hrun.append hrest
  · intro op hop
    exact (mem_append.mp hop).elim (hops op) (hquiet op)
  · intro hpinned given before hsub hw
    exact h.pins trivial given before (nil_subset _) (hfirst.pins hpinned given before hsub hw)

theorem Cuts.map {α β : Type} {answer : Except BaseError α} (f : α → β)
    (h : Cuts store faults version offers pinned (store', answer)) :
    Cuts store faults version offers pinned (store', answer.map f) := by
  obtain ⟨quiet, activation, hrest, hquiet, hactivation, hrefusal⟩ := h.run
  refine ⟨⟨quiet, activation, hrest, hquiet, hactivation, ?_⟩, h.pins⟩
  intro refusal hrefused
  cases answer with
  | ok a => cases hrefused
  | error e => exact hrefusal refusal (by cases hrefused; rfl)

/-- A transaction that stages nothing writes no new holder either. -/
theorem Transacts.cuts {α : Type} {body : Ledger → Except BaseError (Ledger × α)}
    {txFaults : TxFaults} {done : Store × Except BaseError α} (hin : InOrder store.primary.entries)
    (h : Transacts store txFaults body done) {op : LedgerOp}
    (hop : ∀ written answer, store.opened = none → body store.primary = .ok (written, answer) →
      Ledger.Step store.primary op written) (hquiet : op.Quiet)
    (hwritten : ∀ s, ¬ op.written store.primary s) :
    Cuts store faults version offers pinned done := by
  have hpin : ∀ pin ∈ done.1.stagedPolicy, pin ∈ store.stagedPolicy := fun pin => h.pin ▸ id
  rcases h.primary with hsame | ⟨written, answer, hopened, hbody, hwrites, -⟩
  · exact .still done.2 hsame hpin
  · have hstep : Ledger.Step store.primary op done.1.primary :=
      hwrites ▸ hop written answer hopened hbody
    refine .quiet done.2 hquiet hstep fun _ _ _ _ hw => hw.keep (fun s hs => ?_) hpin
    exact .inl (((Ledger.effect_of_step hin hstep).stamps s hs).resolve_right (hwritten s))

/-! ### The calls -/

theorem classifyRollback_still (store : Store) (faults : CallFaults) (version : ℕ)
    (refusal : BaseError) (rollback : RollbackResult) :
    let done := store.classifyRollback faults version refusal rollback
    done.1.primary = store.primary ∧ done.1.stagedPolicy = store.stagedPolicy := by
  unfold classifyRollback
  split
  · exact ⟨rfl, rfl⟩
  · split
    · split <;> exact ⟨rfl, rfl⟩
    · exact ⟨rfl, rfl⟩
  · exact ⟨rfl, rfl⟩

theorem Cuts.rolledBack {version' : ℕ} {refusal : BaseError} {rollback : RollbackResult} :
    Cuts store faults version offers pinned
      (store.classifyRollback faults version' refusal rollback) := by
  obtain ⟨hprimary, hpin⟩ := classifyRollback_still store faults version' refusal rollback
  exact .still (store.classifyRollback _ _ _ _).2 hprimary fun pin => hpin ▸ id

/-- The calls that keep the pin beside its own document: `stageBase` does not answer for the base
that serves while another is staged, and no stage lands unreported beside a pin left over. -/
def Pinned (store : Store) : BaseCall × CallFaults → Prop
  | (.stage install, faults) => store.LandsBesidePin faults install ∧
    (store.primary.inState .staged = none ∨
      ∀ active ∈ store.primary.inState .active, active.version ≠ install.version)
  | (.serve install, faults) | (.cutOver install .., faults) => store.LandsBesidePin faults install
  | _ => True

theorem stageBase_cuts (hin : InOrder store.primary.entries) (faults : CallFaults)
    (install : BaseInstall) : Cuts store faults none [install] (store.Pinned (.stage install, faults))
      (store.stageBase faults install) := by
  unfold stageBase
  split
  · exact .still _ rfl fun _ => id
  · rename_i ledger hbegin
    obtain ⟨rfl, -, -⟩ := begin_ok hbegin
    split
    · exact .rolledBack
    · rename_i written hattempt
      have hstep : Ledger.Step store.primary
          (.stage install (store.classifiedAssets install)) written :=
        ⟨trivial, attempt_ok hattempt⟩
      have hquiet : (LedgerOp.stage install (store.classifiedAssets install)).Quiet := trivial
      have hstages := (Ledger.stageBaseOn_within _ hin).of_ok (attempt_ok hattempt)
      split
      · refine .quiet _ hquiet hstep fun hpinned given before hsub hw =>
          hw.stage (hsub mem_cons_self) hstages.stamps (.inl ⟨rfl, ?_⟩)
        intro s hs hcandidate
        rcases hpinned.2 with hnone | hother
        · -- no other base was staged, so what is staged now was written
          rcases hstages.stamps s hs with hs | rfl
          · obtain ⟨row, hrow, rfl⟩ := mem_map.mp hs
            exact absurd (Ledger.entryOf_candidate.mp hcandidate)
              (Ledger.inState_eq_none.mp hnone row hrow)
          · rfl
        · exact hstages.nominates (Ledger.unserved_of_active hin hother) s hs hcandidate
      · rename_i hlanded
        exact .quiet _ hquiet hstep fun hpinned given before hsub hw =>
          hw.stage (hsub mem_cons_self) hstages.stamps
            (.inr ⟨rfl, staged_of_landed hpinned.1 hlanded⟩)
      · exact .still _ rfl fun _ => id
      · exact .still _ rfl fun _ => id

theorem readTuple_ok {tuple : Ledger.GenerationTuple} (h : store.readTuple faults = .ok tuple) :
    tuple.base = (store.view.inState .active).map BaseDocument.version := by
  have hwithin : Within Fails (fun tuple : Ledger.GenerationTuple =>
      tuple.base = (store.view.inState .active).map BaseDocument.version)
      (store.readTuple faults) := by
    apply Within.skip
    intro _
    apply Within.skip
    intro _
    exact Within.of_forall fun _ => Ledger.generationTuple_base
  exact hwithin.of_ok h

theorem readBack_still (store : Store) (faults : CallFaults) (version : ℕ) :
    let done := store.readBackAfterRefusedCommit faults version
    done.1.primary = store.primary ∧ ∀ pin ∈ done.1.stagedPolicy, pin ∈ store.stagedPolicy := by
  unfold readBackAfterRefusedCommit
  split
  · split
    · exact ⟨rfl, nofun⟩
    · exact ⟨rfl, fun _ => id⟩
  · exact ⟨rfl, fun _ => id⟩

/-- What a landed activation answers: its receipt, or a lost connection. -/
theorem readBack_landed {version : ℕ}
    {document : BaseDocument} (hactive : store.view.inState .active = some document)
    (hversion : document.version = version) :
    let done := store.readBackAfterRefusedCommit faults version
    ∀ refusal, done.2 = .error refusal →
      done.1.connected = false ∨ done.1.readReceipt faults version = .error refusal := by
  intro done refusal hrefused
  unfold done readBackAfterRefusedCommit at hrefused ⊢
  split at hrefused
  · rename_i tuple htuple
    have hbase : tuple.base = some version := by
      rw [readTuple_ok htuple, hactive, map_some, hversion]
    rw [if_pos hbase] at hrefused
    simp only [if_pos hbase]
    exact .inr hrefused
  · rename_i htuple
    exact .inl rfl

theorem commitBase_cuts (hin : InOrder store.primary.entries) (faults : CallFaults)
    (version : ℕ) : Cuts store faults (some version) [] True (store.commitBase faults version) := by
  unfold commitBase
  split
  · exact .still _ rfl fun _ => id
  · rename_i ledger hbegin
    obtain ⟨rfl, hopened, hconnected⟩ := begin_ok hbegin
    split
    · exact .rolledBack
    · rename_i written identity hattempt
      have hstep := Ledger.step_of_prepared (attempt_ok hattempt)
      have hstamps := (Ledger.effect_of_step hin hstep).stamps
      obtain ⟨document, hactive, hversion⟩ := Ledger.active_of_commit hin hstep
      have hactivates : [LedgerOp.commit version store.stagedPolicy] = [] ∨
          ∃ v ∈ some version, ∃ pin, [LedgerOp.commit version store.stagedPolicy] =
            [.commit v pin] := .inr ⟨version, rfl, _, rfl⟩
      split
      · refine ⟨⟨[], _, .single hstep, by simp, hactivates, ?_⟩,
          fun _ _ _ _ hw => hw.keep hstamps nofun⟩
        intro refusal hrefused
        dsimp only at hrefused
        right
        right
        refine ⟨version, rfl, ?_⟩
        cases hread : readReceipt { store with primary := written, stagedPolicy := none } faults
            version with
        | ok receipt =>
          rw [hread] at hrefused
          cases hrefused
        | error e =>
          rw [hread] at hrefused
          cases hrefused
          rfl
      · have hview : ({ store with primary := written } : Store).view = written := by
          simp [view, hopened]
        rw [← hview] at hactive
        have hlanded := @readBack_landed _ faults _ _ hactive hversion
        obtain ⟨hprimary, hpin⟩ := readBack_still { store with primary := written } faults version
        refine ⟨⟨[], _, ?_, by simp, hactivates, ?_⟩,
          fun _ _ _ _ hw => hw.keep (by rwa [hprimary]) hpin⟩
        · rw [hprimary]
          exact .single hstep
        · intro refusal hrefused
          right
          exact (hlanded refusal hrefused).imp id fun hread => ⟨version, rfl, hread⟩
      · obtain ⟨hprimary, hpin⟩ := readBack_still store faults version
        exact .still (readBackAfterRefusedCommit store faults version).2 hprimary hpin
      · exact .still _ rfl fun _ => id

theorem abandonBase_cuts (hin : InOrder store.primary.entries) (faults : CallFaults)
    (version : ℕ) : Cuts store faults none [] True (store.abandonBase faults version) := by
  refine @Transacts.cuts _ _ _ _ _ _ _ _ _ hin (transacts store _ _) (.abandon version) ?_ trivial
    fun _ => id
  intro written answer _ hbody
  refine ⟨trivial, ?_⟩
  change store.primary.abandonBaseOn version >>= _ = _
  rw [hbody]
  rfl

theorem recordIdentityMigration_cuts (hin : InOrder store.primary.entries) (faults : CallFaults)
    (migration : IdentityMigration) :
    Cuts store faults none [] True (store.recordIdentityMigration faults migration) := by
  refine @Transacts.cuts _ _ _ _ _ _ _ _ _ hin (transacts store _ _) (.migration migration) ?_
    trivial fun _ => id
  intro written answer _ hbody
  refine ⟨trivial, ?_⟩
  change identifying (store.primary.recordMigrationOn _ _) >>= _ = _
  rw [hbody]
  rfl

/-- The rules of a base that the ledger holds are one quiet transaction. -/
theorem recordReleaseRules_cuts (hin : InOrder store.primary.entries) (faults : CallFaults)
    (rules : List IdentityMigration)
    (hrow : store.opened = none → (store.primary.row install.version).isSome = true) :
    Cuts store faults none offers pinned (store.recordReleaseRules faults install rules) := by
  unfold recordReleaseRules
  split
  · exact .still _ rfl fun _ => id
  · rename_i hrules
    refine @Transacts.cuts _ _ _ _ _ _ _ _ _ hin (transacts store _ _)
      (.releaseRules install rules) ?_ trivial fun _ => id
    intro written answer hopened hbody
    obtain ⟨recorded, hrecorded, hok⟩ := bind_eq_ok hbody
    cases hok
    exact ⟨⟨hrules, hrow hopened⟩, hrecorded⟩

theorem stageForCutover_cuts (hin : InOrder store.primary.entries) (faults : CallFaults)
    (hother : store.opened = none →
      ∀ active ∈ store.primary.inState .active, active.version ≠ install.version) :
    Cuts store faults none [install] (store.LandsBesidePin faults install)
      (store.stageForCutover faults install) := by
  have hdone := transacts store faults.stage
    (·.stageForCutoverOn install (store.classifiedAssets install))
  have hstep : ∀ {written answer}, store.primary.stageForCutoverOn install
      (store.classifiedAssets install) = .ok (written, answer) → Ledger.Step store.primary
        (.stageForCutover install (store.classifiedAssets install)) written := by
    intro written answer hbody
    refine ⟨trivial, ?_⟩
    change store.primary.stageForCutoverOn _ _ >>= _ = _
    rw [hbody]
    rfl
  have hquiet : (LedgerOp.stageForCutover install (store.classifiedAssets install)).Quiet := trivial
  have hwithin := @Ledger.stageForCutoverOn_within _ install (store.classifiedAssets install) hin
  unfold stageForCutover
  split
  · rename_i staged abandoned hok
    rw [hok] at hdone
    obtain ⟨hopened, -, written, hbody, hstaged⟩ := hdone.answered _ rfl
    subst hstaged
    obtain ⟨heffect, -, hnominates⟩ := hwithin.of_ok hbody
    exact .quiet _ hquiet (hstep hbody) fun _ _ _ hsub hw => hw.stage (hsub mem_cons_self)
      heffect.stamps (.inl ⟨rfl, hnominates (Ledger.unserved_of_active hin (hother hopened))⟩)
  · rename_i staged refusal herror
    rw [herror] at hdone
    rcases hdone.primary with hsame | ⟨written, answer, -, hbody, hwritten, hlanded⟩
    · exact .still _ hsame fun pin => hdone.pin ▸ id
    · dsimp only at hbody hwritten
      subst hwritten
      exact .quiet _ hquiet (hstep hbody) fun hlands _ _ hsub hw =>
        hw.stage (hsub mem_cons_self) (hwithin.of_ok hbody).1.stamps
          (.inr ⟨hdone.pin, staged_of_landed hlands (hlanded _ rfl)⟩)

/-- A stage that succeeded left a row of its version, and its connection as it was. -/
theorem stageForCutover_ok {store staged : Store} {install : BaseInstall}
    {abandoned : Option BaseDocument} (hin : InOrder store.primary.entries)
    (h : store.stageForCutover faults install = (staged, .ok abandoned)) :
    store.opened = none ∧ staged.opened = none ∧
      store.primary.stageForCutoverOn install (store.classifiedAssets install) =
        .ok (staged.primary, abandoned) ∧
      staged.stagedPolicy = some install.policyGeneration ∧
      (staged.primary.row install.version).isSome = true := by
  have htransacts := transacts store faults.stage
    (·.stageForCutoverOn install (store.classifiedAssets install))
  unfold stageForCutover at h
  split at h
  · rename_i first answer hdone
    cases h
    rw [hdone] at htransacts
    obtain ⟨hopened, -, written, hbody, hfirst⟩ := htransacts.answered _ rfl
    subst hfirst
    obtain ⟨heffect, ⟨e, he, hversion⟩, -⟩ :=
      (Ledger.stageForCutoverOn_within _ hin).of_ok hbody
    obtain ⟨row, hrow, rfl⟩ := Ledger.mem_entries.mp he
    refine ⟨hopened, hopened, hbody, rfl, ?_⟩
    have hkeys : UniqueKeys BaseRow.version written.rows := by
      obtain ⟨changes, hrun, -⟩ := heffect.run
      exact Ledger.uniqueKeys_of_inOrder (hin.run hrun)
    have hheld : written.row install.version = some row := by
      rw [← hversion]
      exact rowAt_of_mem hkeys hrow
    simp [hheld]
  · cases h

theorem serveNext_cuts (hin : InOrder store.primary.entries) (faults : CallFaults)
    (rules : List IdentityMigration) (hother : store.opened = none →
      ∀ active ∈ store.primary.inState .active, active.version ≠ install.version) :
    Cuts store faults (some install.version) [install] (store.LandsBesidePin faults install)
      (store.serveNext faults install rules) := by
  have hstage := stageForCutover_cuts hin faults hother
  unfold serveNext
  split
  · rename_i staged refusal hdone
    rw [hdone] at hstage
    exact hstage.then hin (.still _ rfl fun _ => id)
  · rename_i staged abandoned hdone
    obtain ⟨-, -, -, -, hrow⟩ := stageForCutover_ok hin hdone
    rw [hdone] at hstage
    have hin' := (hstage.leaves hin).1
    have hrules : Cuts staged faults none [] True
        (staged.recordReleaseRules faults install rules) :=
      recordReleaseRules_cuts hin' faults rules fun _ => hrow
    refine hstage.then hin ?_
    split
    · rename_i recorded refusal hrecorded
      rw [hrecorded] at hrules
      exact hrules.then hin' (.still _ rfl fun _ => id)
    · rename_i recorded _ hrecorded
      rw [hrecorded] at hrules
      exact hrules.then hin' ((commitBase_cuts (hrules.leaves hin').1 faults _).map _)

theorem activeBase_ok {active : Option BaseDocument} (h : store.activeBase faults = .ok active) :
    store.connected = true ∧ active = store.view.inState .active := by
  have hwithin : Within Fails (fun active => store.connected = true ∧
      active = store.view.inState .active) (store.activeBase faults) := by
    apply Within.guard
    intro hconnected
    apply Within.skip
    intro _
    exact ⟨hconnected, rfl⟩
  exact hwithin.of_ok h

theorem row_of_active (hin : InOrder store.primary.entries)
    {active : BaseDocument} (hactive : store.view.inState .active = some active) :
    store.opened = none → (store.primary.row active.version).isSome = true := by
  intro hopened
  unfold view at hactive
  rw [hopened, getD_none] at hactive
  obtain ⟨row, hrow, -, hversion, -⟩ := Ledger.inState_eq_some hactive
  have hheld : store.primary.row active.version = some row := by
    rw [← hversion]
    exact rowAt_of_mem (Ledger.uniqueKeys_of_inOrder hin) hrow
  simp [hheld]

theorem cutOverServing_cuts (hin : InOrder store.primary.entries)
    (faults : CallFaults) (install : BaseInstall) (rules : List IdentityMigration) :
    Cuts store faults (some install.version) [install] (store.LandsBesidePin faults install)
      (store.cutOverServing faults install rules) := by
  have hother : ∀ {active}, store.activeBase faults = .ok active →
      (∀ held ∈ active, held.version ≠ install.version) → store.opened = none →
      ∀ held ∈ store.primary.inState .active, held.version ≠ install.version := by
    intro active hactive hversion hopened held hheld
    obtain ⟨-, hview⟩ := activeBase_ok hactive
    unfold view at hview
    rw [hopened, getD_none] at hview
    exact hversion held (hview ▸ hheld)
  unfold cutOverServing
  split
  · exact .still _ rfl fun _ => id
  · rename_i active hactive
    split
    · rename_i hversion
      unfold serveAgain
      split
      · exact .still _ rfl fun _ => id
      · have hrules : Cuts store faults none [install] (store.LandsBesidePin faults install)
            (store.recordReleaseRules faults install rules) :=
          recordReleaseRules_cuts hin faults rules
            (hversion ▸ row_of_active hin (activeBase_ok hactive).2.symm)
        split
        · rename_i recorded refusal hrecorded
          rw [hrecorded] at hrules
          exact hrules.then hin (.still _ rfl fun _ => id)
        · rename_i recorded _ hrecorded
          rw [hrecorded] at hrules
          exact hrules.then hin (.still _ rfl fun _ => id)
    · rename_i hversion
      exact serveNext_cuts hin faults rules (hother hactive (by rintro _ ⟨rfl⟩; exact hversion))
  · rename_i hactive
    exact serveNext_cuts hin faults rules (hother hactive nofun)

/-- The moves that were planned go through, and they are the moves of all the rules. -/
theorem movePurposeBindings_of_planned {config : Option Table} {rules : List IdentityMigration}
    {moves : List (String × String)} (h : plannedPurposeMoves config rules = .ok moves) :
    ∃ moved, movePurposeBindings config moves = .ok moved ∧ ∀ document ∈ config,
      ∃ document', moved = some document' ∧
        applyMoves document (purposeMoves rules) = .ok document' := by
  cases config with
  | none => exact ⟨none, rfl, by simp⟩
  | some document =>
    change (provenMoves document (purposeMoves rules)).mapError BaseError.document = _ at h
    cases hproven : provenMoves document (purposeMoves rules) with
    | error e =>
      rw [hproven] at h
      cases h
    | ok kept =>
      rw [hproven] at h
      cases h
      obtain ⟨document', hkept, hall⟩ := applyMoves_of_proven hproven
      refine ⟨some document', ?_, ?_⟩
      · change ((applyMoves document moves).map some).mapError BaseError.document = _
        rw [hkept]
        rfl
      · rintro _ ⟨rfl⟩
        exact ⟨document', rfl, hall⟩

/-- The document moves only after the base serves, and a move that was proven goes through. -/
theorem cutOverBase_cuts (hin : InOrder store.primary.entries)
    (faults : CallFaults) (install : BaseInstall) (rules : List IdentityMigration)
    (config : Option Table) :
    Cuts store faults (some install.version) [install] (store.LandsBesidePin faults install)
      ((store.cutOverBase faults install rules config).1,
        (store.cutOverBase faults install rules config).2.2) := by
  have hserving := cutOverServing_cuts hin faults install rules
  unfold cutOverBase
  split
  · exact .still _ rfl fun _ => id
  · rename_i moves hplanned
    split
    · rename_i served refusal hdone
      rw [hdone] at hserving
      exact hserving
    · rename_i served answer hdone
      rw [hdone] at hserving
      have hmoves := movePurposeBindings_of_planned hplanned
      obtain ⟨moved, hmoved, -⟩ := hmoves
      simp only [hmoved]
      exact hserving

end Store

/-- The documents that a call stages. -/
def BaseCall.installs : BaseCall → List BaseInstall
  | .stage install | .serve install | .cutOver install .. => [install]
  | _ => []

/-- The version that a call may activate. -/
def BaseCall.activates : BaseCall → Option ℕ
  | .commit version => some version
  | .serve install | .cutOver install .. => some install.version
  | _ => none

namespace Store

theorem perform_cuts (hin : InOrder store.primary.entries) (faults : CallFaults)
    {call : BaseCall} (hcall : ∀ op, call ≠ .learn op) :
    Cuts store faults call.activates call.installs (store.Pinned (call, faults))
      (store.perform faults call) := by
  cases call with
  | stage install => exact (stageBase_cuts hin faults install).map _
  | commit version => exact (commitBase_cuts hin faults version).map _
  | abandon version => exact (abandonBase_cuts hin faults version).map _
  | serve install => exact (cutOverServing_cuts hin faults install []).map _
  | cutOver install rules config => exact (cutOverBase_cuts hin faults install rules config).map _
  | migration migration => exact (recordIdentityMigration_cuts hin faults migration).map _
  | learn op => exact absurd rfl (hcall op)
  | reopen => exact .still _ rfl fun _ => id
  | restart => exact .still _ rfl nofun

theorem learn_step (store : Store) (faults : CallFaults) (op : LearningOp) :
    let done := store.perform faults (.learn op)
    done.1.stagedPolicy = store.stagedPolicy ∧ (done.1.primary = store.primary ∨
      Ledger.Step store.primary (.learn op) done.1.primary) := by
  obtain ⟨hpin, hprimary, -⟩ := transacts store faults.stage fun ledger => do
    let learned ← ledger.perform (.learn op)
    .ok (learned, ())
  refine ⟨hpin, hprimary.imp id ?_⟩
  rintro ⟨written, answer, -, hbody, hwritten, -⟩
  obtain ⟨learned, hlearned, hok⟩ := bind_eq_ok hbody
  cases hok
  exact hwritten ▸ ⟨trivial, hlearned⟩

/-- A call is a run of operations of the ledger, with at most one activation. -/
theorem run_of_step {call : BaseCall × CallFaults}
    (hin : InOrder store.primary.entries) (hstep : store.Step call store') :
    ∃ ops, Run Ledger.Step store.primary ops store'.primary ∧
      (ops.map LedgerOp.commits).sum ≤ 1 := by
  obtain ⟨call, faults⟩ := call
  subst hstep
  by_cases hlearn : ∃ op, call = .learn op
  · obtain ⟨op, rfl⟩ := hlearn
    rcases (learn_step store faults op).2 with hsame | hlearns
    · exact ⟨[], hsame ▸ .nil _, Nat.zero_le 1⟩
    · exact ⟨_, .single hlearns, Nat.zero_le 1⟩
  · obtain ⟨quiet, activation, hrun, hquiet, hactivation, -⟩ :=
      (perform_cuts hin faults fun op hop => hlearn ⟨op, hop⟩).run
    refine ⟨quiet ++ activation, hrun, ?_⟩
    have hzero : (quiet.map LedgerOp.commits).sum = 0 := by
      apply sum_eq_zero
      intro n hn
      obtain ⟨o, ho, rfl⟩ := mem_map.mp hn
      have := hquiet o ho
      cases o with
      | commit | learn => exact absurd this id
      | stage | stageForCutover | abandon | releaseRules | migration => rfl
    rw [map_append, sum_append, hzero, Nat.zero_add]
    rcases hactivation with rfl | ⟨v, -, pin, rfl⟩
    · exact Nat.zero_le 1
    · exact le_rfl

end Store

namespace Ledger

/-- A run of operations is a run of the succession that keeps the rules covered. -/
theorem succession_of_run {ops : List LedgerOp}
    (hin : InOrder ledger.entries) (hrun : Run Step ledger ops ledger') :
    (∃ changes, Run Succession.Step ledger.entries changes ledger'.entries ∧
      changes.count true = (ops.map LedgerOp.commits).sum) ∧
      (ledger.Covered → ledger'.Covered) := by
  induction hrun with
  | nil => exact ⟨⟨[], .nil _, rfl⟩, id⟩
  | @cons ledger middle ledger' op ops hstep _ ih =>
    have heffect := effect_of_step hin hstep
    obtain ⟨changes, hchanges, hcount⟩ := heffect.run
    obtain ⟨⟨changes', hchanges', hcount'⟩, hcovered⟩ := ih (hin.run hchanges)
    refine ⟨⟨changes ++ changes', hchanges.append hchanges', ?_⟩,
      fun hc => hcovered (heffect.covered hc)⟩
    rw [count_append, hcount, hcount', map_cons, sum_cons]

theorem unique_of_inOrder (hin : InOrder ledger.entries) {row row' : BaseRow}
    (hrow : row ∈ ledger.rows) (hrow' : row' ∈ ledger.rows) (hsame : row.state = row'.state)
    (hstate : row.state ≠ .retired) : row = row' := by
  have hentries : entryOf row = entryOf row' := by
    have hmem := mem_entries.mpr ⟨row, hrow, rfl⟩
    have hmem' := mem_entries.mpr ⟨row', hrow', rfl⟩
    cases hcase : row.state with
    | retired => exact absurd hcase hstate
    | staged =>
      exact hin.candidate _ hmem _ hmem' (entryOf_candidate.mpr hcase)
        (entryOf_candidate.mpr (hsame.symm.trans hcase))
    | active =>
      exact hin.holder _ hmem _ hmem' (entryOf_holder.mpr hcase)
        (entryOf_holder.mpr (hsame.symm.trans hcase))
  exact inj_on_of_nodup_map (uniqueKeys_of_inOrder hin) hrow hrow'
    (congrArg Entry.version hentries)

end Ledger

namespace Store

/-- What every reached store keeps. -/
structure Lawful (store : Store) : Prop where
  inOrder : InOrder store.primary.entries
  covered : store.primary.Covered

theorem lawful_fresh (schemaGeneration : ℕ) (boundDb : String) :
    (fresh schemaGeneration boundDb).Lawful := by
  refine ⟨Ledger.inOrder_fresh schemaGeneration, ?_⟩
  intro m hm
  cases hm

theorem lawful_of_step {call : BaseCall × CallFaults} (h : store.Lawful)
    (hstep : store.Step call store') : store'.Lawful := by
  obtain ⟨ops, hrun, -⟩ := run_of_step h.inOrder hstep
  obtain ⟨⟨changes, hchanges, -⟩, hcovered⟩ := Ledger.succession_of_run h.inOrder hrun
  exact ⟨h.inOrder.run hchanges, hcovered h.covered⟩

theorem lawful_of_run {calls : List (BaseCall × CallFaults)}
    (h : store.Lawful) (hrun : Run Step store calls store') : store'.Lawful :=
  hrun.invariant (fun _ _ _ hs hstep => lawful_of_step hs hstep) h

/-- The base that serves keeps its version through a call, or its successor takes over. -/
theorem serving_of_step {call : BaseCall × CallFaults} (h : store.Lawful)
    (hstep : store.Step call store') {row : BaseRow} (hrow : row ∈ store.primary.rows)
    (hactive : row.state = .active) : ∃ row' ∈ store'.primary.rows, row'.state = .active ∧
      (row'.version = row.version ∨ row'.version = row.version + 1) := by
  obtain ⟨ops, hrun, hcommits⟩ := run_of_step h.inOrder hstep
  obtain ⟨⟨changes, hchanges, hcount⟩, -⟩ := Ledger.succession_of_run h.inOrder hrun
  obtain ⟨e, he, hholder, hversion⟩ := h.inOrder.holder_of_run hchanges
    (Ledger.mem_entries.mpr ⟨row, hrow, rfl⟩) (Ledger.entryOf_holder.mpr hactive)
  obtain ⟨row', hrow', rfl⟩ := Ledger.mem_entries.mp he
  rw [Ledger.entryOf_version, Ledger.entryOf_version] at hversion
  refine ⟨row', hrow', Ledger.entryOf_holder.mp hholder, ?_⟩
  omega

/-- What was recorded at or below a base that served keeps its digest, or is gone. -/
theorem digest_of_run {calls : List (BaseCall × CallFaults)}
    (h : store.Lawful) (hrun : Run Step store calls store') :
    Preserves store.primary.entries store'.primary.entries := by
  refine hrun.relates (I := Lawful)
    (R := fun s s' => Preserves s.primary.entries s'.primary.entries) (fun _ => .refl _) ?_ ?_ ?_ h
  · exact fun _ _ _ hfirst hsecond => hfirst.trans hsecond
  · exact fun _ _ _ hs hstep => lawful_of_step hs hstep
  · intro s call s' hs hstep
    obtain ⟨ops, hops, -⟩ := run_of_step hs.inOrder hstep
    obtain ⟨⟨changes, hchanges, -⟩, -⟩ := Ledger.succession_of_run hs.inOrder hops
    exact hs.inOrder.preserves hchanges

theorem perform_disconnected (hlost : store.connected = false) {call : BaseCall}
    (hcall : ∀ op, call ≠ .learn op) :
    (store.perform faults call).1.primary = store.primary := by
  cases call with
  | stage install => simp [perform, stageBase, begin, hlost]
  | commit version => simp [perform, commitBase, begin, hlost]
  | abandon version => simp [perform, abandonBase, transact, begin, hlost]
  | serve install => simp [perform, serveBase, cutOverServing, activeBase, hlost]
  | cutOver install rules config =>
    cases hmoves : plannedPurposeMoves config rules <;>
      simp [perform, cutOverBase, cutOverServing, activeBase, hmoves, hlost]
  | migration migration => simp [perform, recordIdentityMigration, transact, begin, hlost]
  | learn op => exact absurd rfl (hcall op)
  | reopen | restart => rfl

/-- What a refused base call may leave: the deltas and the base that serves as they were, a store
that it quarantined, or an activation whose receipt it could not read. -/
theorem refused_of_perform (h : store.Lawful) {call : BaseCall} (hcall : ∀ op, call ≠ .learn op)
    {after : Store} {refusal : BaseError}
    (hrefused : store.perform faults call = (after, .error refusal)) :
    (after.primary.learning = store.primary.learning ∧
      after.primary.inState .active = store.primary.inState .active) ∨
    (store.connected = true ∧ after.connected = false) ∨
    ∃ v ∈ call.activates, (∃ document, document.version = v ∧
      after.primary.inState .active = some document ∧
      store.primary.inState .active ≠ some document) ∧
      after.readReceipt faults v = .error refusal := by
  obtain ⟨quiet, activation, hrun, hquiet, hactivation, hrefusal⟩ :=
    (perform_cuts h.inOrder faults hcall).run
  by_cases hconnected : store.connected = true
  · rw [hrefused] at hrun hrefusal
    obtain ⟨middle, hbefore, hrest⟩ := hrun.split
    obtain ⟨hin, hlearning, hholder⟩ := Ledger.quiet_of_run h.inOrder hbefore hquiet
    have hserves := Ledger.inState_active_congr h.inOrder hin hholder
    rcases hrefusal refusal rfl with rfl | hlost | ⟨v, hv, hunread⟩
    · cases hrest
      exact .inl ⟨hlearning, hserves⟩
    · exact .inr (.inl ⟨hconnected, hlost⟩)
    · rcases hactivation with rfl | ⟨v', hv', pin, rfl⟩
      · cases hrest
        exact .inl ⟨hlearning, hserves⟩
      · obtain rfl : v = v' := mem_unique hv hv'
        cases hrest with
        | cons hstep hnil =>
          cases hnil
          obtain ⟨document, hactive, hversion⟩ := Ledger.active_of_commit hin hstep
          refine .inr (.inr ⟨v, hv, ⟨document, hversion, hactive, ?_⟩, hunread⟩)
          intro hheld
          exact Ledger.unserved_of_commit hin hstep (hserves.trans hheld) hversion
  · have hsame := @perform_disconnected _ faults (Bool.eq_false_iff.mpr hconnected) _ hcall
    rw [hrefused] at hsame
    exact .inl ⟨congrArg Ledger.learning hsame, congrArg (Ledger.inState · .active) hsame⟩

/-- A run whose calls keep the pin beside its document activates under the pin of the document. -/
theorem warranted_of_run {calls : List (BaseCall × CallFaults)} (h : store.Lawful)
    (hpin : store.stagedPolicy = none)
    (hrun : Run (fun s call s' => Step s call s' ∧ s.Pinned call) store calls store') :
    Warranted (calls.flatMap fun call => call.1.installs) store.primary store' := by
  have hkeep := hrun.mem.invariant (I := fun s => s.Lawful ∧
    Warranted (calls.flatMap fun call => call.1.installs) store.primary s) (by
      rintro s ⟨call, faults⟩ s' ⟨hlawful, hwarranted⟩ ⟨⟨hstep, hpinned⟩, hmem⟩
      refine ⟨lawful_of_step hlawful hstep, ?_⟩
      rw [← hstep]
      by_cases hlearn : ∃ op, call = .learn op
      · obtain ⟨op, rfl⟩ := hlearn
        obtain ⟨hsame, hprimary⟩ := learn_step s faults op
        refine hwarranted.keep (fun r hr => .inl ?_) fun pin => hsame ▸ id
        rcases hprimary with hprimary | hlearns
        · exact hprimary ▸ hr
        · exact ((Ledger.effect_of_step hlawful.inOrder hlearns).stamps r hr).resolve_right id
      · exact (perform_cuts hlawful.inOrder faults fun op hop => hlearn ⟨op, hop⟩).pins hpinned _ _
          (fun install hinstall => mem_flatMap.mpr ⟨_, hmem, hinstall⟩) hwarranted)
  refine (hkeep ⟨h, ?_, fun s hs _ => .inl hs⟩).2
  intro s _ _ pin hheld
  rw [hpin] at hheld
  cases hheld

/-- In every store that a run of calls reaches, whatever failed on the way: one base is active and
one is staged at most; a call keeps the base that serves or puts its successor in its place; a
refused call changes neither that base nor the deltas, unless it quarantines the store or fails to
read the receipt of an activation it committed; digests stay; rules belong to a recorded base or to
the shipped one; and a run whose calls keep the pin beside its document activates a base under the
policy generation of an install of that very document. -/
theorem base_ledger_holds {schemaGeneration : ℕ} {boundDb : String}
    {calls : List (BaseCall × CallFaults)}
    (hrun : Run Step (fresh schemaGeneration boundDb) calls store) :
    (∀ row ∈ store.primary.rows, ∀ row' ∈ store.primary.rows, row.state = row'.state →
      row.state ≠ .retired → row = row') ∧
    (∀ call store', store.Step call store' →
      ∀ row ∈ store.primary.rows, row.state = .active →
        ∃ row' ∈ store'.primary.rows, row'.state = .active ∧
          (row'.version = row.version ∨ row'.version = row.version + 1)) ∧
    (∀ call faults, (∀ op, call ≠ .learn op) → ∀ after refusal,
      store.perform faults call = (after, .error refusal) →
        (after.primary.learning = store.primary.learning ∧
          after.primary.inState .active = store.primary.inState .active) ∨
        (store.connected = true ∧ after.connected = false) ∨
        ∃ v ∈ call.activates, (∃ document, document.version = v ∧
          after.primary.inState .active = some document ∧
          store.primary.inState .active ≠ some document) ∧
          after.readReceipt faults v = .error refusal) ∧
    (∀ calls' store', Run Step store calls' store' →
      ∀ row ∈ store.primary.rows, row.state = .active → ∀ row' ∈ store'.primary.rows,
        row'.version ≤ row.version → ∃ held ∈ store.primary.rows,
          held.version = row'.version ∧ held.digest = row'.digest) ∧
    (∀ m ∈ store.primary.migrations, m.baseVersion = SHIPPED_BASE_VERSION ∨
      ∃ row ∈ store.primary.rows, row.version = m.baseVersion) ∧
    (∀ calls' store', store.stagedPolicy = none →
      Run (fun s call s' => Step s call s' ∧ s.Pinned call) store calls' store' →
      ∀ row ∈ store'.primary.rows, row.state = .active →
        (∃ held ∈ store.primary.rows, held.state = .active ∧ held.version = row.version ∧
          held.policyGeneration = row.policyGeneration) ∨
        ∃ call ∈ calls', ∃ install ∈ call.1.installs, install.version = row.version ∧
          install.digest = row.digest ∧
          row.policyGeneration = some install.policyGeneration) := by
  have h := lawful_of_run (lawful_fresh schemaGeneration boundDb) hrun
  refine ⟨?_, ?_, ?_, ?_, ?_, ?_⟩
  · intro row hrow row' hrow'
    exact Ledger.unique_of_inOrder h.inOrder hrow hrow'
  · intro call store' hstep row hrow hactive
    exact serving_of_step h hstep hrow hactive
  · intro call faults hcall after refusal hrefused
    exact refused_of_perform h hcall hrefused
  · intro calls' store' hrun' row hrow hactive row' hrow' hle
    obtain ⟨-, hback⟩ := digest_of_run h hrun' (Ledger.entryOf row)
      (Ledger.mem_entries.mpr ⟨row, hrow, rfl⟩) (Ledger.entryOf_holder.mpr hactive)
    obtain ⟨e, he, hversion, hdigest⟩ := hback (Ledger.entryOf row')
      (Ledger.mem_entries.mpr ⟨row', hrow', rfl⟩) hle
    obtain ⟨held, hheld, rfl⟩ := Ledger.mem_entries.mp he
    exact ⟨held, hheld, hversion, hdigest⟩
  · intro m hm
    rcases h.covered m hm with hshipped | ⟨e, he, hversion⟩
    · exact .inl hshipped
    · obtain ⟨row, hrow, rfl⟩ := Ledger.mem_entries.mp he
      exact .inr ⟨row, hrow, hversion⟩
  · intro calls' store' hpin hrun' row hrow hactive
    rcases (warranted_of_run h hpin hrun').active (Ledger.stampOf row) (mem_map_of_mem hrow)
      (Ledger.entryOf_holder.mpr hactive) with hheld | ⟨install, hmem, hserved⟩
    · left
      obtain ⟨held, hheld, hstamp⟩ := mem_map.mp hheld
      have hentry : Ledger.entryOf held = Ledger.entryOf row := congrArg Prod.fst hstamp
      have hstate : held.state = .active := by
        rw [← Ledger.entryOf_holder, hentry]
        exact Ledger.entryOf_holder.mpr hactive
      exact ⟨held, hheld, hstate, congrArg Entry.version hentry, congrArg Prod.snd hstamp⟩
    · right
      obtain ⟨call, hcall, hinstall⟩ := mem_flatMap.mp hmem
      have hentry := congrArg Prod.fst hserved
      exact ⟨call, hcall, install, hinstall, (congrArg Entry.version hentry).symm,
        (congrArg Entry.content hentry).symm, congrArg Prod.snd hserved⟩

/-! ### A rule before any base, and a base that serves -/

def noTxFaults : TxFaults := ⟨true, true, .reported, .reported⟩

def noFaults : CallFaults := ⟨noTxFaults, noTxFaults, noTxFaults, true, true, true⟩

def earlyRule : IdentityMigration := ⟨SHIPPED_BASE_VERSION, .role, "plan", "design", .rename, none⟩

/-- The store that holds a rule and no base. -/
def ruled : Store :=
  { fresh 0 "state.db" with primary := { Ledger.fresh 0 with migrations := [earlyRule] } }

theorem ruled_step : (fresh 0 "state.db").Step (.migration earlyRule, noFaults) ruled := rfl

theorem rule_without_base : ¬ ∀ calls store, Run Step (fresh 0 "state.db") calls store →
    ∀ m ∈ store.primary.migrations, ∃ row ∈ store.primary.rows, row.version = m.baseVersion := by
  intro hclaim
  obtain ⟨row, hrow, -⟩ := hclaim _ ruled (.single ruled_step) earlyRule mem_cons_self
  cases hrow

def pin : String := "0123456789abcdef0123456789abcdef0123456789abcdef0123456789abcdef"

def firstBase : BaseInstall := ⟨2, "two", "", "", pin, none⟩

/-- The store that serves the first base. -/
def serving : Store := (perform (fresh 0 "state.db") noFaults (.serve firstBase)).1

theorem serving_step : (fresh 0 "state.db").Step (.serve firstBase, noFaults) serving := rfl

theorem serving_warranted : serving.primary.rows.map BaseRow.state = [.active] ∧
    ∀ row ∈ serving.primary.rows, row.state = .active → row.policyGeneration = some pin := by
  refine ⟨by decide +kernel, ?_⟩
  intro row hrow hactive
  obtain ⟨held, hheld, -⟩ | ⟨call, hcall, install, hinstall, -, -, hpolicy⟩ :=
    (base_ledger_holds (.nil (fresh 0 "state.db"))).2.2.2.2.2 [(.serve firstBase, noFaults)] serving
      rfl (.single ⟨serving_step, nofun⟩) row hrow hactive
  · cases hheld
  · rw [mem_singleton.mp hcall] at hinstall
    rw [hpolicy, mem_singleton.mp hinstall]
    rfl

end Store

end Rivect.Base
