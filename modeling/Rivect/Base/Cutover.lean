import Rivect.Base.Calls
import Rivect.Base.Judged

/-! # Cutting over

What `cut_over_base` moves: the learned bindings go where the rules recorded under the new base
place them, all at once, and the document's rows follow the role rules of the call one by one.
-/

namespace Rivect.Base

open Lib Learning Config Succession List

variable {install : BaseInstall} {rules : List IdentityMigration} {faults : CallFaults}
  {store store' : Store} {served : BaseServed}

/-- Where the rules place a purpose. -/
def IdentityRules.placed (rules : IdentityRules) (name : String) : String :=
  match rules.place .role name with
  | .rebound moved => moved
  | .unassigned => name

namespace Ledger

/-- The rules that the ledger keeps under the version that an install stages: those of another
document in the same place are abandoned with it. -/
def heldRules (ledger : Ledger) (install : BaseInstall) : List IdentityMigration :=
  match ledger.inState .staged with
  | some staged =>
    if staged.version = install.version ∧ staged.digest ≠ install.digest then []
    else ledger.migrationsFor install.version
  | none => ledger.migrationsFor install.version

/-! ## Staging keeps what is held -/

/-- A refusal of the store, and no other. -/
def OfStore (refusal : BaseError) : Prop := ∃ source, refusal = .store source

theorem sealBlockersOn_ofStore (ledger : Ledger) (version : ℕ) (semantics : Option SemanticInputs) :
    Within OfStore (fun _ => True) (ledger.sealBlockersOn version semantics) := by
  unfold sealBlockersOn
  dsimp only
  split
  · trivial
  · refine Within.bind (P := fun _ => True) ?_ fun rotated _ => ?_
    · unfold rotateEpoch allocateSetEpoch
      split
      · apply Within.bind (P := fun _ => True)
        · apply Within.bind (Within.require fun _ => ⟨_, rfl⟩)
          intro _ _
          trivial
        · intro _ _
          trivial
      · trivial
    · unfold replaceSet
      apply Within.bind (Within.require fun _ => ⟨_, rfl⟩)
      intro _ _
      apply Within.bind (Within.require fun _ => ⟨_, rfl⟩)
      intro _ _
      trivial

/-- A document is the one that an install offers. -/
def Offers (install : BaseInstall) (document : BaseDocument) : Prop :=
  document.version = install.version ∧ document.digest = install.digest

instance (install : BaseInstall) (document : BaseDocument) : Decidable (Offers install document) :=
  inferInstanceAs (Decidable (_ ∧ _))

/-- What a stage knows of the checkpoint: it is the document offered, or the stage is refused. -/
theorem stageOffered_checks (ledger : Ledger) (install : BaseInstall)
    (assets : List (UpdateAsset × String)) :
    Within (fun refusal => ∀ version, refusal = .alreadyStaged version →
        ∃ staged, ledger.inState .staged = some staged ∧ staged.version = version ∧
          ¬ Offers install staged)
      (fun _ => ∀ staged, ledger.inState .staged = some staged → Offers install staged)
      (ledger.stageOffered install assets) := by
  have hrest : ∀ {refusal : BaseError}, OfStore refusal → ∀ version,
      refusal = .alreadyStaged version → ∃ staged, ledger.inState .staged = some staged ∧
        staged.version = version ∧ ¬ Offers install staged := by
    rintro _ ⟨source, rfl⟩ version h
    cases h
  have hstaged : Within (fun refusal => ∀ version, refusal = BaseError.alreadyStaged version →
        ∃ staged, ledger.inState .staged = some staged ∧ staged.version = version ∧
          ¬ Offers install staged)
      (fun _ => ∀ staged, ledger.inState .staged = some staged → Offers install staged)
      ((ledger.inState .staged).toList.forM fun staged =>
        require (staged.version = install.version ∧ staged.digest = install.digest)
          (BaseError.alreadyStaged staged.version)) := by
    cases hstaged : ledger.inState .staged with
    | none => exact fun staged h => by cases h
    | some document =>
      have hcheck : Within (fun refusal => ∀ version, refusal = BaseError.alreadyStaged version →
          ∃ staged, some document = some staged ∧ staged.version = version ∧
            ¬ Offers install staged) (fun _ => Offers install document)
          (require (document.version = install.version ∧ document.digest = install.digest)
            (BaseError.alreadyStaged document.version)) := by
        apply Within.require
        rintro hnot version ⟨rfl⟩
        exact ⟨document, rfl, rfl, hnot⟩
      apply Within.bind hcheck
      rintro _ hmatch staged ⟨rfl⟩
      exact hmatch
  apply Within.bind hstaged
  intro _ hmatch
  apply Within.bind (P := fun _ => True)
  · unfold allocateSetEpoch
    apply Within.bind (Within.require fun _ => hrest ⟨_, rfl⟩)
    intro _ _
    trivial
  · intro allocated _
    apply Within.bind (P := fun _ => True)
    · unfold insertBase
      apply Within.bind (P := fun _ => True)
      · exact (Within.mapError (E := fun _ => True) Within.trivially fun _ _ => hrest ⟨_, rfl⟩)
      · intro _ _
        split <;> trivial
    · intro inserted _
      apply Within.bind (((sealBlockersOn_ofStore _ _ _).mono (fun _ he => hrest he) fun _ h => h))
      intro _ _
      exact hmatch

theorem stageBaseOn_checks {ledger : Ledger} (assets : List (UpdateAsset × String))
    (hnot : ∀ active, ledger.inState .active = some active → active.version ≠ install.version) :
    Within (fun refusal => ∀ version, refusal = .alreadyStaged version →
        ∃ staged, ledger.inState .staged = some staged ∧ staged.version = version ∧
          ¬ Offers install staged)
      (fun _ => ∀ staged, ledger.inState .staged = some staged → Offers install staged)
      (ledger.stageBaseOn install assets) := by
  unfold stageBaseOn
  split
  · exact stageOffered_checks ledger install assets
  · rename_i active hactive
    split
    · rintro version ⟨⟩
    · split
      · rename_i hversion
        exact absurd hversion.symm (hnot active hactive)
      · split
        · rintro version ⟨⟩
        · exact stageOffered_checks ledger install assets

theorem stageForCutoverOn_held {ledger staged : Ledger}
    {assets : List (UpdateAsset × String)} {abandoned : Option BaseDocument}
    (hin : InOrder ledger.entries)
    (hnot : ∀ active, ledger.inState .active = some active → active.version ≠ install.version)
    (h : ledger.stageForCutoverOn install assets = .ok (staged, abandoned)) :
    staged.migrationsFor install.version = ledger.heldRules install := by
  have hchecks := stageBaseOn_checks assets hnot
  unfold stageForCutoverOn at h
  split at h
  · rename_i first hfirst
    cases h
    have hstages := (stageBaseOn_within assets hin).of_ok hfirst
    have hmatch := hchecks.of_ok hfirst
    unfold heldRules migrationsFor
    rw [hstages.migrations]
    split
    · rename_i document hdocument
      rw [if_neg fun hother => hother.2 (hmatch document hdocument).2]
    · rfl
  · rename_i version hrefused
    obtain ⟨document, hdocument, hversion, hother⟩ := hchecks.of_error hrefused version rfl
    split at h
    · cases habandoned : ledger.abandonBaseOn version with
      | error e =>
        rw [habandoned] at h
        cases h
      | ok done =>
        rw [habandoned, ok_bind] at h
        have habandons := (abandonBaseOn_within ledger version).of_ok habandoned
        have hrun := habandons.run
        cases hstaged : done.1.stageBaseOn install assets with
        | error e =>
          rw [hstaged] at h
          cases h
        | ok again =>
          rw [hstaged] at h
          cases h
          have hstages := (stageBaseOn_within assets (hin.run hrun)).of_ok hstaged
          unfold heldRules migrationsFor
          rw [hstages.migrations, habandons.migrations, hdocument, filter_filter]
          dsimp only
          by_cases hsame : document.version = install.version
          · rw [if_pos ⟨hsame, fun hdigest => hother ⟨hsame, hdigest⟩⟩]
            rw [filter_eq_nil_iff]
            intro m _
            simp only [ne_eq, decide_not, Bool.and_eq_true, decide_eq_true_eq,
              Bool.not_eq_eq_eq_not, Bool.not_true, decide_eq_false_iff_not, not_and, not_not]
            intro hbase
            rw [hbase, ← hsame, hversion]
          · rw [if_neg fun hother => hsame hother.1]
            apply filter_congr
            intro m _
            have hne : version ≠ install.version := fun heq => hsame (hversion.trans heq)
            by_cases hbase : m.baseVersion = install.version
            · simp [hbase, Ne.symm hne]
            · simp [hbase]
    · cases h
  · cases h

/-! ## The rules that are recorded -/

theorem recordMigrationOn_records (ledger : Ledger) (migration : IdentityMigration)
    (version : ℕ) :
    Within Fails (fun recorded =>
        ∀ m, m ∈ recorded.1.migrations ↔ m ∈ ledger.migrations ∨ m = migration)
      (ledger.recordMigrationOn migration version) := by
  apply Within.skip
  intro _
  apply Within.skip
  intro _
  apply Within.skip
  intro _
  apply Within.look
  intro stored hstored
  apply Within.guard
  rintro rfl
  have hmem : stored ∈ (ledger.insertMigration stored).migrations :=
    (mem_filter.mp (mem_of_find?_eq_some hstored)).1
  intro m
  unfold insertMigration at hmem ⊢
  split
  · rename_i hany
    rw [if_pos hany] at hmem
    exact ⟨.inl, fun h => h.elim id fun heq => heq ▸ hmem⟩
  · simp

theorem recordReleaseRulesOn_records (ledger : Ledger) (install : BaseInstall)
    (rules : List IdentityMigration) :
    Within Fails (fun recorded =>
        (∀ m, m ∈ recorded.migrations ↔ m ∈ ledger.migrations ∨ m ∈ rules) ∧
        ∀ m ∈ rules, m.baseVersion = install.version)
      (ledger.recordReleaseRulesOn install rules) := by
  have hloop : Within Fails (fun recorded : Ledger =>
      (∀ m, m ∈ recorded.migrations ↔ m ∈ ledger.migrations ∨ m ∈ rules) ∧
      ∀ m ∈ rules, m.baseVersion = install.version)
      (rules.foldlM (fun ledger rule => do
        let recorded ← identifying (recordMigrationOn ledger rule install.version)
        .ok recorded.1) ledger) := by
    apply Within.foldlM (fun seen (recorded : Ledger) =>
      (∀ m, m ∈ recorded.migrations ↔ m ∈ ledger.migrations ∨ m ∈ seen) ∧
      ∀ m ∈ seen, m.baseVersion = install.version)
    · rintro seen rule recorded - ⟨hmem, hbase⟩
      apply Within.bind (((recordMigrationOn_records recorded rule install.version).and
        (recordMigrationOn_within recorded rule install.version)).mapError fun _ _ => trivial)
      rintro next ⟨hnext, hversion, -⟩
      refine ⟨?_, ?_⟩
      · intro m
        rw [hnext, hmem, mem_append, mem_singleton, or_assoc]
      · intro m hm
        rcases mem_append.mp hm with hm | hm
        · exact hbase m hm
        · rw [mem_singleton.mp hm]
          exact hversion
    · simp
  apply Within.bind hloop
  rintro recorded ⟨hmem, hbase⟩
  refine (sealBlockersOn_frame recorded install.version install.semantics).imp ?_
  intro placed hplaced
  exact ⟨fun m => by rw [hplaced.migrations, hmem], hbase⟩

end Ledger

namespace Store

/-! ## A cutover that serves -/

theorem recordReleaseRules_ok {store recorded : Store} {answer : Unit}
    (hin : InOrder store.primary.entries) (hopened : store.opened = none)
    (hrow : (store.primary.row install.version).isSome = true)
    (h : store.recordReleaseRules faults install rules = (recorded, .ok answer)) :
    recorded.opened = none ∧ InOrder recorded.primary.entries ∧
      recorded.primary.learning = store.primary.learning ∧
      ∀ m, m ∈ recorded.primary.migrationsFor install.version ↔
        m ∈ store.primary.migrationsFor install.version ∨ m ∈ rules := by
  have hrules : Cuts store faults none [] True (store.recordReleaseRules faults install rules) :=
    recordReleaseRules_cuts hin faults rules fun _ => hrow
  obtain ⟨hin', hlearning, -⟩ := hrules.leaves hin
  rw [h] at hin' hlearning
  unfold recordReleaseRules at h
  split at h
  · rename_i hempty
    cases h
    exact ⟨hopened, hin, rfl, fun m => by simp [hempty]⟩
  · have htransacts := transacts store faults.rules fun ledger => do
      let written ← ledger.recordReleaseRulesOn install rules
      .ok (written, ())
    rw [h] at htransacts
    obtain ⟨-, -, written, hbody, rfl⟩ := htransacts.answered _ rfl
    obtain ⟨ledger, hrecorded, hok⟩ := bind_eq_ok hbody
    cases hok
    obtain ⟨hmem, hbase⟩ :=
      (Ledger.recordReleaseRulesOn_records store.primary install rules).of_ok hrecorded
    refine ⟨hopened, hin', hlearning, ?_⟩
    intro m
    unfold Ledger.migrationsFor
    rw [mem_filter, mem_filter, hmem, or_and_right]
    exact or_congr_right ⟨fun hm => hm.1, fun hm => ⟨hm, decide_eq_true (hbase m hm)⟩⟩

/-- An activation that answered rebound the deltas by the rules of its version. -/
theorem commitBase_ok {store committed : Store} {version : ℕ}
    {receipt : UpdateReceipt} (hin : InOrder store.primary.entries)
    (h : store.commitBase faults version = (committed, .ok receipt)) :
    committed.opened = none ∧ InOrder committed.primary.entries ∧
      (∃ active, committed.primary.inState .active = some active ∧ active.version = version) ∧
      Ledger.Rebound version (store.primary.migrationsFor version) store.primary.learning
        committed.primary.learning := by
  unfold commitBase at h
  split at h
  · cases h
  · rename_i ledger hbegin
    obtain ⟨rfl, hopened, hconnected⟩ := begin_ok hbegin
    split at h
    · rename_i refusal hattempt
      exfalso
      unfold classifyRollback at h
      split at h
      · cases h
      · split at h
        · split at h <;> cases h
        · cases h
      · cases h
    · rename_i written identity hattempt
      have hstep := Ledger.step_of_prepared (attempt_ok hattempt)
      have hin' := Ledger.inOrder_of_step hin hstep
      have hactive := Ledger.active_of_commit hin hstep
      have hrebound := (Ledger.effect_of_step hin hstep).learning
      split at h
      · obtain ⟨rfl, -⟩ := Prod.mk.inj h
        exact ⟨hopened, hin', hactive, hrebound⟩
      · have hstill := (readBack_still { store with primary := written } faults version).1
        rw [h] at hstill
        rw [hstill]
        refine ⟨?_, hin', hactive, hrebound⟩
        unfold readBackAfterRefusedCommit at h
        split at h
        · split at h
          · obtain ⟨rfl, -⟩ := Prod.mk.inj h
            exact hopened
          · cases h
        · cases h
      · exfalso
        unfold readBackAfterRefusedCommit at h
        split at h
        · rename_i tuple htuple
          split at h
          · rename_i hbase
            rw [readTuple_ok htuple] at hbase
            obtain ⟨active, hactive, hsame⟩ := Option.map_eq_some_iff.mp hbase
            unfold view at hactive
            rw [hopened, Option.getD_none] at hactive
            exact Ledger.unserved_of_commit hin hstep hactive hsame
          · cases h
        · cases h
      · cases h

/-- What a cutover leaves that serves its version. -/
structure Serving (store store' : Store) (install : BaseInstall)
    (rules : List IdentityMigration) : Prop where
  opened : store'.opened = none
  inOrder : InOrder store'.primary.entries
  active : ∃ active, store'.primary.inState .active = some active ∧
    active.version = install.version
  moved : ∃ placing : IdentityRules,
    (∀ m, m ∈ placing.migrations ↔ m ∈ store.primary.heldRules install ∨ m ∈ rules) ∧
    ∃ out, rebindLearningIdentities placing store.primary.learning =
      .ok (store'.primary.learning, out)

theorem keys_of_run {schemaGeneration : ℕ} {boundDb : String} {calls : List (BaseCall × CallFaults)}
    (hrun : Run Step (fresh schemaGeneration boundDb) calls store) :
    UniqueKeys DeltaRecord.deltaId store.primary.learning.deltas := by
  have hsound := hrun.invariant (I := fun s => s.primary.Sound) (fun s call s' hs hstep => by
    obtain ⟨ops, hops, -⟩ := run_of_step hs.inOrder hstep
    exact Ledger.sound_of_run hs hops) (Ledger.sound_fresh schemaGeneration)
  exact hsound.judged.keys

theorem serving_of_next (hin : InOrder store.primary.entries)
    (hnot : ∀ active, store.primary.inState .active = some active →
      active.version ≠ install.version)
    (h : store.serveNext faults install rules = (store', .ok served)) :
    Serving store store' install rules := by
  unfold serveNext at h
  split at h
  · cases h
  · rename_i staged abandoned hstaged
    obtain ⟨hopened, hopened', hbody, -, hrow⟩ := stageForCutover_ok hin hstaged
    obtain ⟨heffect, -⟩ := (Ledger.stageForCutoverOn_within _ hin).of_ok hbody
    obtain ⟨changes, hrun, -⟩ := heffect.run
    have hheld := Ledger.stageForCutoverOn_held hin hnot hbody
    split at h
    · cases h
    · rename_i recorded _ hrecorded
      obtain ⟨-, hin', hlearning, hmem⟩ :=
        recordReleaseRules_ok (hin.run hrun) hopened' hrow hrecorded
      cases hcommit : recorded.commitBase faults install.version with
      | mk committed answer =>
        cases answer with
        | error e =>
          simp only [hcommit] at h
          cases h
        | ok receipt =>
          simp only [hcommit] at h
          cases h
          obtain ⟨hclosed, hin'', hactive, placing, out, -, hplacing, hmoved⟩ :=
            commitBase_ok hin' hcommit
          refine ⟨hclosed, hin'', hactive, placing, ?_, out, ?_⟩
          · intro m
            rw [hplacing, hmem, hheld]
          · have hunlearned : staged.primary.learning = store.primary.learning :=
              heffect.learning
            rw [hlearning, hunlearned] at hmoved
            exact hmoved

/-- A base that serves already is served again, and the deltas stay. -/
theorem learning_of_again (hin : InOrder store.primary.entries) (hopened : store.opened = none)
    (hactive : ∃ active, store.primary.inState .active = some active ∧
      active.version = install.version) (faults : CallFaults) (rules : List IdentityMigration) :
    (store.cutOverServing faults install rules).1.primary.learning = store.primary.learning := by
  obtain ⟨active, hactive, hversion⟩ := hactive
  have hview : store.view.inState .active = some active := by
    rw [view, hopened, Option.getD_none, hactive]
  unfold cutOverServing
  split
  · rfl
  · rename_i read hread
    obtain ⟨-, hread⟩ := activeBase_ok hread
    rw [hview] at hread
    cases hread
    rw [if_pos hversion]
    unfold serveAgain
    split
    · rfl
    · have hrules : Cuts store faults none [] True (store.recordReleaseRules faults install rules) :=
        recordReleaseRules_cuts hin faults rules (hversion ▸ row_of_active hin hview)
      have hlearning := (hrules.leaves hin).2.1
      split
      · rename_i hrecorded
        rw [hrecorded] at hlearning
        exact hlearning
      · rename_i hrecorded
        rw [hrecorded] at hlearning
        exact hlearning
  · rename_i hread
    obtain ⟨-, hread⟩ := activeBase_ok hread
    rw [hview] at hread
    cases hread

theorem serving_of_cutOver (hin : InOrder store.primary.entries)
    (hnot : ∀ active, store.view.inState .active = some active →
      active.version ≠ install.version)
    (h : store.cutOverServing faults install rules = (store', .ok served)) :
    Serving store store' install rules := by
  have hnext : store.serveNext faults install rules = (store', .ok served) := by
    unfold cutOverServing at h
    split at h
    · cases h
    · rename_i active hactive
      rwa [if_neg (hnot active (activeBase_ok hactive).2.symm)] at h
    · exact h
  refine serving_of_next hin ?_ hnext
  unfold serveNext at hnext
  split at hnext
  · cases hnext
  · rename_i staged abandoned hstaged
    have hopened := (stageForCutover_ok hin hstaged).1
    intro active hactive
    apply hnot
    rw [view, hopened, Option.getD_none, hactive]

/-! ## The document and the store together -/

theorem mem_purposeMoves {move : String × String} :
    move ∈ purposeMoves rules ↔
      ∃ m ∈ rules, m.kind = .role ∧ m.oldId = move.1 ∧ m.newId = move.2 := by
  unfold purposeMoves
  rw [mem_map]
  constructor
  · rintro ⟨m, hm, rfl⟩
    rw [mem_filter] at hm
    exact ⟨m, hm.1, of_decide_eq_true hm.2, rfl, rfl⟩
  · rintro ⟨m, hm, hkind, hold, hnew⟩
    exact ⟨m, mem_filter.mpr ⟨hm, decide_eq_true hkind⟩, Prod.ext hold hnew⟩

theorem cutOverBase_ok {document document' : Table}
    (h : store.cutOverBase faults install rules (some document) =
      (store', some document', .ok served)) :
    store.cutOverServing faults install rules = (store', .ok served) ∧
      applyMoves document (purposeMoves rules) = .ok document' := by
  unfold cutOverBase at h
  split at h
  · cases h
  · rename_i moves hplanned
    obtain ⟨moved, hmoved, hall⟩ := movePurposeBindings_of_planned hplanned
    obtain ⟨landed, hlanded, happlied⟩ := hall document rfl
    split at h
    · cases h
    · rename_i first answer hserving
      simp only [hmoved, hlanded] at h
      cases h
      exact ⟨hserving, happlied⟩

theorem cutOverBase_of_serving {document document' : Table} {kept : List (String × String)}
    (hproven : provenMoves document (purposeMoves rules) = .ok kept)
    (hserving : store.cutOverServing faults install rules = (store', .ok served))
    (happlied : applyMoves document (purposeMoves rules) = .ok document') :
    store.cutOverBase faults install rules (some document) =
      (store', some document', .ok served) := by
  have hplanned : plannedPurposeMoves (some document) rules = .ok kept := by
    change (provenMoves document (purposeMoves rules)).mapError BaseError.document = _
    rw [hproven]
    rfl
  obtain ⟨moved, hmoved, hall⟩ := movePurposeBindings_of_planned hplanned
  obtain ⟨landed, hlanded, hsame⟩ := hall document rfl
  rw [happlied] at hsame
  cases hsame
  unfold cutOverBase
  rw [hplanned]
  simp only [hserving, hmoved, hlanded]

/-- What a cutover owes: a row is found with its binding where the rules place its name, and an
instruction is bound where they place its purpose. -/
structure MovesTogether (rules : IdentityRules) (document document' : Table)
    (deltas deltas' : List DeltaRecord) : Prop where
  rows : ∀ name row, entry (rowsOf document) name = some row →
    ∃ row', entry (rowsOf document') (rules.placed name) = some row' ∧ SameBinding row row'
  instructions : Forall₂ (fun held moved => ∀ binding, storedBinding held = some binding →
    binding.kind = .role →
      storedBinding moved = some { binding with subject := rules.placed binding.subject })
    deltas deltas'

/-- Whatever document the cutover moves, it moves together with the store, and only once. -/
def CutsTogether (store : Store) (faults : CallFaults) (install : BaseInstall)
    (rules : IdentityRules) : Prop :=
  ∀ document store' document' served,
    store.cutOverBase faults install rules.migrations (some document) =
      (store', some document', .ok served) →
    MovesTogether rules document document' store.primary.learning.deltas
      store'.primary.learning.deltas ∧
    ∀ faults', let again := store'.cutOverBase faults' install rules.migrations (some document')
      again.1.primary.learning = store'.primary.learning ∧ again.2.1 = some document'

end Store

namespace IdentityRules

/-- No role rule starts where another one ends. -/
def Flat (rules : IdentityRules) : Prop :=
  ∀ first ∈ rules.migrations, ∀ next ∈ rules.migrations,
    first.kind = .role → next.kind = .role → next.oldId ≠ first.newId

theorem placed_of_mem (rules : IdentityRules) {m : IdentityMigration} (hm : m ∈ rules.migrations)
    (hkind : m.kind = .role) : rules.placed m.oldId = m.newId := by
  have hplace := rules.place_of_mem hm
  rw [hkind] at hplace
  unfold placed
  rw [hplace]

theorem placed_of_unassigned (rules : IdentityRules) {name : String}
    (h : rules.place .role name = .unassigned) : rules.placed name = name := by
  unfold placed
  rw [h]

theorem follow_placed {rules : IdentityRules} (hflat : rules.Flat) (name : String) :
    follow (Store.purposeMoves rules.migrations) name = rules.placed name := by
  cases hplace : rules.place .role name with
  | unassigned =>
    rw [rules.placed_of_unassigned hplace]
    apply follow_of_notMem
    intro move hmove hsource
    obtain ⟨m, hm, hkind, hold, -⟩ := Store.mem_purposeMoves.mp hmove
    exact rules.place_unassigned.mp hplace m hm hkind (hold.trans hsource)
  | rebound moved =>
    obtain ⟨m, hm, hkind, rfl, rfl⟩ := rules.place_rebound hplace
    rw [rules.placed_of_mem hm hkind]
    refine @follow_of_mem _ ?_ ?_ (m.oldId, m.newId)
      (Store.mem_purposeMoves.mpr ⟨m, hm, hkind, rfl, rfl⟩)
    · intro first hfirst next hnext
      obtain ⟨m1, hm1, hkind1, -, hnew⟩ := Store.mem_purposeMoves.mp hfirst
      obtain ⟨m2, hm2, hkind2, hold, -⟩ := Store.mem_purposeMoves.mp hnext
      rw [← hnew, ← hold]
      exact hflat m1 hm1 m2 hm2 hkind1 hkind2
    · intro first hfirst next hnext hsame
      obtain ⟨m1, hm1, hkind1, hold1, hnew1⟩ := Store.mem_purposeMoves.mp hfirst
      obtain ⟨m2, hm2, hkind2, hold2, hnew2⟩ := Store.mem_purposeMoves.mp hnext
      rw [← hnew1, ← hnew2]
      exact rules.consistent.target m1 hm1 m2 hm2 (hkind1.trans hkind2.symm)
        (hold1.trans (hsame.trans hold2.symm))

theorem placed_notMem {rules : IdentityRules} (hflat : rules.Flat) (name : String)
    {m : IdentityMigration} (hm : m ∈ rules.migrations) (hkind : m.kind = .role) :
    m.oldId ≠ rules.placed name := by
  cases hplace : rules.place .role name with
  | unassigned =>
    rw [rules.placed_of_unassigned hplace]
    exact rules.place_unassigned.mp hplace m hm hkind
  | rebound moved =>
    obtain ⟨first, hfirst, hfirstKind, rfl, rfl⟩ := rules.place_rebound hplace
    rw [rules.placed_of_mem hfirst hfirstKind]
    exact hflat first hfirst m hm hfirstKind hkind

end IdentityRules

/-- No instruction is bound to a purpose that only a rule held from before moves. -/
def Ledger.HeldApart (ledger : Ledger) (install : BaseInstall) (rules : IdentityRules) : Prop :=
  ∀ m ∈ ledger.heldRules install, m.kind = .role → rules.place .role m.oldId = .unassigned →
    ∀ record ∈ ledger.learning.deltas, ∀ binding, storedBinding record = some binding →
      binding.kind = .role → binding.subject ≠ m.oldId

/-- The instructions go where the call's rules place them unless an older rule moves one. -/
theorem instructions_iff {ledger : Ledger} {rules placing : IdentityRules}
    (hmem : ∀ m, m ∈ placing.migrations ↔ m ∈ ledger.heldRules install ∨ m ∈ rules.migrations) :
    Forall₂ (fun held moved => ∀ binding, storedBinding held = some binding →
      binding.kind = .role →
        storedBinding moved = some { binding with subject := rules.placed binding.subject })
      ledger.learning.deltas (ledger.learning.deltas.map (moveRecord placing)) ↔
    ledger.HeldApart install rules := by
  rw [forall₂_map_right_iff, forall₂_same]
  constructor
  · intro hplaced m hm hkind hfree record hrecord binding hbinding hrole hsubject
    have hplace := placing.place_of_mem ((hmem m).mpr (.inl hm))
    rw [hkind, ← hrole, ← hsubject] at hplace
    have hmoved := (moveRecord_rebound hbinding hplace).1
    rw [hplaced record hrecord binding hbinding hrole, hsubject,
      rules.placed_of_unassigned hfree] at hmoved
    injection hmoved with hmoved
    have hsame : m.oldId = m.newId := congrArg StoredBinding.subject hmoved
    exact placing.place_ne hplace (hsame.symm.trans hsubject.symm)
  · intro hapart record hrecord binding hbinding hrole
    cases hplace : rules.place .role binding.subject with
    | rebound moved =>
      obtain ⟨m, hm, hkind, hold, rfl⟩ := rules.place_rebound hplace
      have hplacing := placing.place_of_mem ((hmem m).mpr (.inr hm))
      rw [hkind, ← hrole, hold] at hplacing
      rw [(moveRecord_rebound hbinding hplacing).1, ← hold, rules.placed_of_mem hm hkind]
    | unassigned =>
      have hfree : placing.place binding.kind binding.subject = .unassigned := by
        rw [hrole, placing.place_unassigned]
        intro m hm hkind hold
        rcases (hmem m).mp hm with hheld | hrule
        · exact hapart m hheld hkind (hold ▸ hplace) record hrecord binding hbinding hrole
            hold.symm
        · exact rules.place_unassigned.mp hplace m hrule hkind hold
      have hstay : moveRecord placing record = record := by
        apply moveRecord_unassigned
        intro other hother
        rw [hbinding] at hother
        cases hother
        exact hfree
      rw [hstay, hbinding, rules.placed_of_unassigned hplace]

namespace Store

/-- A second cutover over flat rules finds nothing to move. -/
theorem again_of_flat {rules : IdentityRules}
    (hserving : Serving store store' install rules.migrations) (hflat : rules.Flat)
    {document document' : Table}
    (happlied : applyMoves document (purposeMoves rules.migrations) = .ok document')
    (faults' : CallFaults) :
    let again := store'.cutOverBase faults' install rules.migrations (some document')
    again.1.primary.learning = store'.primary.learning ∧ again.2.1 = some document' := by
  have hcarries := (applyMoves_within document (purposeMoves rules.migrations)).of_ok happlied
  have hunbound : ∀ move ∈ purposeMoves rules.migrations,
      entry (rowsOf document') move.1 = none := by
    intro move hmove
    obtain ⟨m, hm, hkind, hold, -⟩ := mem_purposeMoves.mp hmove
    cases hentry : entry (rowsOf document') move.1 with
    | none => rfl
    | some row =>
      obtain ⟨source, -, -, hfollow⟩ := hcarries.origin _ row hentry
      rw [rules.follow_placed hflat, ← hold] at hfollow
      exact absurd hfollow.symm (rules.placed_notMem hflat source hm hkind)
  have hplanned : plannedPurposeMoves (some document') rules.migrations = .ok [] := by
    change (provenMoves document' (purposeMoves rules.migrations)).mapError BaseError.document = _
    rw [provenMoves_of_unbound hunbound]
    rfl
  have hlearning := learning_of_again hserving.inOrder hserving.opened hserving.active faults'
    rules.migrations
  unfold cutOverBase
  rw [hplanned]
  dsimp only
  split
  · rename_i hagain
    rw [hagain] at hlearning
    exact ⟨hlearning, rfl⟩
  · rename_i hagain
    rw [hagain] at hlearning
    exact ⟨hlearning, rfl⟩

/-- The rules of a release are flat when every document of one row moves with its store. -/
theorem flat_of_cutsTogether {rules : IdentityRules}
    (hserving : store.cutOverServing faults install rules.migrations = (store', .ok served))
    (hagain : ∃ faults' store'' served',
      store'.cutOverServing faults' install rules.migrations = (store'', .ok served'))
    (h : store.CutsTogether faults install rules) : rules.Flat := by
  have hcut : ∀ {s s' : Store} {faults : CallFaults} {served : BaseServed},
      s.cutOverServing faults install rules.migrations = (s', .ok served) → ∀ name,
      s.cutOverBase faults install rules.migrations (some (alone name)) =
        (s', some (alone (follow (purposeMoves rules.migrations) name)), .ok served) := by
    intro s s' faults served hs name
    obtain ⟨kept, hkept⟩ := provenMoves_alone name (purposeMoves rules.migrations)
    exact cutOverBase_of_serving hkept hs (applyMoves_alone name _)
  have hplaced : ∀ name, follow (purposeMoves rules.migrations) name = rules.placed name := by
    intro name
    have hfound : entry (rowsOf (alone name)) name = some (.table []) := by
      rw [entry_alone, if_pos rfl]
    obtain ⟨row', hrow', -⟩ := (h _ _ _ _ (hcut hserving name)).1.rows name _ hfound
    rw [entry_alone] at hrow'
    by_contra hne
    rw [if_neg hne] at hrow'
    cases hrow'
  have hsettled : ∀ name, rules.placed (rules.placed name) = rules.placed name := by
    intro name
    obtain ⟨faults', store'', served', hserved'⟩ := hagain
    have hsame := ((h _ _ _ _ (hcut hserving name)).2 faults').2
    rw [hcut hserved', hplaced, hplaced] at hsame
    injection hsame with hsame
    exact alone_injective hsame
  intro first hfirst next hnext hkind hkind' hmeets
  have hsettled := hsettled first.oldId
  rw [rules.placed_of_mem hfirst hkind, ← hmeets, rules.placed_of_mem hnext hkind'] at hsettled
  exact (IdentityMigration.of_validate (rules.consistent.valid next hnext)).1 hsettled.symm

/-- A cutover from an older base moves every document together with the stored instructions, and
only once, exactly when no role rule of the release starts where another one ends and no rule that
was held for the version moves an instruction of its own. -/
theorem cutsTogether_iff {schemaGeneration : ℕ} {boundDb : String}
    {calls : List (BaseCall × CallFaults)} {rules : IdentityRules}
    (hrun : Run Step (fresh schemaGeneration boundDb) calls store)
    (holder : ∃ active, store.view.inState .active = some active ∧
      active.version < install.version)
    (hserves : store.cutOverServing faults install rules.migrations = (store', .ok served))
    (hagain : ∃ faults' store'' served',
      store'.cutOverServing faults' install rules.migrations = (store'', .ok served')) :
    store.CutsTogether faults install rules ↔
      rules.Flat ∧ store.primary.HeldApart install rules := by
  have hin := (lawful_of_run (lawful_fresh schemaGeneration boundDb) hrun).inOrder
  have hkeys := keys_of_run hrun
  have hnot : ∀ active, store.view.inState .active = some active →
      active.version ≠ install.version := by
    intro active hactive
    obtain ⟨older, holds, hlt⟩ := holder
    rw [hactive] at holds
    cases holds
    exact hlt.ne
  have hserving := serving_of_cutOver hin hnot hserves
  obtain ⟨placing, hmem, out, hmoved⟩ := hserving.moved
  have hdeltas := ((rebindLearningIdentities_within placing hkeys).of_ok hmoved).deltas
  constructor
  · intro h
    have hflat := flat_of_cutsTogether hserves hagain h
    refine ⟨hflat, (instructions_iff hmem).mp ?_⟩
    obtain ⟨kept, hkept⟩ := provenMoves_alone "" (purposeMoves rules.migrations)
    have hone := (h _ _ _ _ (cutOverBase_of_serving hkept hserves (applyMoves_alone "" _))).1
    rw [← hdeltas]
    exact hone.instructions
  · rintro ⟨hflat, hapart⟩ document other document' answer hcut
    obtain ⟨hserves', happlied⟩ := cutOverBase_ok hcut
    rw [hserves] at hserves'
    cases hserves'
    have hcarries := (applyMoves_within document (purposeMoves rules.migrations)).of_ok happlied
    refine ⟨⟨?_, ?_⟩, fun faults' => again_of_flat hserving hflat happlied faults'⟩
    · intro name row hrow
      rw [← rules.follow_placed hflat]
      exact hcarries.found name row hrow
    · rw [hdeltas]
      exact (instructions_iff hmem).mpr hapart

/-! ### A rule that starts where another ends -/

def nextBase : BaseInstall := ⟨3, "three", "", "", pin, none⟩

def planToDesign : IdentityMigration := ⟨3, .role, "plan", "design", .rename, none⟩

def designToReview : IdentityMigration := ⟨3, .role, "design", "review", .rename, none⟩

theorem chained_accepted : claimAll 3 [] [planToDesign, designToReview] = .ok () := rfl

def chained : IdentityRules := ⟨3, [planToDesign, designToReview], .of_claimAll chained_accepted⟩

theorem renamed_accepted : claimAll 3 [] [planToDesign] = .ok () := rfl

def renamed : IdentityRules := ⟨3, [planToDesign], .of_claimAll renamed_accepted⟩

theorem serving_older : ∃ active, serving.view.inState .active = some active ∧
    active.version < nextBase.version := by
  have hactive : (serving.view.inState .active).map BaseDocument.version = some 2 := by
    decide +kernel
  obtain ⟨active, hactive, hversion⟩ := Option.map_eq_some_iff.mp hactive
  exact ⟨active, hactive, hversion.trans_lt (by decide)⟩

/-- The store after a cutover, and the answer of one that succeeded. -/
theorem serves_of_isOk (h : (store.cutOverServing noFaults nextBase rules).2.isOk = true) :
    ∃ served, store.cutOverServing noFaults nextBase rules =
      ((store.cutOverServing noFaults nextBase rules).1, .ok served) := by
  cases hserved : store.cutOverServing noFaults nextBase rules with
  | mk store' answer =>
    rw [hserved] at h
    cases answer with
    | ok served => exact ⟨served, rfl⟩
    | error e => cases h

theorem chained_rules_split_a_cutover : ¬ ∀ calls store,
    Run Step (fresh 0 "state.db") calls store →
    ∀ faults install (rules : IdentityRules),
      (∃ active, store.view.inState .active = some active ∧ active.version < install.version) →
      store.CutsTogether faults install rules := by
  intro hclaim
  have htogether := hclaim _ serving (.single serving_step) noFaults nextBase chained serving_older
  obtain ⟨served, hserves⟩ := @serves_of_isOk chained.migrations serving
    (by decide +kernel)
  obtain ⟨kept, hkept⟩ := provenMoves_alone "plan" (purposeMoves chained.migrations)
  have hcut := htogether _ _ _ _
    (cutOverBase_of_serving hkept hserves (applyMoves_alone "plan" _))
  obtain ⟨row, hrow, -⟩ := hcut.1.rows "plan" (.table []) rfl
  cases hrow

theorem renamed_cutover : serving.CutsTogether noFaults nextBase renamed ↔
    renamed.Flat ∧ serving.primary.HeldApart nextBase renamed := by
  obtain ⟨served, hserves⟩ := @serves_of_isOk renamed.migrations serving
    (by decide +kernel)
  obtain ⟨served', hagain⟩ := @serves_of_isOk renamed.migrations
    (serving.cutOverServing noFaults nextBase renamed.migrations).1 (by decide +kernel)
  exact cutsTogether_iff (.single serving_step) serving_older hserves
    ⟨noFaults, _, served', hagain⟩

end Store

end Rivect.Base
