import Rivect.Base.Pages
import Rivect.Learning.Judgement
import Rivect.Lib.Succession

/-! # The ledger as a succession of bases

Every transaction of the base ledger as one operation, and the refinement: what an operation does
to the rows is a run of the succession of `Rivect.Lib.Succession`, with the digest as content.
-/

namespace Rivect.Base

open Lib Learning Succession List
open Within (skip)

variable {ledger ledger' : Ledger}

/-! ## Operations -/

inductive LearningOp where
  | record (candidate : DeltaCandidate)
  | judge (deltaId : String) (cases : List CorpusCase)
  | activate (deltaId : String) (expectedVersion : ℕ)
  | rollBack (deltaId : String) (expectedVersion : ℕ)

def LearningOp.perform (tables : LearningTables) : LearningOp → Except StoreError LearningTables
  | .record candidate => tables.recordDelta candidate
  | .judge deltaId cases => tables.recordCorpus deltaId cases
  | .activate deltaId expected => tables.activate deltaId expected
  | .rollBack deltaId expected => tables.rollBack deltaId expected

/-- The body of one transaction. -/
inductive LedgerOp where
  | stage (install : BaseInstall) (assets : List (UpdateAsset × String))
  | stageForCutover (install : BaseInstall) (assets : List (UpdateAsset × String))
  | abandon (version : ℕ)
  | releaseRules (install : BaseInstall) (rules : List IdentityMigration)
  | commit (version : ℕ) (pin : Option String)
  | migration (migration : IdentityMigration)
  | learn (op : LearningOp)

namespace Ledger

def perform (ledger : Ledger) : LedgerOp → Except BaseError Ledger
  | .stage install assets => ledger.stageBaseOn install assets
  | .stageForCutover install assets => do
    let staged ← ledger.stageForCutoverOn install assets
    .ok staged.1
  | .abandon version => do
    let abandoned ← ledger.abandonBaseOn version
    .ok abandoned.1
  | .releaseRules install rules => ledger.recordReleaseRulesOn install rules
  | .commit version pin => do
    let activated ← ledger.prepareActivation version pin
    .ok activated.1
  | .migration migration => do
    let recorded ← identifying (ledger.recordMigrationOn migration ledger.servedBaseVersion)
    .ok recorded.1
  | .learn op => do
    let learning ← storing (op.perform ledger.learning)
    .ok { ledger with learning := learning }

/-- A release that has rules records them beside the base it has just staged or finds serving. -/
def Admits (ledger : Ledger) : LedgerOp → Prop
  | .releaseRules install rules => rules ≠ [] ∧ (ledger.row install.version).isSome = true
  | _ => True

def Step (ledger : Ledger) (op : LedgerOp) (ledger' : Ledger) : Prop :=
  ledger.Admits op ∧ ledger.perform op = .ok ledger'

/-! ## The rows as entries -/

def entryOf (row : BaseRow) : Entry String :=
  ⟨row.version, row.digest, match row.state with
    | .staged => .candidate
    | .active => .holder
    | .retired => .former⟩

def entries (ledger : Ledger) : List (Entry String) := ledger.rows.map entryOf

/-- The entry of a row with the policy generation that it records. -/
def stampOf (row : BaseRow) : Entry String × Option String := (entryOf row, row.policyGeneration)

def stamps (ledger : Ledger) : List (Entry String × Option String) := ledger.rows.map stampOf

theorem entries_eq_stamps (ledger : Ledger) : ledger.entries = ledger.stamps.map Prod.fst := by
  unfold stamps
  rw [map_map]
  rfl

theorem mem_entries_of_stamps {s : Entry String × Option String} (h : s ∈ ledger.stamps) :
    s.1 ∈ ledger.entries := by
  rw [entries_eq_stamps]
  exact mem_map_of_mem h

@[simp] theorem entryOf_version (row : BaseRow) : (entryOf row).version = row.version := rfl

@[simp] theorem entryOf_content (row : BaseRow) : (entryOf row).content = row.digest := rfl

@[simp] theorem entryOf_candidate {row : BaseRow} :
    (entryOf row).standing = .candidate ↔ row.state = .staged := by
  unfold entryOf
  cases row.state <;> simp

@[simp] theorem entryOf_holder {row : BaseRow} :
    (entryOf row).standing = .holder ↔ row.state = .active := by
  unfold entryOf
  cases row.state <;> simp

@[simp] theorem entryOf_former {row : BaseRow} :
    (entryOf row).standing = .former ↔ row.state = .retired := by
  unfold entryOf
  cases row.state <;> simp

theorem mem_entries {e : Entry String} :
    e ∈ ledger.entries ↔ ∃ row ∈ ledger.rows, entryOf row = e := mem_map

theorem uniqueKeys_of_inOrder (h : InOrder ledger.entries) :
    UniqueKeys BaseRow.version ledger.rows := by
  have := h.keys
  unfold UniqueKeys entries at this
  rwa [map_map] at this

theorem inState_eq_some {state : UpdateState} {document : BaseDocument}
    (h : ledger.inState state = some document) :
    ∃ row ∈ ledger.rows, row.state = state ∧ row.version = document.version ∧
      row.digest = document.digest := by
  obtain ⟨row, hrow, rfl⟩ := Option.map_eq_some_iff.mp h
  exact ⟨row, mem_of_find?_eq_some hrow, by simpa using find?_some hrow, rfl, rfl⟩

theorem inState_eq_none {state : UpdateState} :
    ledger.inState state = none ↔ ∀ row ∈ ledger.rows, row.state ≠ state := by
  simp [inState]

theorem inState_active (h : InOrder ledger.entries) {row : BaseRow}
    (hrow : row ∈ ledger.rows) (hactive : row.state = .active) :
    ledger.inState .active = some ⟨row.version, row.digest⟩ := by
  cases hin : ledger.inState .active with
  | none => exact absurd hactive (inState_eq_none.mp hin row hrow)
  | some document =>
    obtain ⟨held, hheld, hstate, hversion, hdigest⟩ := inState_eq_some hin
    have heq := h.holder (entryOf held) (mem_entries.mpr ⟨held, hheld, rfl⟩) (entryOf row)
      (mem_entries.mpr ⟨row, hrow, rfl⟩) (by simpa using hstate) (by simpa using hactive)
    have hv : held.version = row.version := congrArg Entry.version heq
    have hd : held.digest = row.digest := congrArg Entry.content heq
    cases document
    simp_all

theorem inState_staged (h : InOrder ledger.entries) {row : BaseRow}
    (hrow : row ∈ ledger.rows) (hstaged : row.state = .staged) :
    ledger.inState .staged = some ⟨row.version, row.digest⟩ := by
  cases hin : ledger.inState .staged with
  | none => exact absurd hstaged (inState_eq_none.mp hin row hrow)
  | some document =>
    obtain ⟨held, hheld, hstate, hversion, hdigest⟩ := inState_eq_some hin
    have heq := h.candidate (entryOf held) (mem_entries.mpr ⟨held, hheld, rfl⟩) (entryOf row)
      (mem_entries.mpr ⟨row, hrow, rfl⟩) (by simpa using hstate) (by simpa using hstaged)
    have hv : held.version = row.version := congrArg Entry.version heq
    have hd : held.digest = row.digest := congrArg Entry.content heq
    cases document
    simp_all

/-! ## What the writes leave alone -/

/-- Only the metadata of rows, the blockers and the epochs differ. -/
structure Frame (ledger ledger' : Ledger) : Prop where
  stamps : ledger'.stamps = ledger.stamps
  receipts : ledger'.receipts = ledger.receipts
  migrations : ledger'.migrations = ledger.migrations
  learning : ledger'.learning = ledger.learning
  schemaGeneration : ledger'.schemaGeneration = ledger.schemaGeneration

theorem Frame.entries (h : Frame ledger ledger') : ledger'.entries = ledger.entries := by
  rw [entries_eq_stamps, h.stamps, ← entries_eq_stamps]

theorem Frame.refl (ledger : Ledger) : Frame ledger ledger := ⟨rfl, rfl, rfl, rfl, rfl⟩

theorem Frame.trans {a b c : Ledger} (h : Frame a b) (h' : Frame b c) : Frame a c :=
  ⟨h'.stamps.trans h.stamps, h'.receipts.trans h.receipts, h'.migrations.trans h.migrations,
    h'.learning.trans h.learning, h'.schemaGeneration.trans h.schemaGeneration⟩

theorem frame_updateRow (ledger : Ledger) (version : ℕ) {f : BaseRow → BaseRow}
    (hf : ∀ row, stampOf (f row) = stampOf row) : Frame ledger (ledger.updateRow version f) := by
  refine ⟨?_, rfl, rfl, rfl, rfl⟩
  unfold updateRow stamps
  rw [map_map]
  apply map_congr_left
  intro row _
  by_cases h : row.version = version <;> simp [h, hf]

theorem allocateSetEpoch_within (ledger : Ledger) :
    Within Fails (fun allocated => allocated.2 = ledger.nextEpoch + 1 ∧
      allocated.1 = { ledger with nextEpoch := ledger.nextEpoch + 1 } ∧
      ledger.nextEpoch + 1 < 2 ^ 63) ledger.allocateSetEpoch := by
  apply Within.guard
  intro hlt
  exact ⟨rfl, rfl, hlt⟩

theorem rotateEpoch_frame (ledger : Ledger) (version : ℕ) (held : Option ℕ)
    (sorted : List String) :
    Within Fails (Frame ledger) (ledger.rotateEpoch version held sorted) := by
  unfold rotateEpoch
  split
  · apply Within.bind (allocateSetEpoch_within ledger)
    rintro ⟨_, epoch⟩ ⟨rfl, rfl, -⟩
    exact Frame.trans (b := { ledger with nextEpoch := ledger.nextEpoch + 1 })
      ⟨rfl, rfl, rfl, rfl, rfl⟩ (frame_updateRow _ version fun _ => rfl)
  · exact .refl ledger

theorem replaceSet_frame (ledger : Ledger) (version : ℕ) (sorted : List String) :
    Within Fails (Frame ledger) (ledger.replaceSet version sorted) := by
  apply Within.guard
  intro _
  apply Within.guard
  intro _
  exact Frame.trans (b := { ledger with
    blockers := sorted.foldl (insertBlocker version)
      (ledger.blockers.filter (·.version ≠ version)) })
    ⟨rfl, rfl, rfl, rfl, rfl⟩ (frame_updateRow _ version fun _ => rfl)

theorem sealBlockersOn_frame (ledger : Ledger) (version : ℕ) (semantics : Option SemanticInputs) :
    Within Fails (Frame ledger) (ledger.sealBlockersOn version semantics) := by
  unfold sealBlockersOn
  dsimp only
  split
  · exact .refl ledger
  · apply Within.bind (rotateEpoch_frame ledger version _ _)
    intro _ hrotated
    exact (replaceSet_frame _ version _).imp fun _ hreplaced => hrotated.trans hreplaced

theorem storedU64_within (value : ℕ) :
    Within Fails (fun stored => stored = value ∧ value < 2 ^ 63)
      (storing (TaskStore.storedU64 value)) :=
  (Learning.storedU64_within value).mapError fun _ _ => trivial

/-! ## Each operation refines the succession -/

/-- The entry that the document of an install is staged as. -/
def nominee (install : BaseInstall) : Entry String := ⟨install.version, install.digest, .candidate⟩

/-- A stage leaves no other candidate, unless the version that it offers serves already. -/
def Nominates (ledger ledger' : Ledger) (install : BaseInstall) : Prop :=
  (∀ e ∈ ledger.entries, e.standing = .holder → e.version ≠ install.version) →
    ∀ s ∈ ledger'.stamps, s.1.standing = .candidate → s.1 = nominee install

/-- What staging does: it nominates the document, or finds it recorded. -/
structure Stages (ledger ledger' : Ledger) (install : BaseInstall) : Prop where
  run : ∃ changes, Run Succession.Step ledger.entries changes ledger'.entries ∧
    changes.count true = 0
  migrations : ledger'.migrations = ledger.migrations
  learning : ledger'.learning = ledger.learning
  schemaGeneration : ledger'.schemaGeneration = ledger.schemaGeneration
  kept : ∀ e ∈ ledger.entries, e ∈ ledger'.entries
  present : ∃ e ∈ ledger'.entries, e.version = install.version
  stamps : ∀ s ∈ ledger'.stamps, s ∈ ledger.stamps ∨ s = (nominee install, none)
  nominates : Nominates ledger ledger' install

theorem stageOffered_within {install : BaseInstall}
    (assets : List (UpdateAsset × String)) (hin : InOrder ledger.entries)
    (hnext : ∀ row ∈ ledger.rows, row.state = .active → install.version = row.version + 1) :
    Within Fails (fun ledger' => Stages ledger ledger' install)
      (ledger.stageOffered install assets) := by
  -- a base that is staged already is the one on offer, or the call is refused
  have hstaged : Within Fails
      (fun _ => ∀ e ∈ ledger.entries, e.standing = .candidate → e = nominee install)
      ((ledger.inState .staged).toList.forM fun staged =>
        require (staged.version = install.version ∧ staged.digest = install.digest)
          (BaseError.alreadyStaged staged.version)) := by
    cases hstaged : ledger.inState .staged with
    | none =>
      intro e he hcandidate
      obtain ⟨row, hrow, rfl⟩ := mem_entries.mp he
      exact absurd (entryOf_candidate.mp hcandidate) (inState_eq_none.mp hstaged row hrow)
    | some document =>
      apply Within.guard
      intro hmatch e he hcandidate
      obtain ⟨row, hrow, rfl⟩ := mem_entries.mp he
      have hstate := entryOf_candidate.mp hcandidate
      rw [inState_staged hin hrow hstate] at hstaged
      cases hstaged
      obtain ⟨hversion, hdigest⟩ := hmatch
      dsimp only at hversion hdigest
      unfold entryOf nominee
      rw [hstate, hversion, hdigest]
  apply Within.bind hstaged
  intro _ hstaged
  apply Within.bind (allocateSetEpoch_within ledger)
  rintro ⟨_, epoch⟩ ⟨rfl, rfl, -⟩
  have hinsert : Within Fails
      (fun inserted : Ledger => Stages ledger inserted install)
      (insertBase { ledger with nextEpoch := ledger.nextEpoch + 1 } install
        (ledger.nextEpoch + 1)) := by
    apply Within.bind (storedU64_within install.version)
    rintro _ ⟨rfl, -⟩
    cases hrow : rowAt BaseRow.version ledger.rows install.version with
    | some row =>
      have hkey : row.version = install.version := key_of_rowAt hrow
      simp only [Ledger.row, hrow, Option.isSome_some, if_true]
      exact ⟨⟨[], .nil _, rfl⟩, rfl, rfl, rfl, fun _ h => h,
        ⟨entryOf row, mem_entries.mpr ⟨row, mem_of_rowAt hrow, rfl⟩, hkey⟩, fun _ => .inl,
        fun _ s hs => hstaged _ (mem_entries_of_stamps hs)⟩
    | none =>
      simp only [Ledger.row, hrow, Option.isSome_none, Bool.false_eq_true, if_false]
      have hnew := rowAt_eq_none.mp hrow
      have hentries : entries { ledger with
          nextEpoch := ledger.nextEpoch + 1
          rows := ledger.rows ++ [⟨install.version, install.digest, .staged, none, some 0, none,
            none, some (ledger.nextEpoch + 1)⟩] } = ledger.entries ++ [nominee install] := by
        simp [entries, entryOf, nominee]
      have hstamps : ∀ s ∈ stamps { ledger with
          nextEpoch := ledger.nextEpoch + 1
          rows := ledger.rows ++ [⟨install.version, install.digest, .staged, none, some 0, none,
            none, some (ledger.nextEpoch + 1)⟩] },
          s ∈ ledger.stamps ∨ s = (nominee install, none) := by
        intro s hs
        obtain ⟨row, hrow, rfl⟩ := mem_map.mp hs
        rcases mem_append.mp hrow with hrow | hrow
        · exact .inl (mem_map_of_mem hrow)
        · rw [mem_singleton.mp hrow]
          exact .inr rfl
      refine ⟨⟨[false], .single ?_, rfl⟩, rfl, rfl, rfl, ?_, ?_, hstamps, ?_⟩
      · rw [hentries]
        refine .nominate ?_ ?_ ?_
        · intro e he hcandidate
          obtain ⟨row, hrow, rfl⟩ := mem_entries.mp he
          exact hnew row hrow (congrArg Entry.version (hstaged _ he hcandidate))
        · intro e he hholder
          obtain ⟨row, hrow, rfl⟩ := mem_entries.mp he
          exact hnext row hrow (entryOf_holder.mp hholder)
        · intro e he
          obtain ⟨row, hrow, rfl⟩ := mem_entries.mp he
          exact hnew row hrow
      · intro e he
        rw [hentries]
        exact mem_append_left _ he
      · rw [hentries]
        exact ⟨_, mem_append_right _ mem_cons_self, rfl⟩
      · intro _ s hs hcandidate
        rcases hstamps s hs with hs | rfl
        · exact hstaged _ (mem_entries_of_stamps hs) hcandidate
        · rfl
  apply Within.bind hinsert
  intro inserted hinserted
  apply Within.bind (sealBlockersOn_frame (inserted.writeReceipt install.version assets)
    install.version install.semantics)
  intro placed hplaced
  -- what is written after the insert leaves versions and states alone
  have hframe := hplaced.trans (frame_updateRow placed install.version
    (f := fun row => if row.setEpoch = none ∧ row.blockerCount.isSome then
      { row with setEpoch := some (ledger.nextEpoch + 1) } else row)
    fun row => by split <;> rfl)
  have hentries : (placed.backfillSetEpoch install.version (ledger.nextEpoch + 1)).entries =
      inserted.entries := hframe.entries
  refine ⟨?_, hframe.migrations.trans hinserted.migrations, hframe.learning.trans
    hinserted.learning, hframe.schemaGeneration.trans hinserted.schemaGeneration, ?_, ?_, ?_, ?_⟩
  · rw [hentries]
    exact hinserted.run
  · rw [hentries]
    exact hinserted.kept
  · rw [hentries]
    exact hinserted.present
  · intro s hs
    exact hinserted.stamps s (hframe.stamps ▸ hs)
  · intro hother s hs
    exact hinserted.nominates hother s (hframe.stamps ▸ hs)

theorem stageBaseOn_within {install : BaseInstall}
    (assets : List (UpdateAsset × String)) (hin : InOrder ledger.entries) :
    Within Fails (fun ledger' => Stages ledger ledger' install)
      (ledger.stageBaseOn install assets) := by
  unfold stageBaseOn
  split
  · rename_i hnone
    apply stageOffered_within assets hin
    intro row hrow hactive
    exact absurd hactive (inState_eq_none.mp hnone row hrow)
  · rename_i active hactive
    split
    · trivial
    · split
      · rename_i hversion
        apply skip
        intro _
        obtain ⟨row, hrow, hactive', hsame, -⟩ := inState_eq_some hactive
        have hmem := mem_entries.mpr ⟨row, hrow, rfl⟩
        have hserves := hsame.trans hversion.symm
        exact ⟨⟨[], .nil _, rfl⟩, rfl, rfl, rfl, fun _ h => h, ⟨entryOf row, hmem, hserves⟩,
          fun _ => .inl, fun hother => absurd hserves (hother _ hmem (entryOf_holder.mpr hactive'))⟩
      · split
        · trivial
        · rename_i hnext
          apply stageOffered_within assets hin
          intro row hrow hstate
          rw [inState_active hin hrow hstate] at hactive
          cases hactive
          exact not_not.mp hnext

/-- What abandoning does: the candidate of the version leaves, and its rules with it. -/
structure Abandons (ledger ledger' : Ledger) (version : ℕ) : Prop where
  stamps : ledger'.stamps ⊆ ledger.stamps
  entries : ledger'.entries = ledger.entries.filter (notWithdrawn version)
  migrations : ledger'.migrations = ledger.migrations.filter (·.baseVersion ≠ version)
  learning : ledger'.learning = ledger.learning
  schemaGeneration : ledger'.schemaGeneration = ledger.schemaGeneration

theorem abandonBaseOn_within (ledger : Ledger) (version : ℕ) :
    Within Fails (fun abandoned => Abandons ledger abandoned.1 version)
      (ledger.abandonBaseOn version) := by
  apply Within.look
  intro _ _
  refine ⟨map_subset _ (filter_subset_self _), ?_, rfl, rfl, rfl⟩
  unfold Ledger.entries
  rw [filter_map]
  congr 1
  apply filter_congr
  intro row _
  simp [notWithdrawn]

/-- The rules that a ledger holds name a base that it holds, or the shipped one. -/
def Covered (ledger : Ledger) : Prop :=
  ∀ m ∈ ledger.migrations, m.baseVersion = SHIPPED_BASE_VERSION ∨
    ∃ e ∈ ledger.entries, e.version = m.baseVersion

theorem Covered.of_kept (h : ledger.Covered) (hmigrations : ledger'.migrations = ledger.migrations)
    (hkept : ∀ e ∈ ledger.entries, e ∈ ledger'.entries) : ledger'.Covered := by
  intro m hm
  rcases h m (hmigrations ▸ hm) with hshipped | ⟨e, he, hversion⟩
  · exact .inl hshipped
  · exact .inr ⟨e, hkept e he, hversion⟩

theorem Covered.abandon {version : ℕ} (h : ledger.Covered)
    (habandon : Abandons ledger ledger' version) : ledger'.Covered := by
  intro m hm
  rw [habandon.migrations, mem_filter] at hm
  rcases h m hm.1 with hshipped | ⟨e, he, hversion⟩
  · exact .inl hshipped
  · right
    refine ⟨e, ?_, hversion⟩
    rw [habandon.entries, mem_filter]
    have hne : e.version ≠ version := by
      rw [hversion]
      simpa using hm.2
    exact ⟨he, by simp [notWithdrawn, hne]⟩

/-- What a whole operation does to the bases, to the rules and to the deltas. -/
structure Effect (ledger ledger' : Ledger) (commits : ℕ)
    (written : Entry String × Option String → Prop)
    (learned : LearningTables → LearningTables → Prop) : Prop where
  stamps : ∀ s ∈ ledger'.stamps, s ∈ ledger.stamps ∨ written s
  run : ∃ changes, Run Succession.Step ledger.entries changes ledger'.entries ∧
    changes.count true = commits
  covered : ledger.Covered → ledger'.Covered
  learning : learned ledger.learning ledger'.learning
  schemaGeneration : ledger'.schemaGeneration = ledger.schemaGeneration

/-- The deltas stay as they are. -/
def Unlearned (tables tables' : LearningTables) : Prop := tables' = tables

/-- The deltas are rebound by the rules that a base was released with. -/
def Rebound (version : ℕ) (migrations : List IdentityMigration)
    (tables tables' : LearningTables) : Prop :=
  ∃ rules out, rules.baseVersion = version ∧ rules.migrations = migrations ∧
    rebindLearningIdentities rules tables = .ok (tables', out)

theorem Stages.effect {install : BaseInstall} (h : Stages ledger ledger' install) :
    Effect ledger ledger' 0 (· = (nominee install, none)) Unlearned :=
  ⟨h.stamps, h.run, fun hcovered => hcovered.of_kept h.migrations h.kept, h.learning,
    h.schemaGeneration⟩

theorem Abandons.run {version : ℕ} (h : Abandons ledger ledger' version) :
    Run Succession.Step ledger.entries [false] ledger'.entries := h.entries ▸ .single .withdraw

theorem Abandons.effect {version : ℕ} {written : Entry String × Option String → Prop}
    (h : Abandons ledger ledger' version) : Effect ledger ledger' 0 written Unlearned :=
  ⟨fun _ hs => .inl (h.stamps hs), ⟨_, h.run, rfl⟩,
    fun hcovered => hcovered.abandon h, h.learning, h.schemaGeneration⟩

theorem Effect.trans {a b c : Ledger} {m n : ℕ} {written : Entry String × Option String → Prop}
    (h : Effect a b m written Unlearned) (h' : Effect b c n written Unlearned) :
    Effect a c (m + n) written Unlearned := by
  obtain ⟨changes, hrun, hcount⟩ := h.run
  obtain ⟨changes', hrun', hcount'⟩ := h'.run
  refine ⟨fun s hs => (h'.stamps s hs).elim (h.stamps s) .inr,
    ⟨changes ++ changes', hrun.append hrun', ?_⟩, fun hc => h'.covered (h.covered hc),
    h'.learning.trans h.learning, h'.schemaGeneration.trans h.schemaGeneration⟩
  rw [count_append, hcount, hcount']

theorem stageForCutoverOn_within {install : BaseInstall}
    (assets : List (UpdateAsset × String)) (hin : InOrder ledger.entries) :
    Within Fails (fun staged =>
        Effect ledger staged.1 0 (· = (nominee install, none)) Unlearned ∧
        (∃ e ∈ staged.1.entries, e.version = install.version) ∧ Nominates ledger staged.1 install)
      (ledger.stageForCutoverOn install assets) := by
  have hstage := @stageBaseOn_within _ install assets hin
  unfold stageForCutoverOn
  split
  · rename_i hok
    have := hstage.of_ok hok
    exact ⟨this.effect, this.present, this.nominates⟩
  · split
    · apply Within.bind (abandonBaseOn_within ledger _)
      intro abandoned habandoned
      apply Within.bind (stageBaseOn_within assets (hin.run habandoned.run))
      intro staged hstaged
      refine ⟨habandoned.effect.trans hstaged.effect, hstaged.present, ?_⟩
      intro hother
      apply hstaged.nominates
      intro e he
      rw [habandoned.entries] at he
      exact hother e (mem_of_mem_filter he)
    · trivial
  · trivial

theorem recordMigrationOn_within (ledger : Ledger) (migration : IdentityMigration) (version : ℕ) :
    Within Fails (fun recorded => migration.baseVersion = version ∧
        recorded.1.stamps = ledger.stamps ∧ recorded.1.learning = ledger.learning ∧
        recorded.1.schemaGeneration = ledger.schemaGeneration ∧
        recorded.1.migrations ⊆ migration :: ledger.migrations)
      (ledger.recordMigrationOn migration version) := by
  apply Within.guard
  intro hversion
  apply skip
  intro _
  apply skip
  intro _
  apply skip
  intro _
  apply skip
  intro _
  refine ⟨hversion, ?_⟩
  unfold insertMigration
  split
  · exact ⟨rfl, rfl, rfl, fun m hm => mem_cons_of_mem _ hm⟩
  · refine ⟨rfl, rfl, rfl, ?_⟩
    intro m hm
    rcases mem_append.mp hm with hm | hm
    · exact mem_cons_of_mem _ hm
    · rw [mem_singleton.mp hm]
      exact mem_cons_self

theorem effect_of_recorded {migration : IdentityMigration}
    {written : Entry String × Option String → Prop}
    {version : ℕ} (hbase : version = SHIPPED_BASE_VERSION ∨
      ∃ e ∈ ledger.entries, e.version = version)
    (h : migration.baseVersion = version ∧ ledger'.stamps = ledger.stamps ∧
      ledger'.learning = ledger.learning ∧
      ledger'.schemaGeneration = ledger.schemaGeneration ∧
      ledger'.migrations ⊆ migration :: ledger.migrations) :
    Effect ledger ledger' 0 written Unlearned := by
  obtain ⟨rfl, hstamps, hlearning, hschema, hmigrations⟩ := h
  have hentries : ledger'.entries = ledger.entries := by
    rw [entries_eq_stamps, hstamps, ← entries_eq_stamps]
  refine ⟨fun _ hs => .inl (hstamps ▸ hs), ⟨[], hentries ▸ .nil _, rfl⟩, ?_, hlearning, hschema⟩
  intro hcovered m hm
  rw [hentries]
  rcases mem_cons.mp (hmigrations hm) with rfl | hm
  · exact hbase
  · exact hcovered m hm

theorem recordReleaseRulesOn_within (install : BaseInstall)
    (rules : List IdentityMigration) (hrow : ∃ e ∈ ledger.entries, e.version = install.version) :
    Within Fails (fun ledger' => Effect ledger ledger' 0 (fun _ => False) Unlearned)
      (ledger.recordReleaseRulesOn install rules) := by
  have hloop := @Within.foldlM _ _ _ (fun _ : BaseError => True) (fun ledger rule => do
      let recorded ← identifying (recordMigrationOn ledger rule install.version)
      .ok recorded.1) rules ledger
    (fun _ recorded => Effect ledger recorded 0 (fun _ => False) Unlearned ∧
      recorded.entries = ledger.entries)
    (by
      rintro _ rule recorded - ⟨heffect, hentries⟩
      apply Within.bind ((recordMigrationOn_within recorded rule install.version).mapError
        fun _ _ => trivial)
      intro next hnext
      refine ⟨heffect.trans (effect_of_recorded (.inr ?_) hnext), ?_⟩
      · rwa [hentries]
      · rw [entries_eq_stamps, hnext.2.1, ← entries_eq_stamps, hentries])
    ⟨⟨fun _ => .inl, ⟨[], .nil _, rfl⟩, fun h => h, rfl, rfl⟩, rfl⟩
  apply Within.bind hloop
  rintro recorded ⟨heffect, -⟩
  refine (sealBlockersOn_frame recorded install.version install.semantics).imp ?_
  intro placed hplaced
  refine heffect.trans ⟨fun _ hs => .inl (hplaced.stamps ▸ hs),
    ⟨[], hplaced.entries ▸ .nil _, rfl⟩, ?_, hplaced.learning, hplaced.schemaGeneration⟩
  intro hcovered
  exact hcovered.of_kept hplaced.migrations fun e he => hplaced.entries ▸ he

/-! ### Activation -/

theorem entries_activated (ledger : Ledger) (version generation : ℕ) (policy : String) :
    ((ledger.retireActiveBase version).activateBase version generation policy).entries =
      ledger.entries.map (succeed version) := by
  unfold entries retireActiveBase activateBase
  rw [map_map, map_map, map_map]
  apply map_congr_left
  intro row _
  by_cases hversion : row.version = version <;> cases hstate : row.state <;>
    simp [entryOf, succeed, hversion, hstate]

theorem expired_former (hin : InOrder ledger.entries) (keep : ℕ)
    {e : Entry String} (he : e ∈ ledger.entries) (hmem : e.version ∈ ledger.expired keep) :
    e.standing = .former := by
  have := mem_mergeSort.mp (mem_of_mem_drop hmem)
  obtain ⟨held, hheld, hversion⟩ := mem_map.mp this
  rw [mem_filter] at hheld
  have heq := inj_on_of_nodup_map hin.keys (mem_entries.mpr ⟨held, hheld.1, rfl⟩) he hversion
  rw [← heq, entryOf_former]
  simpa using hheld.2

theorem pruneBaseVersions_effect (hin : InOrder ledger.entries) (keep : ℕ) :
    Effect ledger (ledger.pruneBaseVersions keep) 0 (fun _ => False) Unlearned := by
  have hentries : (ledger.pruneBaseVersions keep).entries =
      ledger.entries.filter fun e => !decide (e.version ∈ ledger.expired keep) := by
    unfold pruneBaseVersions entries
    rw [filter_map]
    congr 1
    apply filter_congr
    intro row _
    by_cases hdropped : row.version ∈ ledger.expired keep <;> simp [hdropped]
  refine ⟨fun _ hs => .inl (map_subset _ (filter_subset_self _) hs), ⟨[false], ?_, rfl⟩, ?_,
    rfl, rfl⟩
  · rw [hentries]
    refine .single (@Succession.Step.forget _ _ (fun v => decide (v ∈ ledger.expired keep)) ?_)
    intro e he hdropped
    exact expired_former hin keep he (by simpa using hdropped)
  · intro hcovered m hm
    unfold pruneBaseVersions at hm
    rw [mem_filter] at hm
    rcases hcovered m hm.1 with hshipped | ⟨e, he, hversion⟩
    · exact .inl hshipped
    · right
      refine ⟨e, ?_, hversion⟩
      rw [hentries, mem_filter, hversion]
      simpa using ⟨he, of_decide_eq_true hm.2⟩

/-- The tables once a staged version serves, with its deltas rebound and old bases pruned. -/
def activated (ledger : Ledger) (version : ℕ) (policy : String) (learning : LearningTables) :
    Ledger :=
  { (ledger.retireActiveBase version).activateBase version ledger.schemaGeneration policy with
    learning := learning }

/-- An activation that succeeds had a staged row, a pin, and rules that place every binding. -/
theorem prepareActivation_inv (hin : InOrder ledger.entries) (version : ℕ) (pin : Option String) :
    Within Fails (fun done => ∃ policy learning, pin = some policy ∧
        policyGenerationShape policy = true ∧
        (∃ row ∈ ledger.rows, row.version = version ∧ row.state = .staged) ∧
        Rebound version (ledger.migrationsFor version) ledger.learning learning ∧
        done.1 = (ledger.activated version policy learning).pruneBaseVersions
          BASE_VERSION_RETENTION)
      (ledger.prepareActivation version pin) := by
  apply skip
  intro _
  apply Within.look
  rintro policy rfl
  apply Within.guard
  intro hshape
  apply skip
  intro _
  apply skip
  intro _
  apply Within.guard
  rintro ⟨row, hrow, hversion, hstaged⟩
  have hcandidate : ∃ row ∈ ledger.rows, row.version = version ∧ row.state = .staged := by
    obtain ⟨held, hheld, rfl⟩ := mem_map.mp hrow
    refine ⟨held, hheld, ?_⟩
    split at hstaged
    · cases hstaged
    · rename_i hnot
      rw [if_neg hnot] at hversion
      exact ⟨hversion, hstaged⟩
  obtain ⟨held, hheld, hv, hstate⟩ := hcandidate
  have hpromote : Succession.Step ledger.entries true (ledger.entries.map (succeed version)) :=
    .promote ⟨entryOf held, mem_entries.mpr ⟨held, hheld, rfl⟩, hv, entryOf_candidate.mpr hstate⟩
  have hserved : ((ledger.retireActiveBase version).activateBase version
      ledger.schemaGeneration policy).servedBaseVersion = version := by
    have hentries := entries_activated ledger version ledger.schemaGeneration policy
    have hmem : succeed version (entryOf held) ∈ ((ledger.retireActiveBase version).activateBase
        version ledger.schemaGeneration policy).entries := by
      rw [hentries]
      exact mem_map_of_mem (mem_entries.mpr ⟨held, hheld, rfl⟩)
    rw [succeed_of_candidate hv (entryOf_candidate.mpr hstate)] at hmem
    obtain ⟨served, hserved, hentry⟩ := mem_entries.mp hmem
    have hactive : served.state = .active := by
      rw [← entryOf_holder, hentry]
    have hv' : served.version = held.version := congrArg Entry.version hentry
    unfold servedBaseVersion
    rw [inState_active (hentries ▸ hin.step hpromote) hserved hactive]
    exact hv'.trans hv
  have hrebind : Within Fails
      (fun done : Ledger × IdentityRebind => ∃ learning,
        Rebound version (ledger.migrationsFor version) ledger.learning learning ∧
        done.1 = ledger.activated version policy learning)
      (identifying ((ledger.retireActiveBase version).activateBase version
        ledger.schemaGeneration policy).rebindLearningIdentitiesOn) := by
    apply Within.mapError (E := fun _ => True) _ fun _ _ => trivial
    unfold rebindLearningIdentitiesOn
    rw [hserved]
    change Within _ _ (IdentityRules.new version (ledger.migrationsFor version) >>= _)
    cases hrules : IdentityRules.new version (ledger.migrationsFor version) with
    | error e => trivial
    | ok rules =>
      obtain ⟨hbase, hset⟩ := IdentityRules.new_ok hrules
      change Within _ _ (rebindLearningIdentities rules ledger.learning >>= _)
      cases hdone : rebindLearningIdentities rules ledger.learning with
      | error e => trivial
      | ok done => exact ⟨done.1, ⟨rules, done.2, hbase, hset, hdone⟩, rfl⟩
  apply Within.bind hrebind
  rintro done ⟨learning, hrebound, hdone⟩
  exact ⟨policy, learning, rfl, hshape, ⟨held, hheld, hv, hstate⟩, hrebound, by rw [hdone]⟩

/-- What an activation writes: the candidate as the holder under the pin, and the former holder. -/
def Activates (ledger : Ledger) (pin : Option String) (s : Entry String × Option String) : Prop :=
  s.1.standing = .former ∨ ∃ r ∈ ledger.stamps, r.1.standing = .candidate ∧
    ∃ policy ∈ pin, s = ({ r.1 with standing := .holder }, some policy)

theorem stamps_activated (ledger : Ledger) (version : ℕ) (policy : String)
    (learning : LearningTables) :
    ∀ s ∈ (ledger.activated version policy learning).stamps,
      s ∈ ledger.stamps ∨ ledger.Activates (some policy) s := by
  intro s hs
  unfold stamps activated activateBase retireActiveBase at hs
  rw [map_map, map_map] at hs
  obtain ⟨row, hrow, rfl⟩ := mem_map.mp hs
  have hmem : stampOf row ∈ ledger.stamps := mem_map_of_mem hrow
  by_cases hversion : row.version = version
  · cases hstate : row.state with
    | staged =>
      refine .inr (.inr ⟨stampOf row, hmem, entryOf_candidate.mpr hstate, policy, rfl, ?_⟩)
      simp [stampOf, entryOf, hversion, hstate]
    | active => exact .inl (by simpa [hversion, hstate] using hmem)
    | retired => exact .inl (by simpa [hversion, hstate] using hmem)
  · cases hstate : row.state with
    | staged => exact .inl (by simpa [hversion, hstate] using hmem)
    | active => exact .inr (.inl (by simp [stampOf, entryOf, hversion, hstate]))
    | retired => exact .inl (by simpa [hversion, hstate] using hmem)

theorem prepareActivation_within (hin : InOrder ledger.entries) (version : ℕ)
    (pin : Option String) :
    Within Fails
      (fun done => Effect ledger done.1 1 (ledger.Activates pin)
        (Rebound version (ledger.migrationsFor version)))
      (ledger.prepareActivation version pin) := by
  refine (prepareActivation_inv hin version pin).imp ?_
  rintro done ⟨policy, learning, rfl, -, ⟨row, hrow, hversion, hstaged⟩, hrebound, hdone⟩
  have hentries : (ledger.activated version policy learning).entries =
      ledger.entries.map (succeed version) :=
    entries_activated ledger version ledger.schemaGeneration policy
  have hpromote : Succession.Step ledger.entries true
      (ledger.activated version policy learning).entries := by
    rw [hentries]
    exact .promote ⟨entryOf row, mem_entries.mpr ⟨row, hrow, rfl⟩, hversion,
      entryOf_candidate.mpr hstaged⟩
  have hprune := pruneBaseVersions_effect (hin.step hpromote) BASE_VERSION_RETENTION
  obtain ⟨changes, hrun, hcount⟩ := hprune.run
  rw [hdone]
  refine ⟨fun s hs => stamps_activated ledger version policy learning s
      ((hprune.stamps s hs).resolve_right id),
    ⟨true :: changes, .cons hpromote hrun, by simp [hcount]⟩, ?_, hrebound, rfl⟩
  intro hcovered
  apply hprune.covered
  intro m hm
  rcases hcovered m hm with hshipped | ⟨e, he, hv⟩
  · exact .inl hshipped
  · right
    rw [hentries]
    exact ⟨succeed version e, mem_map_of_mem he, (succeed_version version e).trans hv⟩

end Ledger

def LedgerOp.commits : LedgerOp → ℕ
  | .commit .. => 1
  | _ => 0

/-- What an operation on a ledger may write beside the rows that stay. -/
def LedgerOp.written (ledger : Ledger) : LedgerOp → Entry String × Option String → Prop
  | .stage install _ | .stageForCutover install _ => (· = (Ledger.nominee install, none))
  | .commit _ pin => ledger.Activates pin
  | _ => fun _ => False

/-- What an operation on a ledger does to the deltas. -/
def LedgerOp.learned (ledger : Ledger) : LedgerOp → LearningTables → LearningTables → Prop
  | .commit version _ => Ledger.Rebound version (ledger.migrationsFor version)
  | .learn op => fun tables tables' => op.perform tables = .ok tables'
  | _ => Ledger.Unlearned

namespace Ledger

theorem effect_of_step {op : LedgerOp} (hin : InOrder ledger.entries)
    (hstep : ledger.Step op ledger') : Effect ledger ledger' op.commits (op.written ledger)
    (op.learned ledger) := by
  obtain ⟨hadmits, hok⟩ := hstep
  have hwithin : Within Fails
      (fun ledger' => Effect ledger ledger' op.commits (op.written ledger) (op.learned ledger))
      (ledger.perform op) := by
    cases op with
    | stage install assets =>
      exact (stageBaseOn_within assets hin).imp fun _ hstages => hstages.effect
    | stageForCutover install assets =>
      apply Within.bind (stageForCutoverOn_within assets hin)
      intro staged hstaged
      exact hstaged.1
    | abandon version =>
      apply Within.bind (abandonBaseOn_within ledger version)
      intro abandoned habandoned
      exact habandoned.effect
    | releaseRules install rules =>
      obtain ⟨row, hrow⟩ := Option.isSome_iff_exists.mp hadmits.2
      have hkey : row.version = install.version := key_of_rowAt hrow
      exact (recordReleaseRulesOn_within install rules
        ⟨entryOf row, mem_entries.mpr ⟨row, mem_of_rowAt hrow, rfl⟩, hkey⟩)
    | commit version pin =>
      apply Within.bind (prepareActivation_within hin version pin)
      intro activated hactivated
      exact hactivated
    | migration migration =>
      apply Within.bind ((recordMigrationOn_within ledger migration
        ledger.servedBaseVersion).mapError fun _ _ => trivial)
      intro recorded hrecorded
      refine effect_of_recorded ?_ hrecorded
      unfold servedBaseVersion
      cases hactive : ledger.inState .active with
      | none => exact .inl rfl
      | some document =>
        obtain ⟨row, hrow, -, hversion, -⟩ := inState_eq_some hactive
        exact .inr ⟨entryOf row, mem_entries.mpr ⟨row, hrow, rfl⟩, hversion⟩
    | learn op =>
      cases hlearn : op.perform ledger.learning with
      | error e =>
        simp only [perform, hlearn]
        trivial
      | ok tables =>
        simp only [perform, hlearn]
        exact ⟨fun _ => .inl, ⟨[], .nil _, rfl⟩, fun hcovered => hcovered, hlearn, rfl⟩
  exact hwithin.of_ok hok

theorem inOrder_fresh (schemaGeneration : ℕ) : InOrder (fresh schemaGeneration).entries := .nil

theorem inOrder_of_step {op : LedgerOp} (hin : InOrder ledger.entries)
    (hstep : ledger.Step op ledger') : InOrder ledger'.entries := by
  obtain ⟨changes, hrun, -⟩ := (effect_of_step hin hstep).run
  exact hin.run hrun

end Ledger

end Rivect.Base
