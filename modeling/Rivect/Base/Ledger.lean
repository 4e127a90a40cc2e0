import Mathlib.Data.List.Sort
import Mathlib.Data.String.Basic
import Rivect.Base.Address
import Rivect.Base.Rebind
import Rivect.Config.Assign

/-! # The base ledger

The tables of `src/state/sql/learning.sql` that record the product base, with the statements of
one transaction each: staging, abandoning, recording rules and activating. A call either answers
the tables that its transaction would commit or the refusal that rolls it back.
-/

namespace Rivect.Base

open Lib Learning Config

/-- The base that a store serves before it installs one. -/
def SHIPPED_BASE_VERSION : ℕ := 2

def BASE_VERSION_RETENTION : ℕ := 4

inductive UpdateState where
  | staged
  | active
  | retired
deriving DecidableEq

inductive UpdatePhase where
  | checked
  | activated
  | rolledBack
deriving DecidableEq

inductive UpdateAsset where
  | configFile
  | sqliteRows
  | workspaceDirectories
  | indexRows
deriving DecidableEq

def UPDATE_ASSETS : List UpdateAsset :=
  [.configFile, .sqliteRows, .workspaceDirectories, .indexRows]

inductive UpdatePolicy where
  | mergeByMeaning
  | preserve
  | rebuild
deriving DecidableEq

def UpdateAsset.policy : UpdateAsset → UpdatePolicy
  | .configFile => .mergeByMeaning
  | .sqliteRows | .workspaceDirectories => .preserve
  | .indexRows => .rebuild

structure BaseDocument where
  version : ℕ
  digest : String
deriving DecidableEq

/-! ## What an install offers -/

/-- The fields that a purpose row states, in the order of the schema. -/
def statedFields (row : PurposeDef) : List String :=
  (if row.group.isSome then ["group"] else []) ++ (if row.model.isSome then ["model"] else []) ++
    (if row.effort.isSome then ["effort"] else []) ++
    (if row.fallback.isSome then ["fallback"] else []) ++
    (if row.pool.isSome then ["pool"] else []) ++ (if row.eligible.isSome then ["eligible"] else [])

/-- The purposes that a base declares and the rows of the user's own layer, keyed by name. -/
structure SemanticInputs where
  basePurposes : List String
  userRecords : List (String × PurposeDef)
  keys : (userRecords.map Prod.fst).Nodup

structure BaseInstall where
  version : ℕ
  digest : String
  configPath : String
  workspaceRoot : String
  policyGeneration : String
  semantics : Option SemanticInputs

inductive BaseError where
  | store (source : StoreError)
  | skippedVersion (offered recorded : ℕ)
  | newerRecorded (offered recorded : ℕ)
  | documentChanged (version : ℕ)
  | alreadyStaged (version : ℕ)
  | notStaged (version : ℕ)
  | receiptMissing (version : ℕ)
  | identity (source : IdentityError)
  | document (source : ConfigError)
  | blockerSetMoved (version requested stored : ℕ)
  | blockerSetGone (version requested : ℕ)
  | invalidPage (detail : String)
  | rollbackFailed (version : ℕ)
  | outcomeUnread (version : ℕ)
deriving DecidableEq

/-! ## The tables -/

structure BaseRow where
  version : ℕ
  digest : String
  state : UpdateState
  phase : Option UpdatePhase
  blockerCount : Option ℕ
  schemaGeneration : Option ℕ
  policyGeneration : Option String
  setEpoch : Option ℕ
deriving DecidableEq

structure ReceiptAsset where
  version : ℕ
  asset : UpdateAsset
  location : String
  policy : UpdatePolicy
deriving DecidableEq

structure Blocker where
  version : ℕ
  address : String
deriving DecidableEq

structure Ledger where
  rows : List BaseRow
  receipts : List ReceiptAsset
  blockers : List Blocker
  nextEpoch : ℕ
  migrations : List IdentityMigration
  learning : LearningTables
  schemaGeneration : ℕ

def storing {α : Type} (x : Except StoreError α) : Except BaseError α := x.mapError .store

def identifying {α : Type} (x : Except IdentityError α) : Except BaseError α :=
  x.mapError .identity

namespace Ledger

def fresh (schemaGeneration : ℕ) : Ledger := ⟨[], [], [], 0, [], .fresh, schemaGeneration⟩

def row (ledger : Ledger) (version : ℕ) : Option BaseRow :=
  rowAt BaseRow.version ledger.rows version

/-- The base that one state holds. -/
def inState (ledger : Ledger) (state : UpdateState) : Option BaseDocument :=
  (ledger.rows.find? (·.state = state)).map fun row => ⟨row.version, row.digest⟩

def migrationsFor (ledger : Ledger) (version : ℕ) : List IdentityMigration :=
  ledger.migrations.filter (·.baseVersion = version)

/-- The addresses of one base in page order. -/
def addresses (ledger : Ledger) (version : ℕ) : List String :=
  ((ledger.blockers.filter (·.version = version)).map Blocker.address).mergeSort (· ≤ ·)

def servedBaseVersion (ledger : Ledger) : ℕ :=
  ((ledger.inState .active).map BaseDocument.version).getD SHIPPED_BASE_VERSION

def updateRow (ledger : Ledger) (version : ℕ) (f : BaseRow → BaseRow) : Ledger :=
  { ledger with rows := ledger.rows.map fun row => if row.version = version then f row else row }

/-! ## Sealing a blocker set -/

def allocateSetEpoch (ledger : Ledger) : Except BaseError (Ledger × ℕ) := do
  require (ledger.nextEpoch + 1 < 2 ^ 63) (.store .storage)
  .ok ({ ledger with nextEpoch := ledger.nextEpoch + 1 }, ledger.nextEpoch + 1)

/-- The fields of the user's records that no rule of the release places. -/
def unplacedRecords (ledger : Ledger) (version : ℕ) (semantics : SemanticInputs) : List String :=
  (semantics.userRecords.filter fun record =>
    !(record.1 ∈ semantics.basePurposes || (ledger.migrationsFor version).any fun rule =>
      rule.kind = .role && (rule.oldId = record.1 || rule.newId = record.1))).flatMap fun record =>
    (statedFields record.2).map fun field =>
      blockerAddress "config" (purposeRecordPointer record.1) ("/" ++ field)

/-- The stored bindings whose purpose the base does not declare. -/
def unplacedBindings (ledger : Ledger) (semantics : SemanticInputs) : List String :=
  (ledger.learning.deltas.filter fun record =>
    match record.change.payload, record.change.condition with
    | .instruction _, some (.purpose purpose) => purpose ∉ semantics.basePurposes
    | _, _ => false).map fun record => blockerAddress "learning" record.deltaId "condition_json"

def blocklessAddresses (ledger : Ledger) (version : ℕ) : Option SemanticInputs → List String
  | none => []
  | some semantics =>
    ledger.unplacedRecords version semantics ++ ledger.unplacedBindings semantics

/-- A set that replaces another takes a new epoch. -/
def rotateEpoch (ledger : Ledger) (version : ℕ) (held : Option ℕ) (sorted : List String) :
    Except BaseError Ledger :=
  if held.isSome ∧ ledger.addresses version ≠ sorted then do
    let allocated ← ledger.allocateSetEpoch
    .ok (allocated.1.updateRow version fun row => { row with setEpoch := some allocated.2 })
  else .ok ledger

def insertBlocker (version : ℕ) (blockers : List Blocker) (address : String) : List Blocker :=
  if ⟨version, address⟩ ∈ blockers then blockers else blockers ++ [⟨version, address⟩]

/-- The rows of a set and its count; a blocker row needs its base. -/
def replaceSet (ledger : Ledger) (version : ℕ) (sorted : List String) :
    Except BaseError Ledger := do
  require (sorted = [] ∨ (ledger.row version).isSome = true) (.store .storage)
  require (sorted.length < 2 ^ 63) (.store .storage)
  .ok ({ ledger with
    blockers := sorted.foldl (insertBlocker version)
      (ledger.blockers.filter (·.version ≠ version)) }.updateRow version fun row =>
        { row with blockerCount := some sorted.length })

def sealBlockersOn (ledger : Ledger) (version : ℕ) (semantics : Option SemanticInputs) :
    Except BaseError Ledger :=
  let recorded := ledger.row version
  let stagingHere := (ledger.inState .staged).any (·.version = version)
  if recorded.any (fun row => row.setEpoch = none ∧ row.blockerCount = none) ∧
      stagingHere = false then
    .ok ledger
  else do
    let sorted := (ledger.blocklessAddresses version semantics).mergeSort (· ≤ ·)
    let ledger ← ledger.rotateEpoch version (recorded.bind BaseRow.setEpoch) sorted
    ledger.replaceSet version sorted

/-! ## Staging and abandoning -/

def recordedDocumentMatches (recorded : BaseDocument) (install : BaseInstall) :
    Except BaseError Unit :=
  require (recorded.digest = install.digest) (.documentChanged install.version)

def insertBase (ledger : Ledger) (install : BaseInstall) (epoch : ℕ) : Except BaseError Ledger := do
  let version ← storing (TaskStore.storedU64 install.version)
  if (ledger.row version).isSome then .ok ledger
  else
    .ok { ledger with
      rows := ledger.rows ++
        [⟨version, install.digest, .staged, none, some 0, none, none, some epoch⟩] }

/-- An asset already classified takes the new location in its place. -/
def classify (version : ℕ) (receipts : List ReceiptAsset) (asset : UpdateAsset × String) :
    List ReceiptAsset :=
  if receipts.any fun r => r.version = version ∧ r.asset = asset.1 then
    receipts.map fun r =>
      if r.version = version ∧ r.asset = asset.1 then
        { r with location := asset.2, policy := asset.1.policy }
      else r
  else receipts ++ [⟨version, asset.1, asset.2, asset.1.policy⟩]

def writeReceipt (ledger : Ledger) (version : ℕ) (assets : List (UpdateAsset × String)) : Ledger :=
  { ledger with receipts := assets.foldl (classify version) ledger.receipts }

/-- An epoch for a row that records a set without one. -/
def backfillSetEpoch (ledger : Ledger) (version epoch : ℕ) : Ledger :=
  ledger.updateRow version fun row =>
    if row.setEpoch = none ∧ row.blockerCount.isSome then { row with setEpoch := some epoch }
    else row

/-- The writes of a stage that no active base refuses. -/
def stageOffered (ledger : Ledger) (install : BaseInstall)
    (assets : List (UpdateAsset × String)) : Except BaseError Ledger := do
  (ledger.inState .staged).toList.forM fun staged =>
    require (staged.version = install.version ∧ staged.digest = install.digest)
      (.alreadyStaged staged.version)
  let allocated ← ledger.allocateSetEpoch
  let inserted ← allocated.1.insertBase install allocated.2
  let placed ← (inserted.writeReceipt install.version assets).sealBlockersOn install.version
    install.semantics
  .ok (placed.backfillSetEpoch install.version allocated.2)

def stageBaseOn (ledger : Ledger) (install : BaseInstall)
    (assets : List (UpdateAsset × String)) : Except BaseError Ledger :=
  match ledger.inState .active with
  | none => ledger.stageOffered install assets
  | some active =>
    if install.version < active.version then
      .error (.newerRecorded install.version active.version)
    else if install.version = active.version then do
      recordedDocumentMatches active install
      .ok ledger
    else if install.version ≠ active.version + 1 then
      .error (.skippedVersion install.version active.version)
    else ledger.stageOffered install assets

/-- The staged base leaves with its receipt, its rules and its blockers. -/
def abandonBaseOn (ledger : Ledger) (version : ℕ) : Except BaseError (Ledger × BaseDocument) := do
  let staged ← found ((ledger.inState .staged).filter (·.version = version)) (.notStaged version)
  .ok ({ ledger with
    rows := ledger.rows.filter fun row => !(row.version = version ∧ row.state = .staged)
    blockers := ledger.blockers.filter (·.version ≠ version)
    receipts := ledger.receipts.filter (·.version ≠ version)
    migrations := ledger.migrations.filter (·.baseVersion ≠ version) }, staged)

def stageForCutoverOn (ledger : Ledger) (install : BaseInstall)
    (assets : List (UpdateAsset × String)) : Except BaseError (Ledger × Option BaseDocument) :=
  match ledger.stageBaseOn install assets with
  | .ok staged => .ok (staged, none)
  | .error (.alreadyStaged version) =>
    if version ≤ install.version then do
      let abandoned ← ledger.abandonBaseOn version
      let staged ← abandoned.1.stageBaseOn install assets
      .ok (staged, some abandoned.2)
    else .error (.alreadyStaged version)
  | .error refusal => .error refusal

/-! ## Recording rules -/

def sameKey (first second : IdentityMigration) : Bool :=
  first.baseVersion = second.baseVersion && first.kind = second.kind &&
    first.oldId = second.oldId && first.newId = second.newId

def insertMigration (ledger : Ledger) (migration : IdentityMigration) : Ledger :=
  if ledger.migrations.any (sameKey migration) then ledger
  else { ledger with migrations := ledger.migrations ++ [migration] }

def recordMigrationOn (ledger : Ledger) (migration : IdentityMigration) (version : ℕ) :
    Except IdentityError (Ledger × IdentityMigration) := do
  require (migration.baseVersion = version) (.unknownBase migration.baseVersion version)
  let _ ← IdentityRules.new version (ledger.migrationsFor version ++ [migration])
  let _ ← (TaskStore.storedU64 migration.baseVersion).mapError IdentityError.store
  let ledger := ledger.insertMigration migration
  let stored ← found ((ledger.migrationsFor version).find? (sameKey migration)) (.store .storage)
  require (stored = migration)
    (.conflicting migration.oldId migration.newId migration.rule)
  .ok (ledger, stored)

/-- The rules of one release and the set they were judged against. -/
def recordReleaseRulesOn (ledger : Ledger) (install : BaseInstall)
    (rules : List IdentityMigration) : Except BaseError Ledger := do
  let ledger ← rules.foldlM (fun ledger rule => do
    let recorded ← identifying (ledger.recordMigrationOn rule install.version)
    .ok recorded.1) ledger
  ledger.sealBlockersOn install.version install.semantics

/-! ## Activating -/

/-- The 64 lowercase hexadecimal digits of a digest. -/
def policyGenerationShape (value : String) : Bool :=
  value.length = 64 && value.toList.all fun c => c.isDigit || ('a' ≤ c && c ≤ 'f')

def rebindLearningIdentitiesOn (ledger : Ledger) :
    Except IdentityError (Ledger × IdentityRebind) := do
  let version := ledger.servedBaseVersion
  let rules ← IdentityRules.new version (ledger.migrationsFor version)
  let done ← rebindLearningIdentities rules ledger.learning
  .ok ({ ledger with learning := done.1 }, done.2)

/-- The retired versions beyond the newest `keep`. -/
def expired (ledger : Ledger) (keep : ℕ) : List ℕ :=
  (((ledger.rows.filter (·.state = .retired)).map BaseRow.version).mergeSort
    (fun a b => decide (b ≤ a))).drop keep

def pruneBaseVersions (ledger : Ledger) (keep : ℕ) : Ledger :=
  let dropped := ledger.expired keep
  { ledger with
    receipts := ledger.receipts.filter (·.version ∉ dropped)
    migrations := ledger.migrations.filter (·.baseVersion ∉ dropped)
    rows := ledger.rows.filter (·.version ∉ dropped)
    blockers := ledger.blockers.filter (·.version ∉ dropped) }

/-- The base that served stops serving. -/
def retireActiveBase (ledger : Ledger) (version : ℕ) : Ledger :=
  { ledger with
    rows := ledger.rows.map fun row =>
      if row.state = .active ∧ row.version ≠ version then { row with state := .retired } else row }

def activateBase (ledger : Ledger) (version generation : ℕ) (policyGeneration : String) :
    Ledger :=
  { ledger with
    rows := ledger.rows.map fun row =>
      if row.version = version ∧ row.state = .staged then
        { row with
          state := .active
          phase := some .activated
          schemaGeneration := some generation
          policyGeneration := some policyGeneration }
      else row }

def commitBaseOn (ledger : Ledger) (version : ℕ) (policyGeneration : String) :
    Except BaseError (Ledger × IdentityRebind) := do
  require (policyGenerationShape policyGeneration = true) (.store .storage)
  require (ledger.schemaGeneration < 2 ^ 63) (.store .storage)
  require (∀ row ∈ ledger.row version, ¬ (row.blockerCount.isSome ∧ row.setEpoch = none))
    (.store .storage)
  let retired := ledger.retireActiveBase version
  require (∃ row ∈ retired.rows, row.version = version ∧ row.state = .staged)
    (.notStaged version)
  let done ← identifying
    (retired.activateBase version ledger.schemaGeneration policyGeneration).rebindLearningIdentitiesOn
  .ok (done.1.pruneBaseVersions BASE_VERSION_RETENTION, done.2)

/-- The steps of an activation before its commit. -/
def prepareActivation (ledger : Ledger) (version : ℕ) (pin : Option String) :
    Except BaseError (Ledger × IdentityRebind) := do
  require ((ledger.inState .staged).any (·.version = version) = true) (.notStaged version)
  let pin ← found pin (.store .storage)
  ledger.commitBaseOn version pin

end Ledger

end Rivect.Base
