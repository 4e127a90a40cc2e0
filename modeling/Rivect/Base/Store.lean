import Rivect.Base.Steps
import Rivect.Config.Purposes

/-! # The calls on the base ledger

The public calls of `src/state/learning.rs` over one connection: each opens transactions on the
ledger, and any statement, its COMMIT and its ROLLBACK may fail. A fault says what became of it.
-/

namespace Rivect.Base

open Lib Config

/-- What a COMMIT did: it answered, or its error hides what is stored now. -/
inductive CommitResult where
  | reported
  | landed
  | undone
  | left (view : Ledger)

/-- What a ROLLBACK did; `left` keeps the transaction open with what it has written so far. -/
inductive RollbackResult where
  | reported
  | ended
  | left (view : Ledger)

structure TxFaults where
  begins : Bool
  statements : Bool
  commit : CommitResult
  rollback : RollbackResult

/-- The faults of one call: its transactions in turn and the reads around them. -/
structure CallFaults where
  stage : TxFaults
  rules : TxFaults
  commit : TxFaults
  activeRead : Bool
  tupleRead : Bool
  receiptRead : Bool

structure Store where
  primary : Ledger
  opened : Option Ledger
  stagedPolicy : Option String
  connected : Bool
  boundDb : String

/-- The document moves with the ledger: what is served, what was abandoned and the edit. -/
structure BaseServed where
  receipt : UpdateReceipt
  abandoned : Option BaseDocument
deriving DecidableEq

namespace RollbackResult

def leaves : RollbackResult → Option Ledger
  | .left view => some view
  | _ => none

end RollbackResult

namespace Store

/-- What the connection reads: the transaction it left open, or what is committed. -/
def view (store : Store) : Ledger := store.opened.getD store.primary

def quarantine (store : Store) : Store := { store with connected := false, opened := none }

def classifiedAssets (store : Store) (install : BaseInstall) : List (UpdateAsset × String) :=
  UPDATE_ASSETS.map fun asset => (asset, match asset with
    | .configFile => install.configPath
    | .sqliteRows | .indexRows => store.boundDb
    | .workspaceDirectories => install.workspaceRoot)

/-- A connection without an open transaction begins one. -/
def begin (store : Store) (faults : TxFaults) : Except BaseError Ledger := do
  require (store.connected = true) (.store .closed)
  require (store.opened.isNone = true ∧ faults.begins = true) (.store .storage)
  .ok store.primary

/-- The body of a transaction, or the refusal of the statement that failed in it. -/
def attempt {α : Type} (faults : TxFaults) (body : Ledger → Except BaseError α)
    (ledger : Ledger) : Except BaseError α :=
  if faults.statements then body ledger else .error (.store .storage)

/-- A transaction whose handle rolls it back where it is dropped. -/
def transact {α : Type} (store : Store) (faults : TxFaults)
    (body : Ledger → Except BaseError (Ledger × α)) : Store × Except BaseError α :=
  match store.begin faults with
  | .error refusal => (store, .error refusal)
  | .ok ledger =>
    match attempt faults body ledger with
    | .error refusal => ({ store with opened := faults.rollback.leaves }, .error refusal)
    | .ok (written, answer) =>
      match faults.commit with
      | .reported => ({ store with primary := written }, .ok answer)
      | .landed => ({ store with primary := written }, .error (.store .storage))
      | .undone => (store, .error (.store .storage))
      | .left view => ({ store with opened := some view }, .error (.store .storage))

def readReceipt (store : Store) (faults : CallFaults) (version : ℕ) :
    Except BaseError UpdateReceipt := do
  require (store.connected = true) (.store .closed)
  require (faults.receiptRead = true) (.store .storage)
  store.view.updateReceipt version

def readTuple (store : Store) (faults : CallFaults) : Except BaseError Ledger.GenerationTuple := do
  require (store.connected = true) (.store .closed)
  require (faults.tupleRead = true) (.store .storage)
  store.view.generationTuple

/-- The answer of a refusal whose explicit ROLLBACK was tried. -/
def classifyRollback (store : Store) (faults : CallFaults) (version : ℕ) (refusal : BaseError) :
    RollbackResult → Store × Except BaseError UpdateReceipt
  | .reported => (store, .error refusal)
  | .ended =>
    match store.readTuple faults with
    | .ok tuple =>
      if tuple.base ≠ some version then (store, .error refusal)
      else (store.quarantine, .error (.rollbackFailed version))
    | .error _ => (store.quarantine, .error (.rollbackFailed version))
  | .left _ => (store.quarantine, .error (.rollbackFailed version))

/-- The answer of an activation whose COMMIT ended with an error. -/
def readBackAfterRefusedCommit (store : Store) (faults : CallFaults) (version : ℕ) :
    Store × Except BaseError UpdateReceipt :=
  match store.readTuple faults with
  | .ok tuple =>
    if tuple.base = some version then
      ({ store with stagedPolicy := none },
        { store with stagedPolicy := none }.readReceipt faults version)
    else (store, .error (.store .storage))
  | .error _ => (store.quarantine, .error (.outcomeUnread version))

def stageBase (store : Store) (faults : CallFaults) (install : BaseInstall) :
    Store × Except BaseError UpdateReceipt :=
  match store.begin faults.stage with
  | .error refusal => (store, .error refusal)
  | .ok ledger =>
    match attempt faults.stage (·.stageBaseOn install (store.classifiedAssets install)) ledger with
    | .error refusal => store.classifyRollback faults install.version refusal faults.stage.rollback
    | .ok written =>
      match faults.stage.commit with
      | .reported =>
        let staged := { store with primary := written, stagedPolicy := some install.policyGeneration }
        (staged, staged.readReceipt faults install.version)
      | .landed => ({ store with primary := written }, .error (.store .storage))
      | .undone => (store, .error (.store .storage))
      | .left view => ({ store with opened := some view }, .error (.store .storage))

def commitBase (store : Store) (faults : CallFaults) (version : ℕ) :
    Store × Except BaseError UpdateReceipt :=
  match store.begin faults.commit with
  | .error refusal => (store, .error refusal)
  | .ok ledger =>
    match attempt faults.commit (·.prepareActivation version store.stagedPolicy) ledger with
    | .error refusal => store.classifyRollback faults version refusal faults.commit.rollback
    | .ok (written, identity) =>
      match faults.commit.commit with
      | .reported =>
        let committed := { store with primary := written, stagedPolicy := none }
        (committed, (committed.readReceipt faults version).map fun receipt =>
          { receipt with identity := identity })
      | .landed => { store with primary := written }.readBackAfterRefusedCommit faults version
      | .undone => store.readBackAfterRefusedCommit faults version
      | .left _ => (store.quarantine, .error (.outcomeUnread version))

def abandonBase (store : Store) (faults : CallFaults) (version : ℕ) :
    Store × Except BaseError BaseDocument :=
  store.transact faults.stage (·.abandonBaseOn version)

def recordIdentityMigration (store : Store) (faults : CallFaults) (migration : IdentityMigration) :
    Store × Except BaseError IdentityMigration :=
  store.transact faults.rules fun ledger =>
    identifying (ledger.recordMigrationOn migration ledger.servedBaseVersion)

def recordReleaseRules (store : Store) (faults : CallFaults) (install : BaseInstall)
    (rules : List IdentityMigration) : Store × Except BaseError Unit :=
  if rules = [] then (store, .ok ())
  else store.transact faults.rules fun ledger => do
    let written ← ledger.recordReleaseRulesOn install rules
    .ok (written, ())

def stageForCutover (store : Store) (faults : CallFaults) (install : BaseInstall) :
    Store × Except BaseError (Option BaseDocument) :=
  match store.transact faults.stage
      (·.stageForCutoverOn install (store.classifiedAssets install)) with
  | (staged, .ok abandoned) =>
    ({ staged with stagedPolicy := some install.policyGeneration }, .ok abandoned)
  | (staged, .error refusal) => (staged, .error refusal)

def activeBase (store : Store) (faults : CallFaults) : Except BaseError (Option BaseDocument) := do
  require (store.connected = true) (.store .closed)
  require (faults.activeRead = true) (.store .storage)
  .ok (store.view.inState .active)

/-- The rules of a base that already serves are recorded again, and its receipt answers. -/
def serveAgain (store : Store) (faults : CallFaults) (install : BaseInstall)
    (rules : List IdentityMigration) (active : BaseDocument) :
    Store × Except BaseError BaseServed :=
  match Ledger.recordedDocumentMatches active install with
  | .error refusal => (store, .error refusal)
  | .ok _ =>
    match store.recordReleaseRules faults install rules with
    | (recorded, .error refusal) => (recorded, .error refusal)
    | (recorded, .ok _) =>
      (recorded, (recorded.readReceipt faults install.version).map fun receipt => ⟨receipt, none⟩)

/-- Stage, record, commit: three transactions. -/
def serveNext (store : Store) (faults : CallFaults) (install : BaseInstall)
    (rules : List IdentityMigration) : Store × Except BaseError BaseServed :=
  match store.stageForCutover faults install with
  | (staged, .error refusal) => (staged, .error refusal)
  | (staged, .ok abandoned) =>
    match staged.recordReleaseRules faults install rules with
    | (recorded, .error refusal) => (recorded, .error refusal)
    | (recorded, .ok _) =>
      match recorded.commitBase faults install.version with
      | (committed, answer) => (committed, answer.map fun receipt => ⟨receipt, abandoned⟩)

def cutOverServing (store : Store) (faults : CallFaults) (install : BaseInstall)
    (rules : List IdentityMigration) : Store × Except BaseError BaseServed :=
  match store.activeBase faults with
  | .error refusal => (store, .error refusal)
  | .ok (some active) =>
    if active.version = install.version then store.serveAgain faults install rules active
    else store.serveNext faults install rules
  | .ok none => store.serveNext faults install rules

def serveBase (store : Store) (faults : CallFaults) (install : BaseInstall) :
    Store × Except BaseError BaseServed := store.cutOverServing faults install []

/-- The moves that the role rules of a release make. -/
def purposeMoves (rules : List IdentityMigration) : List (String × String) :=
  (rules.filter (·.kind = .role)).map fun rule => (rule.oldId, rule.newId)

/-- A config without a document has no row to move. -/
def plannedPurposeMoves (config : Option Table) (rules : List IdentityMigration) :
    Except BaseError (List (String × String)) :=
  match config with
  | none => .ok []
  | some document => (provenMoves document (purposeMoves rules)).mapError BaseError.document

def movePurposeBindings (config : Option Table) (moves : List (String × String)) :
    Except BaseError (Option Table) :=
  match config with
  | none => .ok none
  | some document => ((applyMoves document moves).map some).mapError BaseError.document

/-- The store, the document and the answer of a cutover. -/
def cutOverBase (store : Store) (faults : CallFaults) (install : BaseInstall)
    (rules : List IdentityMigration) (config : Option Table) :
    Store × Option Table × Except BaseError BaseServed :=
  match plannedPurposeMoves config rules with
  | .error refusal => (store, config, .error refusal)
  | .ok moves =>
    match store.cutOverServing faults install rules with
    | (served, .error refusal) => (served, config, .error refusal)
    | (served, .ok answer) =>
      match movePurposeBindings config moves with
      | .error refusal => (served, config, .error refusal)
      | .ok moved => (served, moved, .ok answer)

end Store

end Rivect.Base
