import Rivect.Update.Evidence

/-! # An activation attempt

`activate` of `src/update.rs` over the store, the record directory and the snapshots of one data
root. Beside them the world keeps what has happened so far, which no step reads.
-/

namespace Rivect.Update

open Lib Base

/-- What has happened in an attempt, with the attempt's own record as it stood then. -/
inductive Event where
  | validated (answer : Except UpdateBoundary Unit)
  | published (answer : Except BaseError Unit) (standing : Option UpdateEvidence)
  | recorded (refusal : Option UpdateError) (standing : Option UpdateEvidence)
  | settled (refusal : Option UpdateError)
  | removed (standing : Option UpdateEvidence)
  | retained (refusal : UpdateError)

/-- A data root; the newest event is the first of the log. -/
structure World where
  records : Directory
  store : Store
  snapshots : List String
  log : List Event

inductive ActivationOutcome where
  | activated
  | rolledBack
deriving DecidableEq

/-- What the caller of an activation supplies, and the faults of the store's own calls. -/
structure Callbacks where
  validate : Store → Ending UpdateBoundary Unit
  publish : Store → Ending BaseError Unit × Store
  stagedRead : Bool
  faults : CallFaults

namespace Directory

/-- The record of an attempt. -/
def standing (dir : Directory) (attemptId : String) : Option UpdateEvidence :=
  (dir.rows.find? (·.name.stem = attemptId)).map Row.record

end Directory

namespace World

def standing (world : World) (attemptId : String) : Option UpdateEvidence :=
  world.records.standing attemptId

def happened (world : World) (event : Event) : World := { world with log := event :: world.log }

def noted (world : World) (dir : Directory) (event : Event) : World :=
  { world with records := dir, log := event :: world.log }

end World

/-- The refused validation goes to the seam that the abandonment failed at. -/
def abandonSeam : BaseError → UpdateBoundary
  | .rollbackFailed _ => .transactionRollback
  | .outcomeUnread _ => .outcomeRead
  | _ => .baseStage

def publishSeam : BaseError → UpdateBoundary
  | .rollbackFailed _ => .transactionRollback
  | .outcomeUnread _ => .outcomeRead
  | _ => .baseActivate

def stagedBase (callbacks : Callbacks) (store : Store) :
    Except BaseError (Option BaseDocument) := do
  require (store.connected = true) (.store .closed)
  require (callbacks.stagedRead = true) (.store .storage)
  .ok (store.view.inState .staged)

def isSnapshotName (name : String) : Bool :=
  ".db".toList.isSuffixOf name.toList &&
    generatedUuid (String.ofList (name.toList.take (name.toList.length - 3)))

/-- The attempt with what the receipt answers of the tuple that the store serves. -/
def observing (attempt : UpdateEvidence) (receipt : Option UpdateReceipt) : UpdateEvidence :=
  let reached := { attempt with
    phase := some ((receipt.bind UpdateReceipt.phase).getD .activated)
    terminal := .success }
  match receipt with
  | some receipt =>
    let schema := receipt.schemaGeneration.getD 0
    { reached with observedTuple := some {
        schema := if schema ≤ 2 ^ 32 - 1 then schema else 2 ^ 32 - 1
        base := receipt.document.version
        policy := receipt.policyGeneration.getD "" } }
  | none => reached.noteFailure (Failure.at .smoke .storageUnavailable (some "receipt-readback"))

variable (size : UpdateEvidence → ℕ)

/-- One durable milestone of an attempt. -/
def commit (attempt : UpdateEvidence) : Prog World UpdateError Unit := do
  let _ ← Prog.focus World.records
    (fun ended dir world =>
      world.noted dir (.recorded ended.refusal (dir.standing attempt.attemptId)))
    (EvidenceStore.write size attempt)
  pure ()

def settleEarlier : Prog World UpdateError Unit := do
  let _ ← Prog.focus World.records
    (fun ended dir world => world.noted dir (.settled ended.refusal))
    (EvidenceStore.settleSuccess size)
  pure ()

/-- The terminal record lands, and a success settles the earlier ones. -/
def settle (attempt : UpdateEvidence) : Prog World UpdateError Unit := do
  Prog.mapError UpdateError.terminalWrite (commit size attempt)
  if attempt.terminal = .success then Prog.mapError UpdateError.terminalWrite (settleEarlier size)
  else pure ()

/-- A refusal of the ledger, retained at its seam. -/
def refuse {α : Type} (attempt : UpdateEvidence) (boundary : UpdateBoundary) (refusal : BaseError) :
    Prog World UpdateError α := do
  commit size (attempt.noteFailure (Failure.at boundary (baseCode refusal) none))
  Prog.fail (.activation boundary refusal)

/-- The snapshot of a name is gone, whether or not it was there. -/
def World.discarded (world : World) (attemptId name : String) : World :=
  { world with snapshots := world.snapshots.filter (· ≠ name) }.happened
    (.removed (world.standing attemptId))

def discardCheckpoint (attemptId name : String) : Prog World UpdateError Unit := do
  Prog.ofExcept (require (isSnapshotName name = true) .snapshotName)
  Prog.effect .space id
  Prog.effect .sync (·.discarded attemptId name)

/-- The failed removal is secondary to the outcome that stands. -/
def cleanupFailed {α : Type} (attempt : UpdateEvidence) (refusal : UpdateError) :
    Prog World UpdateError α := do
  Prog.mark (·.happened (.retained refusal))
  commit size { attempt.noteFailure (Failure.at refusal.boundary refusal.code none) with
    cleanup := .failed
    terminal := .cleanupFailure }
  Prog.fail (.cleanup refusal)

/-- The removal once the outcome and the pending cleanup are durable, and the last record. -/
def cleanUp (attempt : UpdateEvidence) (snapshot : Option String) :
    Prog World UpdateError Unit :=
  match snapshot with
  | none => settle size { attempt with cleanup := .done, pending := none }
  | some name => do
    let discarded ← Prog.caught (discardCheckpoint attempt.attemptId name)
    match discarded with
    | .error refusal => cleanupFailed size attempt refusal
    | .ok _ => settle size { attempt with cleanup := .done, pending := none }

def discardAfterOutcome (attempt : UpdateEvidence) (name : String) :
    Prog World UpdateError Unit := do
  commit size { attempt with pending := some .checkpointCleanup }
  cleanUp size { attempt with pending := some .checkpointCleanup } (some name)

/-! ## The attempt -/

variable (callbacks : Callbacks) (snapshot : Option String)

/-- The staged row of a version is abandoned. -/
def World.abandon (faults : CallFaults) (version : ℕ) (world : World) :
    Ending BaseError Unit × World :=
  match world.store.abandonBase faults version with
  | (store, .ok _) => (.ok (), { world with store := store })
  | (store, .error refusal) => (.error refusal, { world with store := store })

/-- The validation failed: the staged row goes, and then the attempt is rolled back. -/
def rollBack (attempt : UpdateEvidence) (staged : BaseDocument) :
    Prog World UpdateError ActivationOutcome := do
  let abandoned ← Prog.asks (World.abandon callbacks.faults staged.version)
  match abandoned with
  | .error refusal => refuse size attempt (abandonSeam refusal) refusal
  | .ok _ => do
    let attempt := { attempt with phase := some .rolledBack, pending := none }
    settle size attempt
    match snapshot with
    | none => pure .rolledBack
    | some name => do
      discardAfterOutcome size attempt name
      pure .rolledBack

/-- The publication was refused: the attempt keeps its pending activation. -/
def publishRefused (attempt : UpdateEvidence) (refusal : BaseError) :
    Prog World UpdateError ActivationOutcome := do
  commit size (attempt.noteFailure
    (Failure.at (publishSeam refusal) (baseCode refusal) (some "activation-refused")))
  Prog.fail (.activation (publishSeam refusal) refusal)

/-- The publication landed: the outcome is recorded with the pending cleanup, before it. -/
def published (attempt : UpdateEvidence) (offered : ℕ) :
    Prog World UpdateError ActivationOutcome := do
  let world ← Prog.look
  let receipt := (world.store.readReceipt callbacks.faults offered).toOption
  let attempt := { observing attempt receipt with pending := some .checkpointCleanup }
  commit size attempt
  cleanUp size attempt snapshot
  pure .activated

/-- Every check passed: the milestone is durable before the publication. -/
def publishChecked (attempt : UpdateEvidence) (offered : ℕ) :
    Prog World UpdateError ActivationOutcome := do
  let attempt := { attempt with phase := some .checked, pending := some .baseActivate }
  commit size attempt
  let answer ← Prog.asks fun world =>
    ((callbacks.publish world.store).1, { world with store := (callbacks.publish world.store).2 })
  Prog.mark fun world => world.happened (.published answer (world.standing attempt.attemptId))
  match answer with
  | .error refusal => publishRefused size attempt refusal
  | .ok _ => published size callbacks snapshot attempt offered

def validateStaged (attempt : UpdateEvidence) (offered : ℕ) (staged : BaseDocument) :
    Prog World UpdateError ActivationOutcome := do
  let attempt := { attempt with pending := some .semantic }
  commit size attempt
  let answer ← Prog.asks fun world => (callbacks.validate world.store, world)
  Prog.mark (·.happened (.validated answer))
  match answer with
  | .error boundary =>
    rollBack size callbacks snapshot
      { attempt.noteFailure (Failure.at boundary .conflict none) with terminal := .rejected } staged
  | .ok _ => publishChecked size callbacks snapshot attempt offered

def activate (attempt : UpdateEvidence) : Prog World UpdateError ActivationOutcome :=
  match attempt.offeredBase with
  | none => Prog.fail (.record "an activation names the base it activates")
  | some offered => do
    let attempt := { attempt with pending := some .baseStage }
    commit size attempt
    let world ← Prog.look
    match stagedBase callbacks world.store with
    | .error refusal => refuse size attempt .baseStage refusal
    | .ok none => refuse size attempt .baseStage (.notStaged offered)
    | .ok (some staged) => validateStaged size callbacks snapshot attempt offered staged

/-- How an attempt on a data root ends, and what it leaves. -/
def activation (attempt : UpdateEvidence) (initial : World) (turns : ℕ → Turn) :
    Ending UpdateError ActivationOutcome × World :=
  let ended := activate size callbacks snapshot attempt turns (0, initial)
  (ended.1, ended.2.2)

end Rivect.Update
