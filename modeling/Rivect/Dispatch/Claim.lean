import Mathlib.Algebra.Ring.Int.Defs
import Rivect.TaskStore.Tasks

/-! # The dispatch claim

`claim_check`, `reopen` and `close` of `src/state.rs` over the task tables, the retained records
and the one connection of a store. What fails during a call is an input of the call: the faults
name the statement that fails, and a commit says whether it reported an error and what became of
its transaction; a refused transaction is rolled back. A statement outside a transaction that
fails has written nothing unless the fault says so.
-/

namespace Rivect.Dispatch

open Lib

inductive ClaimSite where
  | waitRead
  | waitSet
  | cancel
  | deadline
  | busy
  | begin
  | read
  | terminalRead
  | lifecycle
  | attempt
  | replay
  | selectionRead
  | selection
  | gateRead
  | gate
  | update
  | marker
  | waitRestore
  | commit
deriving DecidableEq

def ClaimSite.suffix : ClaimSite → String
  | .waitRead => "admit.claim_wait_read"
  | .waitSet => "admit.claim_wait_set"
  | .cancel => "admit.claim_cancel"
  | .deadline => "admit.claim_deadline"
  | .busy => "admit.claim_busy"
  | .begin => "admit.claim_begin"
  | .read => "admit.claim_read"
  | .terminalRead => "admit.claim_terminal_read"
  | .lifecycle => "admit.claim_lifecycle"
  | .attempt => "admit.attempt"
  | .replay => "admit.replay"
  | .selectionRead => "admit.claim_selection_read"
  | .selection => "admit.claim_selection"
  | .gateRead => "admit.claim_gate_read"
  | .gate => "admit.claim_gate"
  | .update => "admit.claim_update"
  | .marker => "admit.claim_marker"
  | .waitRestore => "admit.claim_wait_restore"
  | .commit => "admit.claim_commit"

inductive RetentionOutcome where
  | retained
  | unavailable
deriving DecidableEq

structure ClaimRefusal where
  site : ClaimSite
  retention : RetentionOutcome
  restoreFailed : Bool
deriving DecidableEq

inductive ClaimOutcome where
  | claimed
  | refused (refusal : ClaimRefusal)
deriving DecidableEq

structure CheckClaim where
  taskId : TaskId
  attemptId : String
  native : Bool
  selectionRevision : ℕ
  factsDigest : String
  requestKind : RequestKind
  bindingDigest : String

inductive RetainedStage where
  | preEffect
  | terminal
deriving DecidableEq

structure RetainedAttempt where
  attemptId : String
  boundaryId : String
  stage : RetainedStage
  cause : String
  digest : String
  buildAttempt : String
  admittedAttemptId : Option String
deriving DecidableEq

/-- The records that a claim writes. -/
inductive Record where
  | marker (site attempt binding : String)
  | rejection (site cause binding : String) (primary : Option String)
  | attempt (record : RetainedAttempt)
deriving DecidableEq

/-- The JSON text of a record and the digest of a cause. -/
structure Codec where
  json : Record → String
  recordDigest : String → String → String

inductive CallError where
  | closed
  | pathReplaced
  | reopenIdentity (bound presented : String)
  | boundaryCollision (boundaryId : String)
  | storage
  | task (cause : StoreError)
deriving DecidableEq

/-- What the database file holds: the task tables, and the retained records by their boundary. -/
structure Database where
  tables : TaskStore
  retained : String → Option String

structure Connection where
  timeout : ℤ
  autocommit : Bool
deriving DecidableEq

/-- A store: its connection slot, the holder of an ambiguous commit's record, the database path
that it is bound to, and what is committed there. -/
structure Store where
  conn : Option Connection
  held : Option RetainedAttempt
  boundDb : String
  db : Database

def checkBoundary (attemptId site : String) : String := "ret:check:" ++ attemptId ++ ":" ++ site

def markerBoundary (attemptId : String) : String := checkBoundary attemptId "admit.claim"

def commitBoundary (attemptId : String) : String := checkBoundary attemptId "admit.claim_commit"

def terminalBoundaryId (boundaryId : String) : String := "ret:terminal:" ++ boundaryId

/-! ## Faults -/

/-- The statements of a call that may fail, in the order of a claim. -/
inductive Site where
  | readFence
  | waitRead
  | waitSet
  | setFence
  | beginFence
  | busy
  | begin
  | read
  | terminalRead
  | selectionRead
  | gateRead
  | update
  | marker
  | waitRestore
  | denialFence
  | denialWrite
  | refusalRestore
  | recordRead
  | recordFence
  | recordWrite
  | recordReport
  | pathRead
  | maintenance
  | close
  | open
  | bootstrap
deriving DecidableEq

/-- The stop checks of a claim, in their order. -/
inductive Checkpoint where
  | started
  | begun
  | verified
  | native
  | checked
  | running
  | marked
deriving DecidableEq

inductive Stop where
  | cancel
  | deadline
deriving DecidableEq

def Stop.site : Stop → ClaimSite
  | .cancel => .cancel
  | .deadline => .deadline

/-- How the claim's `COMMIT` ends. One that reports an error may have become durable, may have
been rolled back, or may have left its transaction open. -/
inductive CommitEnd where
  | committed
  | durable (primary : String)
  | rolledBack (primary : String)
  | leftOpen (primary : String)
deriving DecidableEq

structure Faults where
  fails : Site → Bool
  primary : Site → Option ℤ
  stops : Checkpoint → Option Stop
  commit : CommitEnd
  rejectionId : String

/-- A site of the claim's transaction with the engine's primary code. -/
abbrev InTxn := ClaimSite × Option ℤ

namespace Faults

def reaches (faults : Faults) (site : Site) (refusal : ClaimSite) : Except InTxn Unit :=
  require (faults.fails site = false) (refusal, faults.primary site)

def claimCheckpoint (faults : Faults) (checkpoint : Checkpoint) : Except InTxn Unit :=
  match faults.stops checkpoint with
  | some stop => .error (stop.site, none)
  | none => .ok ()

end Faults

/-! ## Retained records -/

namespace Database

/-- An identical row is kept as it is, another one at the boundary is a collision. -/
def retainOnce (db : Database) (recordJson boundaryId : String) : Except CallError Database :=
  match db.retained boundaryId with
  | none => .ok { db with retained := Function.update db.retained boundaryId (some recordJson) }
  | some existing =>
    if existing = recordJson then .ok db else .error (.boundaryCollision boundaryId)

end Database

namespace Store

def isQuarantined (s : Store) : Bool := s.conn.isNone || s.held.isSome

/-- The connection of a store that holds no record. -/
def connRead (s : Store) : Except CallError Connection :=
  if s.held.isSome then .error .closed
  else
    match s.conn with
    | some conn => .ok conn
    | none => .error .closed

/-- The write accessor, which first checks the path's identity. -/
def connMut (s : Store) (replaced : Bool) : Except CallError Connection :=
  if s.held.isSome then .error .closed
  else if replaced then .error .pathReplaced
  else s.connRead

/-- A call that writes in one transaction or statement: it fails with nothing written, or it may
report an error after the write. -/
def writes (s : Store) (reports : Bool) (result : Except CallError Database) :
    Store × Except CallError Unit :=
  match result with
  | .ok db => ({ s with db := db }, if reports then .error .storage else .ok ())
  | .error e => (s, .error e)

/-- `retain`. -/
def retain (s : Store) (faults : Faults) (recordJson boundaryId : String) :
    Store × Except CallError Unit :=
  s.writes (faults.fails .recordReport) do
    let _ ← s.connMut (faults.fails .recordFence)
    require (faults.fails .recordWrite = false) .storage
    s.db.retainOnce recordJson boundaryId

/-- `retain_attempt`, whose collision check reads the boundary and its terminal twin. -/
def retainAttempt (codec : Codec) (s : Store) (faults : Faults) (record : RetainedAttempt) :
    Store × Except CallError Unit :=
  let json := codec.json (.attempt record)
  let rows := [s.db.retained record.boundaryId,
    s.db.retained (terminalBoundaryId record.boundaryId)].filterMap id
  match s.connRead with
  | .error e => (s, .error e)
  | .ok _ =>
    if faults.fails .recordRead then (s, .error .storage)
    else if ∃ row ∈ rows, row ≠ json then (s, .error (.boundaryCollision record.boundaryId))
    else if rows ≠ [] then (s, .ok ())
    else s.retain faults json record.boundaryId

/-- Whether the restoration failed; a failed one empties the slot. -/
def restoreOrQuarantine (s : Store) (faults : Faults) (prior : ℤ) : Store × Bool :=
  match s.conn with
  | some conn =>
    if faults.fails .refusalRestore then ({ s with conn := none }, true)
    else ({ s with conn := some { conn with timeout := prior } }, false)
  | none => (s, true)

/-! ## The claim -/

def rejectionBoundary (faults : Faults) (site : String) : String :=
  "ret:check-rejection:" ++ faults.rejectionId ++ ":" ++ site

/-- The denial row of a refusal. -/
def retainRejection (codec : Codec) (s : Store) (faults : Faults) (claim : CheckClaim)
    (site : ClaimSite) (primary : Option ℤ) : Store × RetentionOutcome :=
  let record : Record :=
    .rejection site.suffix "claim refused" claim.bindingDigest (primary.map toString)
  if faults.fails .denialWrite then (s, .unavailable)
  else
    match s.db.retainOnce (codec.json record) (rejectionBoundary faults site.suffix) with
    | .ok db => ({ s with db := db }, .retained)
    | .error _ => (s, .unavailable)

/-- One refusal after its transaction is gone: the denial row, then the prior timeout. -/
def refuseClaimWith (codec : Codec) (s : Store) (faults : Faults) (claim : CheckClaim)
    (site : ClaimSite) (primary : Option ℤ) (prior : ℤ) : Store × ClaimRefusal :=
  let (s, retention) :=
    match s.connMut (faults.fails .denialFence) with
    | .ok _ => s.retainRejection codec faults claim site primary
    | .error _ => (s, .unavailable)
  let (s, restoreFailed) := s.restoreOrQuarantine faults prior
  (s, ⟨site, retention, restoreFailed⟩)

end Store

/-- A row of `CLAIM_ATTEMPT_READ`. -/
structure ClaimRow where
  taskId : TaskId
  effectClass : String
  state : AttemptState
  lifecycle : Lifecycle
  marker : Bool

namespace Database

def claimAttemptRead (db : Database) (attemptId : String) : Option ClaimRow := do
  let a ← db.tables.attempts.find? fun a => a.attemptId = attemptId
  let t ← db.tables.tasks a.taskId
  some ⟨a.taskId, a.effectClass, a.state, t.lifecycle,
    (db.retained (markerBoundary attemptId)).isSome⟩

/-- The rows that `CLAIM_ATTEMPT_RUNNING` changes. -/
def claimable (attemptId : String) (taskId : TaskId) (a : AttemptRow) : Bool :=
  a.attemptId = attemptId && a.taskId = taskId && a.effectClass = "exec" && a.state = .planned

def claimAttemptRunning (db : Database) (attemptId : String) (taskId : TaskId) : Database :=
  { db with
    tables := { db.tables with
      attempts := db.tables.attempts.map fun a =>
        if claimable attemptId taskId a then { a with state := .running } else a } }

/-- The selection and the gate of a native claim; a claim without a native selection reads
neither. -/
def checkSelection (db : Database) (faults : Faults) (claim : CheckClaim) : Except InTxn Unit :=
  if claim.native then do
    faults.claimCheckpoint .native
    faults.reaches .selectionRead .selectionRead
    require (db.tables.planSelections claim.taskId =
      some ⟨claim.selectionRevision, claim.factsDigest, claim.requestKind⟩) (.selection, none)
    faults.reaches .gateRead .gateRead
    require (db.tables.gateOn claim.taskId = .open) (.gate, none)
  else .ok ()

/-- The statements of one claim up to its last stop check, on the transaction's tables. -/
def claimInTransaction (codec : Codec) (db : Database) (faults : Faults) (claim : CheckClaim) :
    Except InTxn Database := do
  faults.claimCheckpoint .begun
  faults.reaches .read .read
  let row ← found (db.claimAttemptRead claim.attemptId) (.attempt, none)
  require (row.taskId = claim.taskId ∧ row.effectClass = "exec") (.attempt, none)
  require (row.marker = false) (.replay, none)
  require (row.lifecycle ≠ .completed ∧ row.lifecycle ≠ .cancelled) (.lifecycle, none)
  require (row.state = .planned) (.replay, none)
  faults.claimCheckpoint .verified
  faults.reaches .terminalRead .terminalRead
  require (db.retained (commitBoundary claim.attemptId) = none) (.replay, none)
  db.checkSelection faults claim
  faults.claimCheckpoint .checked
  faults.reaches .update .update
  require (∃ a ∈ db.tables.attempts, claimable claim.attemptId claim.taskId a) (.update, none)
  let db := db.claimAttemptRunning claim.attemptId claim.taskId
  faults.claimCheckpoint .running
  faults.reaches .marker .marker
  let record : Record := .marker "admit.claim" claim.attemptId claim.bindingDigest
  let db ← (db.retainOnce (codec.json record) (markerBoundary claim.attemptId)).mapError
    fun _ => (.marker, none)
  faults.claimCheckpoint .marked
  .ok db

end Database

/-- `ended` is what the connection shows after the `COMMIT`, not a proof of a rollback. -/
def commitAmbiguousRecord (codec : Codec) (claim : CheckClaim) (primary : String) (ended : Bool) :
    RetainedAttempt :=
  let cause := "admit.claim_commit: transaction_ended=" ++ toString ended ++
    " binding=" ++ claim.bindingDigest ++ " primary=" ++ primary
  { attemptId := claim.attemptId
    boundaryId := commitBoundary claim.attemptId
    stage := .terminal
    cause := cause
    digest := codec.recordDigest claim.attemptId cause
    buildAttempt := claim.attemptId
    admittedAttemptId := some claim.attemptId }

namespace Store

/-- A `COMMIT` that reported an error: its record is written on this connection where the
transaction has ended, and held otherwise. -/
def commitReported (codec : Codec) (s : Store) (faults : Faults) (claim : CheckClaim)
    (primary : String) : Store × ClaimOutcome :=
  let ended := s.conn.any Connection.autocommit
  let record := commitAmbiguousRecord codec claim primary ended
  let (s, written) :=
    if ended then s.retainAttempt codec faults record else (s, .error .storage)
  match written with
  | .ok _ => (s, .refused ⟨.commit, .retained, false⟩)
  | .error _ => ({ s with held := some record }, .refused ⟨.commit, .unavailable, false⟩)

/-- The end of a claim's transaction, with `db` its tables: the prior timeout, then `COMMIT`. -/
def commitClaim (codec : Codec) (s : Store) (faults : Faults) (claim : CheckClaim) (prior : ℤ)
    (db : Database) : Store × ClaimOutcome :=
  if faults.fails .waitRestore then
    ({ s with conn := none }, .refused ⟨.waitRestore, .unavailable, true⟩)
  else
    let conn : Connection := ⟨prior, true⟩
    match faults.commit with
    | .committed => ({ s with conn := some conn, db := db }, .claimed)
    | .durable primary =>
      ({ s with conn := some conn, db := db } : Store).commitReported codec faults claim primary
    | .rolledBack primary =>
      ({ s with conn := some conn } : Store).commitReported codec faults claim primary
    | .leftOpen primary =>
      ({ s with conn := some { conn with autocommit := false } } : Store).commitReported codec
        faults claim primary

/-- The transaction of one claim, under a zero wait. -/
def claimTransaction (codec : Codec) (s : Store) (faults : Faults) (claim : CheckClaim)
    (prior : ℤ) : Store × Except CallError ClaimOutcome :=
  let refuse (refusal : InTxn) : Store × Except CallError ClaimOutcome :=
    let (s, refusal) := s.refuseClaimWith codec faults claim refusal.1 refusal.2 prior
    (s, .ok (.refused refusal))
  match faults.claimCheckpoint .started with
  | .error refusal => refuse refusal
  | .ok _ =>
    match s.connMut (faults.fails .beginFence) with
    | .error e => (s, .error e)
    | .ok conn =>
      if faults.fails .busy then refuse (.busy, faults.primary .busy)
      else if faults.fails .begin ∨ conn.autocommit = false then
        refuse (.begin, faults.primary .begin)
      else
        match s.db.claimInTransaction codec faults claim with
        | .error refusal => refuse refusal
        | .ok db =>
          let (s, outcome) := s.commitClaim codec faults claim prior db
          (s, .ok outcome)

/-- `claim_check`. -/
def claimCheck (codec : Codec) (s : Store) (faults : Faults) (claim : CheckClaim) :
    Store × Except CallError ClaimOutcome :=
  match s.connMut (faults.fails .readFence) with
  | .error e => (s, .error e)
  | .ok conn =>
    let prior := conn.timeout
    if faults.fails .waitRead ∨ prior < 0 ∨ 2 ^ 31 - 1 < prior then
      (s, .ok (.refused ⟨.waitRead, .unavailable, false⟩))
    else
      match s.connMut (faults.fails .setFence) with
      | .error e => (s, .error e)
      | .ok conn =>
        if faults.fails .waitSet then
          let (s, restoreFailed) := s.restoreOrQuarantine faults prior
          (s, .ok (.refused ⟨.waitSet, .unavailable, restoreFailed⟩))
        else
          ({ s with conn := some { conn with timeout := 0 } } : Store).claimTransaction codec
            faults claim prior

/-- `retain_preclaim_rejection`: one denial row under a zero wait, whatever becomes of it. -/
def retainPreclaimRejection (codec : Codec) (s : Store) (faults : Faults)
    (site bindingDigest : String) : Store × RetentionOutcome :=
  match s.connRead with
  | .error _ => (s, .unavailable)
  | .ok conn =>
    let prior := conn.timeout
    if faults.fails .waitRead ∨ prior < 0 ∨ 2 ^ 31 - 1 < prior then (s, .unavailable)
    else
      match s.connMut (faults.fails .setFence) with
      | .error _ => ((s.restoreOrQuarantine faults prior).1, .unavailable)
      | .ok conn =>
        if faults.fails .waitSet then ((s.restoreOrQuarantine faults prior).1, .unavailable)
        else
          let s : Store := { s with conn := some { conn with timeout := 0 } }
          let record : Record := .rejection site "pre-claim refusal" bindingDigest none
          let (s, written) :=
            s.retain faults (codec.json record) (rejectionBoundary faults site)
          let (s, _) := s.restoreOrQuarantine faults prior
          (s, if written = .ok () then .retained else .unavailable)

/-! ## Reopen and close -/

/-- The busy timeout that a connection opens with. -/
def BUSY_TIMEOUT_MS : ℤ := 5000

/-- The reopen from its new connection on: the carried write, then the bootstrap. -/
def carry (codec : Codec) (s : Store) (faults : Faults) : Store × Except CallError Unit :=
  let held := s.held
  let s := { s with conn := some ⟨BUSY_TIMEOUT_MS, true⟩, held := none }
  let (s, carried) :=
    match held with
    | some record => s.retainAttempt codec faults record
    | none => (s, .ok ())
  if faults.fails .bootstrap then ({ s with conn := none, held := held }, .error .storage)
  else (s, carried)

/-- `reopen`: the old connection closes first, and only then a new one opens. -/
def reopen (codec : Codec) (s : Store) (faults : Faults) (presented : String) :
    Store × Except CallError Unit :=
  if faults.fails .pathRead then (s, .error .storage)
  else if presented ≠ s.boundDb then (s, .error (.reopenIdentity s.boundDb presented))
  else if s.conn.isSome ∧ faults.fails .close then ({ s with conn := none }, .error .storage)
  else if faults.fails .open then ({ s with conn := none }, .error .storage)
  else s.carry codec faults

/-- `close`: only a healthy store runs its maintenance statements, and the holder of any other
one ends here. -/
def close (s : Store) (faults : Faults) : Store × Except CallError Unit :=
  let healthy := !s.isQuarantined && s.conn.any Connection.autocommit
  let result := do
    if healthy then
      let _ ← s.connMut (faults.fails .setFence)
      require (faults.fails .maintenance = false) .storage
    require (s.conn = none ∨ faults.fails .close = false) .storage
  ({ s with conn := none, held := none }, result)

end Store

/-! ## Calls -/

inductive Call where
  | claimCheck (claim : CheckClaim)
  | reopen (presented : String)
  | close
  | retain (recordJson boundaryId : String)
  | retainAttempt (record : RetainedAttempt)
  | retainPreclaimRejection (site bindingDigest : String)
  | task (op : TaskStore.Op)

namespace Store

/-- A call on the task tables, in one transaction. -/
def performTask (s : Store) (faults : Faults) (op : TaskStore.Op) :
    Store × Except CallError Unit :=
  match s.connMut (faults.fails .recordFence) with
  | .error e => (s, .error e)
  | .ok _ =>
    if faults.fails .recordWrite then (s, .error .storage)
    else
      let (tables, result) := s.db.tables.perform op
      ({ s with db := { s.db with tables := tables } },
        if faults.fails .recordReport then .error .storage else result.mapError .task)

/-- What a call answers: a claim its outcome, any other call nothing. -/
abbrev Answer := Option (Except CallError ClaimOutcome)

def perform (codec : Codec) (s : Store) (faults : Faults) : Call → Store × Answer
  | .claimCheck claim =>
    let (s, outcome) := s.claimCheck codec faults claim
    (s, some outcome)
  | .reopen presented => ((s.reopen codec faults presented).1, none)
  | .close => ((s.close faults).1, none)
  | .retain recordJson boundaryId => ((s.retain faults recordJson boundaryId).1, none)
  | .retainAttempt record => ((s.retainAttempt codec faults record).1, none)
  | .retainPreclaimRejection site bindingDigest =>
    ((s.retainPreclaimRejection codec faults site bindingDigest).1, none)
  | .task op => ((s.performTask faults op).1, none)

/-- The store after some calls, each with its faults. -/
def after (codec : Codec) (s : Store) (calls : List (Call × Faults)) : Store :=
  calls.foldl (fun s call => (s.perform codec call.2 call.1).1) s

end Store

end Rivect.Dispatch
