import Rivect.Lib.Effects
import Rivect.Mcp.Session

/-! # The run of a call

One physical call for one logical operation: the claim before the first byte, the conversation, and
the settlement of the attempt, the operation and the retained lines. Each access to the store or the
artifact may fail, and the process may end before it.
-/

namespace Rivect.Mcp

open Lib

def mcpRetainedMaxLines : ℕ := 64

/-! ## Records -/

structure McpServer where
  name : String
  origin : String
deriving DecidableEq

structure McpCall where
  server : McpServer
  tool : String
  arguments : Json
  operation : Option String

structure OperationClaim where
  operation : String
  attempt : String
  server : String
  origin : String
  tool : String
  artifact : String
deriving DecidableEq

structure Continuation where
  handle : String
  logicalOperationId : String
deriving DecidableEq

/-- What an operation ended as; a reason stands for the code it is written as. -/
structure McpOutcome where
  operation : String
  attempt : String
  state : McpState
  code : Option ErrorCode
  message : Option String
  boundaryId : Option String
  reasonCode : Option McpReason
  continuation : Option Continuation
  result : Option Json
  bytesSent : ℕ
  artifact : String
  peerVersionDigest : Option String

structure TerminalRecord where
  operation : String
  attempt : String
  state : McpState
  boundaryId : Option String
  reasonCode : Option McpReason
  code : Option ErrorCode
  message : Option String
  continuation : Option Continuation
  bytesSent : ℕ
  artifact : String
  peerVersionDigest : Option String
deriving DecidableEq

structure Cleanup where
  childReaped : Bool
  readerJoined : Bool
deriving DecidableEq

def Cleanup.isClean (cleanup : Cleanup) : Bool := cleanup.childReaped && cleanup.readerJoined

/-- One line of an operation's artifact, before it is encoded. -/
structure RetainedLine where
  logicalOperationId : String
  record : String
  outcome : Option McpState
  boundaryId : Option String
  reasonCode : Option McpReason
  serverOrigin : String
  bytesSent : ℕ
  peerVersionDigest : Option String
  childReaped : Option Bool
  readerJoined : Option Bool
deriving DecidableEq

inductive AttemptState where
  | planned
  | running
  | confirmed
  | rejected (detail : String)
  | unknown (detail : String)
deriving DecidableEq

/-- What a run hands over to be settled, with what its pipes carried and the call it had. -/
structure Settlement where
  outcome : McpOutcome
  pipes : Pipes
  talk : Option ToolCall

/-- A frame of a call, under its operation and the handle it carries. -/
structure CallFrame where
  operation : String
  continuation : Option String
  bytes : ℕ

/-- The store's rows, by operation and by attempt, and the lines of the artifacts. What was settled
by the run, and what call frames were written, is written down beside them. -/
structure Ledger where
  claims : List (String × OperationClaim)
  continuations : List (String × Continuation)
  terminals : List (String × TerminalRecord)
  attempts : List (String × AttemptState)
  lines : List RetainedLine
  settled : List Settlement
  wire : List CallFrame

inductive RecordCause where
  | storage
  | collision
  | missingAttempt
  | anotherOperation
  | continuationOfAnother
deriving DecidableEq

inductive McpError where
  | invalid (cause : String)
  | invalidOperation (operation : String)
  | unknownOperation (operation : String)
  | operationMismatch (operation field : String)
  | record (operation : String) (cause : RecordCause)
  | preSend (operation : String)
  | cancelled (operation : String)
  | credential (cause : String)
  | spawn (cause : String)
  | admission (cause : String)
deriving DecidableEq

/-- The client, with the shape checks of a call and the texts of its errors. -/
structure Host extends Client where
  validate : McpCall → Except McpError Unit
  display : McpError → String

/-- What a run meets besides the store: the cancellation before its claim, the credential, the
child and the admission it may be refused, the server's part, and how the child is cleaned up. -/
structure Surroundings where
  cancelled : CancelRead
  credential : Option McpError
  spawned : Option McpError
  reconsult : Option McpError
  peer : Peer
  cleanup : Cleanup

abbrev McpProg := Prog Ledger McpError

def isBoundedOperation (raw : String) : Bool :=
  raw ≠ "" && raw.utf8ByteSize ≤ 64 &&
    raw.toList.all fun c => c.isAlphanum || c = '-' || c = '_'

def artifactRelative (operation : String) : String := "reports/mcp-" ++ operation ++ ".jsonl"

/-- A continuation names what the claim opened. -/
def OperationClaim.assertSameCall (claim : OperationClaim) (operation : String) (call : McpCall) :
    Except McpError Unit :=
  if claim.server ≠ call.server.name then .error (.operationMismatch operation "server")
  else if claim.origin ≠ call.server.origin then .error (.operationMismatch operation "origin")
  else if claim.tool ≠ call.tool then .error (.operationMismatch operation "tool")
  else .ok ()

def terminalRecord (outcome : McpOutcome) : TerminalRecord :=
  { operation := outcome.operation
    attempt := outcome.attempt
    state := outcome.state
    boundaryId := outcome.boundaryId
    reasonCode := outcome.reasonCode
    code := outcome.code
    message := outcome.message
    continuation := outcome.continuation
    bytesSent := outcome.bytesSent
    artifact := outcome.artifact
    peerVersionDigest := outcome.peerVersionDigest }

def TerminalRecord.outcome (record : TerminalRecord) : McpOutcome :=
  { operation := record.operation
    attempt := record.attempt
    state := record.state
    code := record.code
    message := record.message
    boundaryId := record.boundaryId
    reasonCode := record.reasonCode
    continuation := record.continuation
    result := none
    bytesSent := record.bytesSent
    artifact := record.artifact
    peerVersionDigest := record.peerVersionDigest }

def sendLine (operation origin : String) : RetainedLine :=
  { logicalOperationId := operation
    record := "send"
    outcome := none
    boundaryId := some (boundaryId .preSend)
    reasonCode := none
    serverOrigin := origin
    bytesSent := 0
    peerVersionDigest := none
    childReaped := none
    readerJoined := none }

def terminalLine (outcome : McpOutcome) (origin : String) : RetainedLine :=
  { logicalOperationId := outcome.operation
    record := "terminal"
    outcome := some outcome.state
    boundaryId := outcome.boundaryId
    reasonCode := outcome.reasonCode
    serverOrigin := origin
    bytesSent := outcome.bytesSent
    peerVersionDigest := outcome.peerVersionDigest
    childReaped := none
    readerJoined := none }

def cleanupLine (operation origin : String) (bytesSent : ℕ) (cleanup : Cleanup) : RetainedLine :=
  { logicalOperationId := operation
    record := "cleanup"
    outcome := none
    boundaryId := some (boundaryId .cleanup)
    reasonCode := if cleanup.isClean then none else some .cleanupIncomplete
    serverOrigin := origin
    bytesSent := bytesSent
    peerVersionDigest := none
    childReaped := some cleanup.childReaped
    readerJoined := some cleanup.readerJoined }

/-! ## The store -/

/-- A row is retained once: the same row again is accepted, another one under its key refused. -/
def retain {α : Type} [DecidableEq α] (rows : Ledger → List (String × α))
    (put : List (String × α) → Ledger → Ledger) (operation : String) (value : α) : McpProg Unit := do
  let ledger ← Prog.look
  match (rows ledger).lookup operation with
  | none =>
    Prog.effect (.record operation .storage) fun ledger =>
      put (rows ledger ++ [(operation, value)]) ledger
  | some held => do
    Prog.effect (.record operation .storage) id
    if held = value then pure () else Prog.fail (.record operation .collision)

def retainClaim (operation : String) (claim : OperationClaim) : McpProg Unit :=
  retain Ledger.claims (fun rows ledger => { ledger with claims := rows }) operation claim

def retainContinuation (operation : String) (continuation : Continuation) : McpProg Unit :=
  retain Ledger.continuations (fun rows ledger => { ledger with continuations := rows }) operation
    continuation

def retainTerminal (operation : String) (record : TerminalRecord) : McpProg Unit :=
  retain Ledger.terminals (fun rows ledger => { ledger with terminals := rows }) operation record

def retained {α : Type} (rows : Ledger → List (String × α)) (operation : String) :
    McpProg (Option α) :=
  Prog.observe (.record operation .storage) fun ledger => .ok ((rows ledger).lookup operation)

def setAttempt (rows : List (String × AttemptState)) (attempt : String) (state : AttemptState) :
    List (String × AttemptState) :=
  rows.map fun row => if row.1 = attempt then (attempt, state) else row

def setAttemptState (operation attempt : String) (state : AttemptState) : McpProg Unit := do
  let ledger ← Prog.look
  Prog.effect (.record operation .storage) fun ledger =>
    { ledger with attempts := setAttempt ledger.attempts attempt state }
  if attempt ∈ ledger.attempts.map Prod.fst then pure ()
  else Prog.fail (.record operation .missingAttempt)

/-- The artifact of an operation, by the lines it is known to have. -/
structure RetainedLog where
  operation : String
  lines : ℕ

def openLog (operation : String) : McpProg RetainedLog := do
  Prog.effect (.preSend operation) id
  let ledger ← Prog.look
  pure ⟨operation, (ledger.lines.filter fun line => line.logicalOperationId = operation).length⟩

/-- A line past the bound is dropped. -/
def appendLine (log : RetainedLog) (line : RetainedLine) : McpProg RetainedLog :=
  if mcpRetainedMaxLines ≤ log.lines then pure log
  else do
    Prog.effect (.preSend log.operation) fun ledger =>
      { ledger with lines := ledger.lines ++ [line] }
    pure { log with lines := log.lines + 1 }

/-! ## Settling -/

/-- The settled outcome of an operation. -/
def recorded (operation : String) : McpProg (Option McpOutcome) := do
  match ← retained Ledger.terminals operation with
  | none => pure none
  | some record =>
    if record.operation ≠ operation then Prog.fail (.record operation .anotherOperation)
    else pure (some record.outcome)

def recordedContinuation (operation : String) : McpProg (Option String) := do
  match ← retained Ledger.continuations operation with
  | none => pure none
  | some record =>
    if record.logicalOperationId ≠ operation then
      Prog.fail (.record operation .continuationOfAnother)
    else pure (some record.handle)

def opened (operation : String) : McpProg Bool := do
  let claim ← retained Ledger.claims operation
  pure claim.isSome

/-- What is settled is written down before any of it is recorded. -/
def markSettled (settlement : Settlement) : McpProg Unit :=
  Prog.mark fun ledger => { ledger with settled := ledger.settled ++ [settlement] }

def unresolvedOutcome (operation : String) (reason : McpReason) : McpOutcome :=
  { operation := operation
    attempt := ""
    state := .outcomeUnknown
    code := none
    message := none
    boundaryId := some (boundaryId reason.seam)
    reasonCode := some reason
    continuation := none
    result := none
    bytesSent := 0
    artifact := artifactRelative operation
    peerVersionDigest := none }

/-- The attempt that sent is settled with its operation. -/
def settleClaim (operation : String) (claim : OperationClaim) (reason : McpReason) :
    McpProg Unit :=
  if claim.attempt = "" then pure ()
  else setAttemptState operation claim.attempt (.unknown reason.asStr)

/-- The settlement of an operation that can never be sent again. -/
def settleUnresolved (operation server : String) (reason : McpReason) : McpProg McpOutcome := do
  match ← recorded operation with
  | some existing => pure existing
  | none =>
    match ← retained Ledger.claims operation with
    | none => Prog.fail (.unknownOperation operation)
    | some claim =>
      if claim.server ≠ server then Prog.fail (.operationMismatch operation "server")
      else do
        let outcome := unresolvedOutcome operation reason
        markSettled ⟨outcome, ⟨[], []⟩, none⟩
        settleClaim operation claim reason
        retainTerminal operation (terminalRecord outcome)
        let log ← openLog operation
        let _ ← appendLine log (terminalLine outcome claim.origin)
        pure outcome

structure Running where
  operation : String
  attempt : String
  artifact : String
  origin : String
  log : Option RetainedLog

namespace Running

def outcome (running : Running) (state : McpState) (failure : Option SeamFailure)
    (result : Option Json) (bytesSent : ℕ) : McpOutcome :=
  { operation := running.operation
    attempt := running.attempt
    state := state
    code := failure.map SeamFailure.code
    message := failure.map SeamFailure.message
    boundaryId := failure.map fun failure => boundaryId failure.seam
    reasonCode := failure.map SeamFailure.reason
    continuation := none
    result := result
    bytesSent := bytesSent
    artifact := running.artifact
    peerVersionDigest := none }

def attemptState (outcome : McpOutcome) : Option AttemptState :=
  match outcome.state with
  | .succeeded => some .confirmed
  | .failed => some (.rejected ((outcome.reasonCode.map McpReason.asStr).getD "failed"))
  | .outcomeUnknown =>
    some (.unknown ((outcome.reasonCode.map McpReason.asStr).getD "outcome_unknown"))
  | .inputRequired => none

def settleAttempt (running : Running) (outcome : McpOutcome) : McpProg Unit :=
  if outcome.attempt = "" then pure ()
  else match attemptState outcome with
    | some state => setAttemptState running.operation outcome.attempt state
    | none => pure ()

/-- The attempt and the operation's own record. -/
def settleRows (running : Running) (outcome : McpOutcome) : McpProg Unit :=
  if outcome.state.isTerminal then do
    running.settleAttempt outcome
    retainTerminal running.operation (terminalRecord outcome)
  else pure ()

def retainOutcome (running : Running) (log : RetainedLog) (outcome : McpOutcome) :
    McpProg RetainedLog :=
  if outcome.state.isTerminal then appendLine log (terminalLine outcome running.origin)
  else pure log

def retainCleanup (running : Running) (log : RetainedLog) (outcome : McpOutcome)
    (cleanup : Cleanup) : McpProg RetainedLog :=
  if outcome.state.isTerminal ∧ outcome.state ≠ .succeeded then
    appendLine log (cleanupLine running.operation running.origin outcome.bytesSent cleanup)
  else pure log

def finish (running : Running) (settlement : Settlement) (cleanup : Option Cleanup) :
    McpProg McpOutcome := do
  markSettled settlement
  running.settleRows settlement.outcome
  match running.log, cleanup with
  | none, _ => pure settlement.outcome
  | some log, none => do
    let _ ← running.retainOutcome log settlement.outcome
    pure settlement.outcome
  | some log, some cleanup => do
    let log ← running.retainOutcome log settlement.outcome
    let _ ← running.retainCleanup log settlement.outcome cleanup
    pure settlement.outcome

/-- A refusal before the first byte. -/
def refuse (running : Running) (failure : SeamFailure) : McpProg McpOutcome :=
  running.finish ⟨running.outcome .failed (some failure) none 0, ⟨[], []⟩, none⟩ none

/-- The attempt is running before the first byte. -/
def stamp (running : Running) : McpProg Unit :=
  if running.attempt = "" then pure ()
  else setAttemptState running.operation running.attempt .running

end Running

/-! ## The run -/

/-- The conversation, and what it settles. -/
def Running.exchange (running : Running) (host : Host) (talk : ToolCall) (around : Surroundings) :
    McpProg McpOutcome := do
  let conversed := converse host.toClient talk around.peer
  let pipes := conversed.session.pipes
  let bytesSent := conversed.session.bytesSent
  Prog.mark fun ledger => { ledger with wire := ledger.wire ++
    [⟨running.operation, talk.continuation, conversed.session.callBytes⟩] }
  let settle := fun (outcome : McpOutcome) => running.finish
    ⟨{ outcome with peerVersionDigest := conversed.peerVersion }, pipes, some talk⟩
    (some around.cleanup)
  match conversed.verdict with
  | .ok (.inputRequired handle) => do
    let first ← recordedContinuation running.operation
    let continuation : Continuation := ⟨first.getD handle, running.operation⟩
    retainContinuation running.operation continuation
    settle { running.outcome .inputRequired none none bytesSent with
      continuation := some continuation }
  | .ok (.complete content) => settle (running.outcome .succeeded none content bytesSent)
  | .error failure => settle (running.outcome failure.state (some failure) none bytesSent)

/-- From the claim to the first byte: whatever refuses there is settled as refused. -/
def Running.begin (running : Running) (host : Host) (talk : ToolCall) (around : Surroundings) :
    McpProg McpOutcome := do
  match ← Prog.caught (openLog running.operation) with
  | .error error => running.refuse (.preSend .artifactUnavailable (host.display error))
  | .ok log =>
    match ← Prog.caught (appendLine log (sendLine running.operation running.origin)) with
    | .error error => running.refuse (.preSend .artifactUnavailable (host.display error))
    | .ok log =>
      let running := { running with log := some log }
      match ← Prog.caught running.stamp with
      | .error error => running.refuse (.preSend .claimUnavailable (host.display error))
      | .ok () =>
        match around.credential with
        | some error => do
          let _ ← running.refuse (.preSend .credentialRefused (host.display error))
          Prog.fail error
        | none =>
          match around.spawned with
          | some error => running.refuse (.protocol .spawnFailed (host.display error))
          | none =>
            match around.reconsult with
            | some error => do
              let failure := SeamFailure.admissionWithdrawn (host.display error)
              let _ ← running.finish
                ⟨running.outcome .failed (some failure) none 0, ⟨[], []⟩, none⟩
                (some around.cleanup)
              Prog.fail error
            | none => running.exchange host talk around

/-- How an operation that is named stands. -/
inductive Standing where
  | settled (outcome : McpOutcome)
  | unreconciled
  | ready (continuation : Option String)

def standing (call : McpCall) (operation : String) : McpProg Standing :=
  match call.operation with
  | none => pure (.ready none)
  | some _ => do
    match ← recorded operation with
    | some settled => pure (.settled settled)
    | none =>
      match ← retained Ledger.claims operation with
      | none => Prog.fail (.unknownOperation operation)
      | some claim => do
        Prog.ofExcept (claim.assertSameCall operation call)
        match ← recordedContinuation operation with
        | none => pure .unreconciled
        | some handle => pure (.ready (some handle))

/-- The claim is durable before the first side effect, and written once. -/
def claimOnce (claimed : Bool) (operation attempt : String) (call : McpCall) : McpProg Unit :=
  if claimed then pure ()
  else retainClaim operation
    { operation := operation
      attempt := attempt
      server := call.server.name
      origin := call.server.origin
      tool := call.tool
      artifact := artifactRelative operation }

def run (host : Host) (call : McpCall) (attempt : String) (around : Surroundings) :
    McpProg McpOutcome := do
  Prog.mark fun ledger => { ledger with settled := [] }
  Prog.ofExcept (host.validate call)
  let operation := call.operation.getD attempt
  if isBoundedOperation operation = false then Prog.fail (.invalidOperation operation)
  else
    let claimed ← opened operation
    match ← standing call operation with
    | .settled outcome => pure outcome
    | .unreconciled => settleUnresolved operation call.server.name .unreconciledOperation
    | .ready continuation =>
      match around.cancelled with
      | .error _ => Prog.fail (.record operation .storage)
      | .ok true =>
        if claimed then settleUnresolved operation call.server.name .cancelled
        else Prog.fail (.cancelled operation)
      | .ok false => do
        claimOnce claimed operation attempt call
        let running : Running :=
          ⟨operation, attempt, artifactRelative operation, call.server.origin, none⟩
        running.begin host ⟨call.tool, call.arguments, continuation⟩ around

end Rivect.Mcp
