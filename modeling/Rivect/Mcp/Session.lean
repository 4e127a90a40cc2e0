import Rivect.Contracts
import Rivect.Lib.Fallible
import Rivect.Lib.Json
import Rivect.Mcp.Frames

/-! # A session with a server

The two frames of a session, `initialize` and `tools/call`: how each is written and how its answer
is waited for, under one watch on the task's cancellation. What the pipes carried is written down
beside the counts that the client keeps itself.
-/

namespace Rivect.Mcp

open Lib

def mcpProtocolVersion : String := "2025-06-18"

def mcpHandshakeMethod : String := "initialize"

def mcpCallMethod : String := "tools/call"

def mcpDeclaredMethods : List String := [mcpHandshakeMethod, mcpCallMethod]

def mcpRequestMaxBytes : ℕ := 4 * mcpFrameMaxBytes

/-! ## Failures at a seam -/

structure SeamFailure where
  reason : McpReason
  state : McpState
  code : ErrorCode
  message : String
deriving DecidableEq

def isPeerChar (c : Char) : Bool := c.isAlphanum || c ∈ ['.', '_', '-', '+', ':', '/']

def boundedPeerText (raw : String) (max : ℕ) : String :=
  if raw = "" ∨ max < raw.utf8ByteSize ∨ raw.toList.all isPeerChar = false then
    "<redacted-peer-value>"
  else raw

def isBoundedToken (raw : String) (max : ℕ) : Bool :=
  raw ≠ "" && raw.utf8ByteSize ≤ max &&
    raw.toList.all fun c => c.isAlphanum || c ∈ ['.', '_', '-', ':', '/']

namespace SeamFailure

def seam (failure : SeamFailure) : McpSeam := failure.reason.seam

def framing (reason : McpReason) : SeamFailure :=
  ⟨reason, .outcomeUnknown, .capabilityUnavailable,
    "the mcp server answered bytes that are not a bounded json-rpc line"⟩

def framingSource (reason : McpReason) (source : String) : SeamFailure :=
  { framing reason with
    message := "the mcp server answered bytes this client cannot read: " ++ source }

/-- The client's own request is no frame it hands over. -/
def requestRefused (reason : McpReason) (message : String) : SeamFailure :=
  ⟨reason, .failed, .capabilityUnavailable, message⟩

def signal (reason : McpReason) : SeamFailure :=
  ⟨reason, .outcomeUnknown, .outcomeUnknown, "the mcp server process ended before it answered"⟩

def writeFailed (kind : String) : SeamFailure :=
  { signal .writeFailed with message := "the mcp server's stdin failed: " ++ kind }

/-- A refusal of the peer: its answer is a verdict. -/
def protocol (reason : McpReason) (message : String) : SeamFailure :=
  ⟨reason, .failed, .capabilityUnavailable, message⟩

/-- An answer that is no verdict to this client. -/
def unreadableVerdict (reason : McpReason) (message : String) : SeamFailure :=
  ⟨reason, .outcomeUnknown, .capabilityUnavailable, message⟩

def preSend (reason : McpReason) (message : String) : SeamFailure :=
  ⟨reason, .failed, .storageUnavailable, message⟩

def unknownAfterSend (reason : McpReason) (message : String) : SeamFailure :=
  ⟨reason, .outcomeUnknown, .outcomeUnknown, message⟩

def admissionWithdrawn (message : String) : SeamFailure :=
  ⟨.admissionWithdrawn, .failed, .denied, message⟩

def cancelled : SeamFailure :=
  ⟨.cancelled, .outcomeUnknown, .cancelled,
    "the mcp call was cancelled before its outcome was known"⟩

def timeout : SeamFailure :=
  ⟨.timeout, .outcomeUnknown, .outcomeUnknown,
    "the mcp server did not answer within the bounded wait"⟩

def writeTimeout : SeamFailure :=
  ⟨.writeTimeout, .outcomeUnknown, .outcomeUnknown,
    "the mcp server did not read its request within the bounded write"⟩

end SeamFailure

/-! ## What the pipes and the clock do -/

/-- One read of the task's cancellation, or why it failed. -/
abbrev CancelRead := Except String Bool

/-- The watch, by the bytes that it is told were sent. -/
def watchCancelled (read : CancelRead) (sent : ℕ) : Except SeamFailure Bool :=
  match read with
  | .ok cancelled => .ok cancelled
  | .error source =>
    if sent = 0 then
      .error (.preSend .cancellationUnreadable
        ("the task's cancellation cannot be read: " ++ source))
    else
      .error (.unknownAfterSend .cancellationUnreadable
        ("the task's cancellation cannot be read after a byte of the call frame reached the mcp " ++
          "server: " ++ source))

/-- What one write to the server's stdin gives; a pipe that is full is waited for. -/
inductive PipeWrite where
  | wrote (count : ℕ)
  | wouldBlock (ready : Bool)
  | interrupted
  | failed (kind : String)
deriving DecidableEq

structure WriteTurn where
  cancelled : CancelRead
  write : PipeWrite

/-- What one wait for a frame gives: at the stream's end the server may have died of a signal. -/
inductive Received where
  | frame (frame : ReadFrame) (signalled : Bool)
  | timeout (exited : Bool)
  | disconnected (overflow : Bool)

structure WaitTurn where
  cancelled : CancelRead
  received : Received

/-- What happens while one frame is written and its answer waited for. Each stage has its turns
until the deadline, and one more read of the cancellation behind it. -/
structure Exchange where
  nonblocking : Bool
  writes : List WriteTurn
  lateWrite : CancelRead
  waits : List WaitTurn
  lateWait : CancelRead

/-! ## The session -/

inductive RequestFrame where
  | handshake
  | call
deriving DecidableEq

def RequestFrame.of (method : String) : RequestFrame :=
  if method = mcpHandshakeMethod then .handshake else .call

/-- An answer of the server, under the frame and the id it was waited for. -/
structure Answered where
  frame : RequestFrame
  id : ℕ
  answer : Json

/-- What went over the pipes of a session, frame by frame. -/
structure Pipes where
  wire : List (RequestFrame × ℕ)
  answers : List Answered

structure Session where
  stdin : Bool
  nextId : ℕ
  bytesSent : ℕ
  callBytes : ℕ
  pipes : Pipes

/-- The session of a server that has just started. -/
def Session.started : Session := ⟨true, 0, 0, 0, ⟨[], []⟩⟩

/-- The code this one links to: the encoding of values, their parsing, digests of a peer's
version, and the version of the client. -/
structure Client where
  encode : Json → Except String (List Byte)
  parse : List Byte → Except String Json
  peerVersionDigest : String → String
  version : String

/-- The loop of a write; `already` is what the watch is told besides. -/
def writeLoop (already size : ℕ) : List WriteTurn → CancelRead → ℕ → ℕ × Except SeamFailure Unit
  | [], late, written =>
    if written = size then (written, .ok ())
    else match watchCancelled late (already + written) with
      | .ok true => (written, .error .cancelled)
      | .ok false => (written, .error .writeTimeout)
      | .error failure => (written, .error failure)
  | turn :: turns, late, written =>
    if written = size then (written, .ok ())
    else match watchCancelled turn.cancelled (already + written) with
      | .ok true => (written, .error .cancelled)
      | .ok false =>
        match turn.write with
        | .wrote 0 => (written, .error (.signal .writeClosed))
        | .wrote count => writeLoop already size turns late (written + min count (size - written))
        | .wouldBlock true => writeLoop already size turns late written
        | .wouldBlock false => (written, .error (.signal .stdinUnavailable))
        | .interrupted => writeLoop already size turns late written
        | .failed kind => (written, .error (.writeFailed kind))
      | .error failure => (written, .error failure)

/-- The loop of a wait, under the bytes of the call frame. -/
def waitLoop (callBytes : ℕ) : List WaitTurn → CancelRead → Except SeamFailure (List Byte)
  | [], late =>
    match watchCancelled late callBytes with
    | .ok true => .error .cancelled
    | .ok false => .error .timeout
    | .error failure => .error failure
  | turn :: turns, late =>
    match watchCancelled turn.cancelled callBytes with
    | .ok true => .error .cancelled
    | .ok false =>
      match turn.received with
      | .frame ⟨.line line, _⟩ _ => .ok line
      | .frame ⟨.eof, _⟩ signalled =>
        .error (.signal (if signalled then .signalDeath else .peerClosed))
      | .frame ⟨.failed reason, _⟩ _ => .error (.framing reason)
      | .timeout true => .error (.signal .signalDeath)
      | .timeout false => waitLoop callBytes turns late
      | .disconnected true => .error (.framing .answersOverBound)
      | .disconnected false => .error (.signal .readerClosed)
    | .error failure => .error failure

namespace Session

def writeFrame (session : Session) (encoded : List Byte) (exchange : Exchange)
    (frame : RequestFrame) : Session × Except SeamFailure Unit :=
  if mcpRequestMaxBytes < encoded.length then
    (session, .error (.requestRefused .requestOverBound
      "the mcp request frame is past the size this client will write"))
  else if session.stdin = false then (session, .error (.signal .stdinClosed))
  else if exchange.nonblocking = false then (session, .error (.signal .stdinUnavailable))
  else
    let (written, verdict) :=
      writeLoop session.callBytes encoded.length exchange.writes exchange.lateWrite 0
    ({ session with
        bytesSent := session.bytesSent + written
        callBytes := if frame = .call then session.callBytes + written else session.callBytes
        pipes := { session.pipes with wire := session.pipes.wire ++ [(frame, written)] } },
      verdict)

def wait (session : Session) (exchange : Exchange) : Except SeamFailure (List Byte) :=
  waitLoop session.callBytes exchange.waits exchange.lateWait

end Session

/-- An answer for the request of an id. -/
def readAnswer (id : ℕ) (parsed : Json) : Except SeamFailure Json :=
  if (parsed.get "id").bind Json.asU64 ≠ some id then .error (.framing .answerNamesAnotherRequest)
  else match parsed.get "error" with
    | some error =>
      .error (.protocol .protocolError
        (if (error.get "code").bind Json.asI64 = some (-32601) then
          "the mcp server does not serve the requested method"
        else "the mcp server refused the request"))
    | none =>
      match parsed.get "result" with
      | some result => .ok result
      | none => .error (.framing .answerCarriesNoResult)

def requestValue (id : ℕ) (method : String) (params : Json) : Json :=
  .object [("jsonrpc", .string "2.0"), ("id", .number (.unsigned id)),
    ("method", .string method), ("params", params)]

def Session.request (client : Client) (session : Session) (method : String) (params : Json)
    (exchange : Exchange) : Session × Except SeamFailure Json :=
  if method ∉ mcpDeclaredMethods then
    (session, .error (.protocol .undeclaredMethod
      "the mcp client does not serve the requested method"))
  else
    let id := session.nextId + 1
    let session := { session with nextId := id }
    match client.encode (requestValue id method params) with
    | .error source => (session, .error (.framingSource .requestNotEncodable source))
    | .ok text =>
      let (session, wrote) :=
        session.writeFrame (text ++ [newline]) exchange (RequestFrame.of method)
      match wrote with
      | .error failure => (session, .error failure)
      | .ok () =>
        match session.wait exchange with
        | .error failure => (session, .error failure)
        | .ok line =>
          match client.parse line with
          | .error source => (session, .error (.framingSource .malformedFrame source))
          | .ok parsed =>
            ({ session with pipes := { session.pipes with
                answers := session.pipes.answers ++ [⟨RequestFrame.of method, id, parsed⟩] } },
              readAnswer id parsed)

def negotiate (client : Client) (result : Json) : Except SeamFailure String :=
  match result.getStr "protocolVersion" with
  | none =>
    .error (.protocol .missingProtocolVersion "the mcp server answered no protocol version")
  | some version =>
    if version ≠ mcpProtocolVersion then
      .error ⟨.unsupportedProtocolVersion, .failed, .unsupportedVersion,
        "mcp protocol version " ++ boundedPeerText version 40 ++
          " is outside the declared subset"⟩
    else .ok (client.peerVersionDigest version)

/-! ## The conversation -/

/-- The tool that is called, under the handle of a continuation where there is one. -/
structure ToolCall where
  tool : String
  arguments : Json
  continuation : Option String

def ToolCall.params (call : ToolCall) : Json :=
  let params := Json.object [("name", .string call.tool), ("arguments", call.arguments)]
  match call.continuation with
  | some handle => params.set "requestState" (.string handle)
  | none => params

def initializeParams (client : Client) : Json :=
  .object [("protocolVersion", .string mcpProtocolVersion), ("capabilities", .object []),
    ("clientInfo", .object [("name", .string "rivect"), ("version", .string client.version)])]

/-- What the server does with the two frames. -/
structure Peer where
  handshake : Exchange
  call : Exchange

structure Conversed where
  session : Session
  peerVersion : Option String
  answered : Except SeamFailure Json

def converse (client : Client) (call : ToolCall) (peer : Peer) : Conversed :=
  let (session, version) :=
    Session.started.request client mcpHandshakeMethod (initializeParams client) peer.handshake
  match version with
  | .error failure => ⟨session, none, .error failure⟩
  | .ok result =>
    let peerVersion := (result.getStr "protocolVersion").map fun version =>
      client.peerVersionDigest (boundedPeerText version 40)
    match negotiate client result with
    | .error failure => ⟨session, peerVersion, .error failure⟩
    | .ok _ =>
      let (session, answered) := session.request client mcpCallMethod call.params peer.call
      ⟨session, peerVersion, answered⟩

/-- What a result says of the operation. -/
inductive Verdict where
  | inputRequired (handle : String)
  | complete (content : Option Json)

def stateHandle (result : Json) : String :=
  ((result.getStr "requestState").map fun handle => boundedPeerText handle 64).getD ""

def readResult (result : Json) : Except SeamFailure Verdict :=
  match (result.getStr "resultType").getD "" with
  | "input_required" =>
    if isBoundedToken (stateHandle result) 64 = false then
      .error (.unreadableVerdict .continuationHandleUnbounded
        "the mcp server asked for input with an unusable continuation handle")
    else if stateHandle result = "" then
      .error (.protocol .continuationWithoutHandle
        "the mcp server asked for input without a continuation handle")
    else .ok (.inputRequired (stateHandle result))
  | "complete" => .ok (.complete (result.get "content"))
  | _ =>
    .error (.unreadableVerdict .unknownResultType
      "the mcp server answered a result type this client does not declare")

def Conversed.verdict (conversed : Conversed) : Except SeamFailure Verdict :=
  conversed.answered >>= readResult

end Rivect.Mcp
