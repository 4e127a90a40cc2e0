import Rivect.Lib.Framing
import Rivect.Lib.Json
import Rivect.Policy.Text
import Rivect.Sharing.Grants

/-! # The live surface of the sharing grants

`src/sharing.rs`: the listeners, the connections of the observers, and the gate before a method
body. The clock, the sockets and the entropy source answer as they like.
-/

namespace Rivect.Sharing

open Lib
open EffectPolicy (Text CR LF isUtf8)

inductive SharingError where
  | entropy
  | socket
  | unknownToken
  | closed (grantId : String) (state : GrantState)
  | unknownAttachment
  | oversize
  | invalidFrame
  | invalidSchema
  | store (source : StoreRefusal)
deriving DecidableEq

structure SharingAttachment where
  attachmentId : String
  grantId : String
  taskId : String
  sessionId : String
  expiresAt : ℕ
deriving DecidableEq

/-- An answer to one frame, before it is written as JSON. -/
inductive Response where
  | refusal (id : Json) (error : SharingError)
  | attached (id : Json) (attachment : SharingAttachment)
  | body (text : String)

/-- The seconds of a system clock, which counts them in an `i64`. -/
abbrev Seconds := { n : ℕ // n < 2 ^ 63 }

/-- What the code uses of other crates: the JSON parser and SHA-256 in hexadecimal. -/
structure Codec where
  parse : Text → Option Json
  digest : String → String

/-! ## Connections -/

inductive Reading where
  | eof
  | bytes (read : Text)
  | wouldBlock
  | interrupted
  | failed
deriving DecidableEq

/-- What an observer's socket answers from now on: to each read, and to each write. -/
structure Stream where
  reads : List Reading
  writes : List Bool

/-- An accepted peer. The last three fields are a record that no branch looks at: the bytes that
arrived, the frames answered so far with their answers, and the token last presented. -/
structure ShareConnection where
  stream : Stream
  pending : Text
  ready : List Text
  attachment : Option String
  arrived : Text
  answered : List (Text × Response)
  presented : Option String

inductive FrameRead where
  | frame (bytes : Text)
  | idle
  | closed
  | oversize
  | failed
deriving DecidableEq

def requestMaxBytes : ℕ := 2 ^ 20

/-- A frame without the carriage return before its separator. -/
def trimFrame (frame : Text) : Text := if frame.getLast? = some CR then frame.dropLast else frame

namespace ShareConnection

def new (stream : Stream) : ShareConnection := ⟨stream, [], [], none, [], [], none⟩

/-- The first complete frame among what is pending. -/
def takeFrame (c : ShareConnection) : Option (Text × ShareConnection) :=
  (firstFrame LF c.pending).map fun (frame, rest) => (trimFrame frame, { c with pending := rest })

def receive (c : ShareConnection) (read : Text) : ShareConnection :=
  { c with pending := c.pending ++ read, arrived := c.arrived ++ read }

/-- The loop of `next_frame` over what the socket answers. -/
def readFrame (c : ShareConnection) : List Reading → ShareConnection × FrameRead
  | [] =>
    match c.takeFrame with
    | some (frame, c) => ({ c with stream := ⟨[], c.stream.writes⟩ }, .frame frame)
    | none =>
      ({ c with stream := ⟨[], c.stream.writes⟩ },
        if requestMaxBytes < c.pending.length then .oversize else .idle)
  | reading :: reads =>
    match c.takeFrame with
    | some (frame, c) => ({ c with stream := ⟨reading :: reads, c.stream.writes⟩ }, .frame frame)
    | none =>
      if requestMaxBytes < c.pending.length then
        ({ c with stream := ⟨reading :: reads, c.stream.writes⟩ }, .oversize)
      else match reading with
        | .eof => ({ c with stream := ⟨reads, c.stream.writes⟩ }, .closed)
        | .bytes read => (c.receive read).readFrame reads
        | .wouldBlock => ({ c with stream := ⟨reads, c.stream.writes⟩ }, .idle)
        | .interrupted => c.readFrame reads
        | .failed => ({ c with stream := ⟨reads, c.stream.writes⟩ }, .failed)

def nextFrame (c : ShareConnection) : ShareConnection × FrameRead :=
  match c.ready with
  | frame :: ready => ({ c with ready := ready }, .frame frame)
  | [] => c.readFrame c.stream.reads

def requeue (c : ShareConnection) (frame : Text) : ShareConnection :=
  { c with ready := frame :: c.ready }

/-- Whether the write of a response went through. -/
def writeFrame (c : ShareConnection) : ShareConnection × Bool :=
  match c.stream.writes with
  | [] => (c, true)
  | written :: writes => ({ c with stream := ⟨c.stream.reads, writes⟩ }, written)

end ShareConnection

/-! ## Grants -/

inductive Accepting where
  | stream (stream : Stream) (nonblocking : Bool)
  | wouldBlock
  | interrupted
  | failed

structure LiveGrant where
  grantId : String
  sessionId : String
  taskId : String
  tokenDigest : String
  expiresAt : ℕ
  state : GrantState
  listener : Option (List Accepting)
  attachments : List String
  connections : List ShareConnection

def isHexDigit (c : Char) : Bool :=
  ('0' ≤ c && c ≤ '9') || ('a' ≤ c && c ≤ 'f') || ('A' ≤ c && c ≤ 'F')

/-- The token has the shape that this build mints. -/
def isTokenShaped (token : String) : Bool :=
  token.toList.length = 64 && token.toList.all isHexDigit

namespace LiveGrant

def attachmentView (g : LiveGrant) (attachmentId : String) : SharingAttachment :=
  ⟨attachmentId, g.grantId, g.taskId, g.sessionId, g.expiresAt⟩

def closed (g : LiveGrant) : SharingError := .closed g.grantId g.state

/-- Refuses once the grant is no longer live; expiry is recorded before it refuses. -/
def ensureLive (owners : Owners) (rows : Rows) (g : LiveGrant) (now : Seconds) :
    Rows × LiveGrant × Except SharingError Unit :=
  match g.state with
  | .opened =>
    if now.val < g.expiresAt then (rows, g, .ok ())
    else
      let g := { g with state := .expired, listener := none }
      match expireSharingGrant owners rows g.grantId now with
      | .ok (rows, _) => (rows, g, .error g.closed)
      | .error (.grantClosed _ state) =>
        let g := { g with state := state }
        (rows, g, .error g.closed)
      | .error source => (rows, g, .error (.store source))
  | _ => (rows, g, .error g.closed)

def exchangeToken (codec : Codec) (owners : Owners) (rows : Rows) (g : LiveGrant)
    (token : String) (now : Seconds) (entropy : Option String) :
    Rows × LiveGrant × Except SharingError SharingAttachment :=
  if isTokenShaped token = false ∨ g.tokenDigest ≠ codec.digest token then
    (rows, g, .error .unknownToken)
  else match g.ensureLive owners rows now with
    | (rows, g, .error error) => (rows, g, .error error)
    | (rows, g, .ok ()) =>
      match entropy with
      | none => (rows, g, .error .entropy)
      | some attachmentId =>
        (rows, { g with attachments := g.attachments.insert attachmentId },
          .ok (g.attachmentView attachmentId))

def verifyAttachment (owners : Owners) (rows : Rows) (g : LiveGrant) (attachmentId : String)
    (now : Seconds) : Rows × LiveGrant × Except SharingError Unit :=
  match g.ensureLive owners rows now with
  | (rows, g, .error error) => (rows, g, .error error)
  | (rows, g, .ok ()) =>
    (rows, g, if attachmentId ∈ g.attachments then .ok () else .error .unknownAttachment)

/-- An attachment leaves the set with the connection that held it. -/
def release (g : LiveGrant) (attachment : Option String) : LiveGrant :=
  { g with attachments := g.attachments.filter fun id => some id ≠ attachment }

end LiveGrant

/-! ## The gate -/

/-- What one pass of the loop of a connection meets: the turn's clock, twice, the work clock, the
entropy source, and the answer of a method body, if one is run. -/
structure Tick where
  checked : ℕ
  spent : ℕ
  now : Seconds
  entropy : Option String
  body : String

/-- What must not happen unseen: a grant opens or closes, an attachment is granted, or a method
body runs. -/
inductive Event where
  | opened (grantId token : String) (expiresAt : ℕ)
  | closed (grantId : String) (state : GrantState)
  | attached (grantId token : String) (now : Seconds)
  | ran (g : LiveGrant) (presented : Option String) (now : Seconds)

/-- The grant that an event is about. -/
def Event.grantId : Event → String
  | .opened grantId _ _ => grantId
  | .closed grantId _ => grantId
  | .attached grantId _ _ => grantId
  | .ran g _ _ => g.grantId

/-- The closing of a grant that was open before. -/
def closing (before after : LiveGrant) : List Event :=
  if before.state = .opened ∧ after.state ≠ .opened then [.closed before.grantId after.state]
  else []

/-- What the gate leaves behind: the rows, the grant, the connection, its answer, whether the
connection stays, and what happened. -/
structure Answer where
  rows : Rows
  grant : LiveGrant
  connection : ShareConnection
  response : Response
  keep : Bool
  events : List Event

def sharingAttachMethod : String := "sharing.attach"

/-- `answer`, the gate before any method body. -/
def answer (codec : Codec) (owners : Owners) (rows : Rows) (g : LiveGrant) (c : ShareConnection)
    (frame : Text) (t : Tick) : Answer :=
  match codec.parse frame with
  | none => ⟨rows, g, c, .refusal .null .invalidFrame, false, []⟩
  | some parsed =>
    let id := (parsed.get "id").getD .null
    let params := parsed.get "params"
    if parsed.getStr "method" = some sharingAttachMethod then
      if (params.bind (·.get "schema_version")).bind Json.asU64 ≠ some 1 then
        ⟨rows, g, c, .refusal id .invalidSchema, false, []⟩
      else
        let token := (params.bind (·.getStr "token")).getD ""
        let c := { c with presented := some token }
        match g.exchangeToken codec owners rows token t.now t.entropy with
        | (rows, g, .error error) => ⟨rows, g, c, .refusal id error, false, []⟩
        | (rows, g, .ok attachment) =>
          ⟨rows, g.release c.attachment, { c with attachment := some attachment.attachmentId },
            .attached id attachment, true, [.attached g.grantId token t.now]⟩
    else match c.attachment with
      | none => ⟨rows, g, c, .refusal id .unknownAttachment, false, []⟩
      | some attachment =>
        match g.verifyAttachment owners rows attachment t.now with
        | (rows, g, .error error) => ⟨rows, g, c, .refusal id error, false, []⟩
        | (rows, g, .ok ()) =>
          if isUtf8 frame then
            ⟨rows, g, c, .body t.body, true, [.ran g c.presented t.now]⟩
          else ⟨rows, g, c, .refusal id .invalidFrame, false, []⟩

/-! ## One serving turn -/

def maxFramesPerTurn : ℕ := 3
def maxServeTurn : ℕ := 250
def maxConnections : ℕ := 8

/-- The rows and the budget of a turn, what its clock still answers, the frames it answered, and
what happened in it. -/
structure ServeTurn where
  rows : Rows
  deadline : ℕ
  framesLeft : ℕ
  ticks : List Tick
  served : ℕ
  events : List Event

/-- The turn has frames and time left. -/
def available (framesLeft deadline now : ℕ) : Bool := 0 < framesLeft && now < deadline

/-- The loop of `pump_frames`; its passes end with the ticks of the turn. -/
def pumpFrames (codec : Codec) (owners : Owners) (turn : ServeTurn) (g : LiveGrant)
    (c : ShareConnection) : List Tick → ServeTurn × LiveGrant × ShareConnection × Bool
  | [] => ({ turn with ticks := [] }, g, c, true)
  | t :: ticks =>
    if available turn.framesLeft turn.deadline t.checked then
      match c.nextFrame with
      | (c, .idle) => ({ turn with ticks := ticks }, g, c, true)
      | (c, .closed) => ({ turn with ticks := ticks }, g, c, false)
      | (c, .failed) => ({ turn with ticks := ticks }, g, c, false)
      | (c, .oversize) => ({ turn with ticks := ticks }, g, c.writeFrame.1, false)
      | (c, .frame frame) =>
        if available turn.framesLeft turn.deadline t.spent then
          let a := answer codec owners turn.rows g c frame t
          let turn := { turn with
            rows := a.rows
            framesLeft := turn.framesLeft - 1
            ticks := ticks
            served := turn.served + 1
            events := turn.events ++ closing g a.grant ++ a.events }
          let c := { a.connection with answered := a.connection.answered ++ [(frame, a.response)] }
          match c.writeFrame with
          | (c, false) => (turn, a.grant, c, false)
          | (c, true) =>
            if a.keep then pumpFrames codec owners turn a.grant c ticks
            else (turn, a.grant, c, false)
        else ({ turn with ticks := ticks }, g, c.requeue frame, true)
    else ({ turn with ticks := ticks }, g, c, true)

/-- A connection that is done takes its attachment with it. -/
def pump (codec : Codec) (owners : Owners) (turn : ServeTurn) (g : LiveGrant)
    (c : ShareConnection) : ServeTurn × LiveGrant × Option ShareConnection :=
  match pumpFrames codec owners turn g c turn.ticks with
  | (turn, g, c, true) => (turn, g, some c)
  | (turn, g, c, false) => (turn, g.release c.attachment, none)

/-- The accept loop: the connections, what the listener still answers, and whether it failed. -/
def acceptAll (connections : List ShareConnection) : List Accepting →
    List ShareConnection × List Accepting × Bool
  | [] => (connections, [], false)
  | .stream stream nonblocking :: rest =>
    if maxConnections ≤ connections.length then (connections, rest, false)
    else acceptAll (if nonblocking then connections ++ [.new stream] else connections) rest
  | .wouldBlock :: rest => (connections, rest, false)
  | .interrupted :: rest => acceptAll connections rest
  | .failed :: rest => (connections, rest, true)

/-- Pending peers are accepted; a listener that cannot accept closes for good. -/
def LiveGrant.accept (owners : Owners) (rows : Rows) (g : LiveGrant) : Rows × LiveGrant :=
  match g.state, g.listener with
  | .opened, some listener =>
    match acceptAll g.connections listener with
    | (connections, rest, false) =>
      (rows, { g with connections := connections, listener := some rest })
    | (connections, _, true) =>
      let rows := match failSharingGrant owners rows g.grantId with
        | .ok (rows, _) => rows
        | .error _ => rows
      (rows, { g with connections := connections, state := .failed, listener := none })
  | _, _ => (rows, g)

/-- Every connection is pumped in its order. -/
def pumpAll (codec : Codec) (owners : Owners) (turn : ServeTurn) (g : LiveGrant)
    (kept : List ShareConnection) : List ShareConnection → ServeTurn × LiveGrant
  | [] => (turn, { g with connections := kept })
  | c :: connections =>
    match pump codec owners turn g c with
    | (turn, g, some c) => pumpAll codec owners turn g (kept ++ [c]) connections
    | (turn, g, none) => pumpAll codec owners turn g kept connections

def LiveGrant.serve (codec : Codec) (owners : Owners) (turn : ServeTurn) (g : LiveGrant) :
    ServeTurn × LiveGrant :=
  let (rows, h) := g.accept owners turn.rows
  let turn := { turn with rows := rows, events := turn.events ++ closing g h }
  pumpAll codec owners turn { h with connections := [] } [] h.connections

/-- The grants in the order of their ids, until the turn has nothing left. -/
def serveGrants (codec : Codec) (owners : Owners) (turn : ServeTurn) :
    List LiveGrant → ServeTurn × List LiveGrant
  | [] => (turn, [])
  | g :: grants =>
    match turn.ticks with
    | [] => (turn, g :: grants)
    | t :: ticks =>
      if available turn.framesLeft turn.deadline t.checked then
        let (turn, g) := g.serve codec owners { turn with ticks := ticks }
        let (turn, grants) := serveGrants codec owners turn grants
        (turn, g :: grants)
      else ({ turn with ticks := ticks }, g :: grants)

/-! ## The calls -/

/-- The rows of the store and the live surface. -/
structure Surface where
  rows : Rows
  grants : List LiveGrant

def insertGrant (g : LiveGrant) : List LiveGrant → List LiveGrant
  | [] => [g]
  | h :: grants =>
    if g.grantId = h.grantId then g :: grants
    else if g.grantId < h.grantId then g :: h :: grants
    else h :: insertGrant g grants

def maxGrantSeconds : ℕ := 24 * 60 * 60

/-- A grant is named and its token minted by the entropy source; its socket is bound first. -/
structure Opening where
  grantId : Option String
  token : Option { token : String // isTokenShaped token = true }
  sessionId : String
  taskId : String
  ttlSeconds : ℕ
  now : Seconds
  bound : Option (List Accepting)

inductive Call where
  | open (opening : Opening)
  | revoke (sessionId grantId : String)
  | attach (token : String) (now : Seconds) (entropy : Option String)
  | serve (started : ℕ) (ticks : List Tick)

namespace Surface

def openSharingGrant (codec : Codec) (owners : Owners) (s : Surface) (opening : Opening) :
    Except SharingError (Surface × List Event) := do
  let grantId ← found opening.grantId .entropy
  let token ← found opening.token .entropy
  let ttl := min (max opening.ttlSeconds 1) maxGrantSeconds
  let expiresAt := min (opening.now.val + ttl) (2 ^ 64 - 1)
  let listener ← found opening.bound .socket
  let digest := codec.digest token
  match Sharing.openSharingGrant owners s.rows grantId opening.sessionId opening.taskId digest
      expiresAt with
  | .error source => throw (.store source)
  | .ok rows =>
    let g := ⟨grantId, opening.sessionId, opening.taskId, digest, expiresAt, .opened,
      some listener, [], []⟩
    return (⟨rows, insertGrant g s.grants⟩, [.opened grantId token expiresAt])

/-- The live surface takes over the state of the row. -/
def adopt (grantId : String) (state : GrantState) (g : LiveGrant) : LiveGrant :=
  if g.grantId = grantId then { g with state := state, listener := none } else g

def revokeSharingGrant (owners : Owners) (s : Surface) (sessionId grantId : String) :
    Except SharingError (Surface × List Event) := do
  match Sharing.revokeSharingGrant owners s.rows grantId sessionId with
  | .error source => throw (.store source)
  | .ok (rows, row) =>
    return (⟨rows, s.grants.map (adopt grantId row.state)⟩,
      s.grants.flatMap fun g => closing g (adopt grantId row.state g))

/-- The local exchange: a receipt that no connection owns. -/
def attach (codec : Codec) (owners : Owners) (s : Surface) (token : String) (now : Seconds)
    (entropy : Option String) :
    Surface × List Event × Except SharingError SharingAttachment :=
  if isTokenShaped token = false then (s, [], .error .unknownToken)
  else match s.grants.find? fun g => g.tokenDigest = codec.digest token with
    | none => (s, [], .error .unknownToken)
    | some g =>
      match g.ensureLive owners s.rows now with
      | (rows, h, result) =>
        let s := ⟨rows, s.grants.map fun other => if other.grantId = g.grantId then h else other⟩
        match result, entropy with
        | .error error, _ => (s, closing g h, .error error)
        | .ok (), none => (s, closing g h, .error .entropy)
        | .ok (), some attachmentId =>
          (s, closing g h ++ [.attached g.grantId token now], .ok (h.attachmentView attachmentId))

def serve (codec : Codec) (owners : Owners) (s : Surface) (started : ℕ) (ticks : List Tick) :
    ServeTurn × Surface :=
  let turn : ServeTurn := ⟨s.rows, started + maxServeTurn, maxFramesPerTurn, ticks, 0, []⟩
  let (turn, grants) := serveGrants codec owners turn s.grants
  (turn, ⟨turn.rows, grants⟩)

/-- The surface after a call, and what happened in it; a refused call changes nothing. -/
def after (codec : Codec) (owners : Owners) (s : Surface) : Call → Surface × List Event
  | .open opening =>
    match s.openSharingGrant codec owners opening with
    | .ok done => done
    | .error _ => (s, [])
  | .revoke sessionId grantId =>
    match s.revokeSharingGrant owners sessionId grantId with
    | .ok done => done
    | .error _ => (s, [])
  | .attach token now entropy =>
    match s.attach codec owners token now entropy with
    | (s, events, _) => (s, events)
  | .serve started ticks =>
    match s.serve codec owners started ticks with
    | (turn, s) => (s, turn.events)

/-- The surface and the whole log after a run of calls, each under its own task table. -/
def run (codec : Codec) (s : Surface) : List (Owners × Call) → Surface × List Event
  | [] => (s, [])
  | (owners, call) :: calls =>
    let (s, events) := s.after codec owners call
    let (s, later) := s.run codec calls
    (s, events ++ later)

end Surface

end Rivect.Sharing
