import Rivect.Broker.Requests
import Rivect.Lib.Json

/-! # The Responses dialect

`src/providers/openai.rs`: the request body with its replayed items, the reduction of a stream to
one terminal, and `complete`. What happens before the post, the bytes of the transport and the
parser of server-sent events are the surroundings of a send.
-/

namespace Rivect.Providers.Responses

open Lib Broker

/-- `LineageKey` and `BlobClaim`: world, purpose and epoch. -/
abbrev LineageKey := String × String × String

inductive ReplyError where
  | before (source : Broker.ProviderError)
  | unsendableRequest (connection reason : String)
  | providerFailed (connection reason : String)
  | unknownTerminal (connection : String)
  | streamViolation (connection reason : String)
  | incompatibleOutput (connection reason : String)
  | reasoningProvenance (connection reason : String)

structure Adapter where
  connection : String
  /-- `contract.reasoning_artifact`: does the recorded peer return the replay artifact? -/
  reasoningArtifact : Bool
  lineages : LineageKey → Option (List Json)
  blobOwner : String → Option LineageKey

/-- A new adapter has no replay set and no claim. -/
def Adapter.new (connection : String) (reasoningArtifact : Bool) : Adapter :=
  ⟨connection, reasoningArtifact, fun _ => none, fun _ => none⟩

/-- `serde_json`: reading a text and the size of a written value. -/
structure Codec where
  fromStr : String → Option Json
  size : Json → Option ℕ

structure SseEvent where
  event : String
  data : String

/-- A response as the loop of `read_stream` meets it: what each read and the parser make of the
next chunk, and what the last pass adds. -/
structure Stream where
  reads : List (Except ReplyError (List SseEvent))
  finish : Except ReplyError (List SseEvent)

/-- One send's surroundings: the pin that credential, catalogue and gates leave, the clock before
the post, and the response. -/
structure Surroundings where
  fixed : Except ReplyError Config.FixedModel
  clock : Except ReplyError Unit
  response : Except ReplyError Stream

/-! ## Peer texts -/

def escapedControls (text : String) : String :=
  text.toList.foldl (fun escaped ch =>
    if ch.toNat ≤ 0x1f ∨ (0x7f ≤ ch.toNat ∧ ch.toNat ≤ 0x9f) then
      escaped ++ "\\u\x7b" ++ String.ofList (Nat.toDigits 16 ch.toNat) ++ "\x7d"
    else escaped.push ch) ""

def REASON_MAX_BYTES : ℕ := 1024

/-- As many leading characters as fit into `left` bytes. -/
def fitting : ℕ → List Char → List Char
  | _, [] => []
  | left, ch :: rest =>
    if ch.utf8Size ≤ left then ch :: fitting (left - ch.utf8Size) rest else []

def boundedReason (reason : String) : String :=
  let reason := escapedControls reason
  if reason.utf8ByteSize ≤ REASON_MAX_BYTES then reason
  else String.ofList (fitting REASON_MAX_BYTES reason.toList)

/-- The first of the members that is a string. -/
def firstStr (value : Json) (fields : List String) : Option String :=
  fields.findSome? value.getStr

def payloadReason (response : Json) : String :=
  ((firstStr response ["code", "message", "reason"]).orElse fun _ =>
    ((response.get "incomplete_details").bind fun details => details.getStr "reason").orElse
      fun _ => (response.get "error").bind fun error => firstStr error ["code", "message"]).getD
        "unclassified"

/-! ## The request -/

def lineageKey (manifest : Broker.RequestManifest) : LineageKey :=
  (manifest.world, manifest.purpose, manifest.epochId)

def EffortLevel.name : Config.EffortLevel → String
  | .minimal => "minimal"
  | .low => "low"
  | .medium => "medium"
  | .high => "high"
  | .xhigh => "xhigh"

/-- The new input of a manifest. -/
def userInput (manifest : Broker.RequestManifest) : Json :=
  .object [("role", .string "user"),
    ("content", .array [.object [("type", .string "input_text"),
      ("text", .string manifest.inputs)]])]

/-- `request_body` up to the members that only some requests carry. -/
def plainBody (adapter : Adapter) (manifest : Broker.RequestManifest)
    (fixed : Config.FixedModel) : Json :=
  let prior := (adapter.lineages (lineageKey manifest)).getD []
  .object [("model", .string fixed.modelId), ("instructions", .string manifest.instructions),
    ("input", .array (prior ++ [userInput manifest])), ("store", .bool false),
    ("stream", .bool true)]

def withInclude (adapter : Adapter) (body : Json) : Json :=
  if adapter.reasoningArtifact then
    body.set "include" (.array [.string "reasoning.encrypted_content"])
  else body

def withEffort (manifest : Broker.RequestManifest) (body : Json) : Json :=
  match manifest.effort with
  | .fixed value => body.set "reasoning" (.object [("effort", .string (EffortLevel.name value))])
  | _ => body

def withTools (manifest : Broker.RequestManifest) (body : Json) : Json :=
  if manifest.tools.isEmpty then body
  else body.set "tools" (.array (manifest.tools.map fun name =>
    .object [("type", .string "function"), ("name", .string name)]))

def requestBody (adapter : Adapter) (manifest : Broker.RequestManifest)
    (fixed : Config.FixedModel) : Json :=
  withTools manifest (withEffort manifest (withInclude adapter (plainBody adapter manifest fixed)))

def wireBody (codec : Codec) (connection : String) (body : Json) : Except ReplyError Unit :=
  match codec.size body with
  | none => .error (.unsendableRequest connection "request body could not serialize")
  | some bytes =>
    if MODEL_WIRE_MAX_BYTES < bytes then
      .error (.unsendableRequest connection ("request body of " ++ toString bytes ++
        " bytes exceeds the " ++ toString MODEL_WIRE_MAX_BYTES ++ " byte wire bound"))
    else .ok ()

/-! ## The stream -/

inductive Terminal where
  | completed (response : Json)
  | failed (reason : String)
  | incomplete (reason : String)

structure StreamState where
  openItems : ℕ
  terminal : Option Terminal

def StreamState.default : StreamState := ⟨0, none⟩

variable (codec : Codec) (adapter : Adapter)

def violation (reason : String) : ReplyError := .streamViolation adapter.connection reason

/-- The `response` object one terminal event's payload must carry. -/
def responsePayload (event : SseEvent) (name : String) : Except ReplyError Json := do
  let payload ← found (codec.fromStr event.data)
    (violation adapter "terminal event payload is not json")
  let response := (payload.get "response").getD payload
  require (response.isObject = true) (violation adapter name)
  return response

/-- The terminal that a `response.completed` payload declares. -/
def completedTerminal (response : Json) : Except ReplyError Terminal :=
  match response.getStr "status" with
  | some "completed" => .ok (.completed response)
  | some "failed" => .ok (.failed (payloadReason response))
  | some "incomplete" => .ok (.incomplete (payloadReason response))
  | some "cancelled" => .ok (.incomplete (payloadReason response))
  | _ => .error (.unknownTerminal adapter.connection)

/-- What one event does to the count of open items, and the terminal it carries. -/
def eventTerminal (state : StreamState) (event : SseEvent) :
    Except ReplyError (ℕ × Option Terminal) :=
  match event.event with
  | "response.output_item.added" => .ok (state.openItems + 1, none)
  | "response.output_item.done" =>
    if state.openItems = 0 then
      .error (violation adapter "output item done event without its added")
    else .ok (state.openItems - 1, none)
  | "response.completed" => do
    let response ← responsePayload codec adapter event "response.completed"
    let terminal ← completedTerminal adapter response
    return (state.openItems, some terminal)
  | "response.failed" => do
    let response ← responsePayload codec adapter event "response.failed"
    return (state.openItems, some (.failed (payloadReason response)))
  | "response.incomplete" => do
    let response ← responsePayload codec adapter event "response.incomplete"
    return (state.openItems, some (.incomplete (payloadReason response)))
  | "error" => do
    let payload ← found (codec.fromStr event.data)
      (violation adapter "error event payload is not json")
    return (state.openItems, some (.failed (payloadReason payload)))
  | _ => .ok (state.openItems, none)

def onEvent (state : StreamState) (event : SseEvent) : Except ReplyError StreamState := do
  let (openItems, terminal) ← eventTerminal codec adapter state event
  match terminal with
  | none => return { state with openItems := openItems }
  | some terminal =>
    if state.terminal.isSome then
      throw (violation adapter "stream carried a duplicate terminal event")
    return ⟨openItems, some terminal⟩

/-- The loop of `read_stream`, up to its verdict. -/
def streamEvents (stream : Stream) : Except ReplyError StreamState := do
  let state ← stream.reads.foldlM
    (fun state read => do (← read).foldlM (onEvent codec adapter) state) StreamState.default
  (← stream.finish).foldlM (onEvent codec adapter) state

/-! ## The completed reply -/

/-- What the loop over the output items has gathered. -/
structure Gathered where
  text : String
  toolCalls : List ToolCall
  blobs : List String

def contentPart (text : String) (part : Json) : Except ReplyError String :=
  match part.getStr "type" with
  | some "output_text" => do
    let partText ← found (part.getStr "text")
      (violation adapter "output_text part carries no text")
    return text ++ partText
  | some "refusal" => .ok (text ++ (part.getStr "refusal").getD "")
  | some _ => .ok text
  | none => .error (violation adapter "message content part without a type")

def messageItem (gathered : Gathered) (item : Json) : Except ReplyError Gathered := do
  let content ← found ((item.get "content").bind Json.asArray)
    (violation adapter "message item carries no content array")
  let text ← content.foldlM (contentPart adapter) gathered.text
  return { gathered with text := text }

def functionCallItem (tools : List String) (gathered : Gathered) (item : Json) :
    Except ReplyError Gathered := do
  let name ← found (item.getStr "name") (violation adapter "function_call item carries no name")
  require (name ∈ tools) (.incompatibleOutput adapter.connection
    (boundedReason ("function_call names undeclared tool " ++ name)))
  let arguments ← found (item.getStr "arguments")
    (violation adapter "function_call item carries no arguments")
  let parsed ← found (codec.fromStr arguments)
    (violation adapter "function_call arguments are not json")
  require (parsed.isObject = true)
    (violation adapter "function_call arguments are not an object")
  return { gathered with
    toolCalls := gathered.toolCalls ++ [⟨name, parsed.getStr "path"⟩] }

def reasoningItem (gathered : Gathered) (item : Json) : Except ReplyError Gathered :=
  if adapter.reasoningArtifact then do
    let blob ← found (item.getStr "encrypted_content") (.reasoningProvenance adapter.connection
      "a reasoning item carried no encrypted_content")
    return { gathered with blobs := gathered.blobs ++ [blob] }
  else if (item.get "encrypted_content").isSome then
    .error (.reasoningProvenance adapter.connection
      "a reasoning item carried an artifact the recorded peer never returns")
  else .ok gathered

/-- A completed terminal carries finished messages and calls only. -/
def finishedItem (itemType : String) (item : Json) : Except ReplyError Unit :=
  if (itemType = "message" ∨ itemType = "function_call") ∧
      item.getStr "status" ≠ some "completed" then
    .error (.streamViolation adapter.connection
      (boundedReason (itemType ++ " item in a completed response is not completed")))
  else .ok ()

def outputItem (tools : List String) (gathered : Gathered) (item : Json) :
    Except ReplyError Gathered := do
  let itemType ← found (item.getStr "type") (violation adapter "output item without a type")
  finishedItem adapter itemType item
  match itemType with
  | "message" => messageItem adapter gathered item
  | "function_call" => functionCallItem codec adapter tools gathered item
  | "reasoning" => reasoningItem adapter gathered item
  | other => .error (.incompatibleOutput adapter.connection
      (boundedReason ("unsupported output item type " ++ other)))

/-- The claims that other lineages hold. -/
def claimCheck (claim : LineageKey) (blob : String) : Except ReplyError Unit :=
  match adapter.blobOwner blob with
  | some owner =>
    if owner = claim then .ok ()
    else .error (.reasoningProvenance adapter.connection
      "the artifact belongs to a different session lineage")
  | none => .ok ()

def fromReported (promptTokens completionTokens totalTokens : ℕ)
    (reasoningTokens cacheReadTokens cacheWriteTokens : Option ℕ) : UsageDelta :=
  if reasoningTokens.isSome ∨ cacheReadTokens.isSome ∨ cacheWriteTokens.isSome then
    .legs
      { promptTokens := some promptTokens
        completionTokens := some completionTokens
        reasoningTokens := reasoningTokens
        cacheReadTokens := cacheReadTokens
        cacheWriteTokens := cacheWriteTokens
        totalTokens := some totalTokens }
  else .exact promptTokens completionTokens totalTokens

def usageOf (response : Json) : Except ReplyError UsageDelta :=
  match response.get "usage" with
  | none => .ok .unknown
  | some usage =>
    let cacheRead := ((usage.get "input_tokens_details").bind (·.get "cached_tokens")).bind
      Json.asU64
    let reasoning := ((usage.get "output_tokens_details").bind (·.get "reasoning_tokens")).bind
      Json.asU64
    match (usage.get "input_tokens").bind Json.asU64, (usage.get "output_tokens").bind Json.asU64,
      (usage.get "total_tokens").bind Json.asU64 with
    | some promptTokens, some completionTokens, some totalTokens =>
      .ok (fromReported promptTokens completionTokens totalTokens reasoning cacheRead none)
    | _, _, _ => .error (violation adapter "response.usage is not a readable token shape")

/-- Under the contract without artifacts a reasoning item never joins a lineage. -/
def admissible (reasoningArtifact : Bool) (item : Json) : Bool :=
  reasoningArtifact || item.getStr "type" != some "reasoning"

/-- The commit of a validated output. -/
def commit (claim : LineageKey) (output : List Json) (blobs : List String) : Adapter :=
  { adapter with
    lineages := fun key =>
      if key = claim then
        some ((adapter.lineages key).getD [] ++
          output.filter (admissible adapter.reasoningArtifact))
      else adapter.lineages key
    blobOwner := fun blob => if blob ∈ blobs then some claim else adapter.blobOwner blob }

/-- The validation of `complete`: everything that can refuse the reply. -/
def validate (manifest : Broker.RequestManifest) (response : Json) :
    Except ReplyError (List Json × Gathered × UsageDelta) := do
  let output ← found ((response.get "output").bind Json.asArray)
    (violation adapter "response.completed carries no output array")
  let gathered ← output.foldlM (outputItem codec adapter manifest.tools) ⟨"", [], []⟩
  gathered.blobs.forM (claimCheck adapter (lineageKey manifest))
  let usage ← usageOf adapter response
  return (output, gathered, usage)

def complete (manifest : Broker.RequestManifest) (response : Json) :
    Adapter × Except ReplyError ProviderReply :=
  match validate codec adapter manifest response with
  | .error error => (adapter, .error error)
  | .ok (output, gathered, usage) =>
    (commit adapter (lineageKey manifest) output gathered.blobs,
      .ok ⟨gathered.text, gathered.toolCalls, usage, 0⟩)

def readStream (manifest : Broker.RequestManifest) (stream : Stream) :
    Adapter × Except ReplyError ProviderReply :=
  match streamEvents codec adapter stream with
  | .error error => (adapter, .error error)
  | .ok state =>
    if 0 < state.openItems then (adapter, .error (violation adapter "stream ended mid output item"))
    else
      match state.terminal with
      | some (.completed response) => complete codec adapter manifest response
      | some (.failed reason) | some (.incomplete reason) =>
        (adapter, .error (.providerFailed adapter.connection (boundedReason reason)))
      | none => (adapter, .error (.unknownTerminal adapter.connection))

/-! ## One send -/

/-- Everything before the post: the pin, the body, its size and the clock. -/
def prepared (manifest : Broker.RequestManifest) (around : Surroundings) :
    Except ReplyError Json := do
  let fixed ← around.fixed
  let body := requestBody adapter manifest fixed
  wireBody codec adapter.connection body
  around.clock
  return body

/-- What one send leaves, what it put on the wire and what it answers. -/
structure Sent where
  adapter : Adapter
  posted : Option Json
  outcome : Except ReplyError ProviderReply

def send (manifest : Broker.RequestManifest) (around : Surroundings) : Sent :=
  match prepared codec adapter manifest around with
  | .error error => ⟨adapter, none, .error error⟩
  | .ok body =>
    match around.response with
    | .error error => ⟨adapter, some body, .error error⟩
    | .ok stream =>
      let (adapter, outcome) := readStream codec adapter manifest stream
      ⟨adapter, some body, outcome⟩

end Rivect.Providers.Responses
