import Mathlib.Data.List.Infix
import Rivect.Providers.Responses
import Rivect.TaskStore.Tasks

/-! # The Messages dialect

`src/providers/anthropic.rs`: the reduction of a stream to one message, the replay decision with its
lineages, and a send with its one corrected leg. Credentials, listings, the clock, the bytes of the
transport and the parser of server-sent events are the surroundings of a send.
-/

namespace Rivect.Providers.Messages

open Lib Broker
open Responses (Codec LineageKey ReplyError SseEvent Stream boundedReason escapedControls
  fromReported lineageKey)

/-- The assistant blocks captured under one lineage, bound to the model that minted them. -/
structure ThinkingLineage where
  model : String
  blocks : List Json

/-- The blocks that a request replays, and whether the drop policy rides it. -/
structure RequestBinding where
  replay : List Json
  dropBlock : Bool

inductive BlockKind where
  | text
  | tool
  | thinking
  | redactedThinking
deriving DecidableEq

structure Block where
  kind : BlockKind
  text : String := ""
  name : String := ""
  args : String := ""
  thinking : String := ""
  signature : String := ""
  redacted : Option Json := none

/-- The open content blocks by their index, and what the closed ones and the other events left. -/
structure StreamState where
  started : Bool := false
  terminal : Bool := false
  text : String := ""
  toolCalls : List ToolCall := []
  blocks : List (ℕ × Block) := []
  inputTokens : Option ℕ := none
  outputTokens : Option ℕ := none
  cacheReadTokens : Option ℕ := none
  cacheWriteTokens : Option ℕ := none
  stopReason : Option String := none
  thinking : List Json := []
  transformations : ℕ := 0

def CLASSIFIED_STOP_REASONS : List String :=
  ["end_turn", "max_tokens", "stop_sequence", "tool_use", "refusal"]

/-! ## Peer texts -/

def violation (connection reason : String) : ReplyError := .streamViolation connection reason

def numberText : Json.Number → String
  | .unsigned n => toString n
  | .negative n => "-" ++ toString n
  | .float literal => literal

/-- How a member reads as a reason; structure is not prose. -/
def scalarText : Json → Option String
  | .string text => some (escapedControls text)
  | .number n => some (numberText n)
  | .bool b => some (toString b)
  | _ => none

def payloadReason (payload : Json) : String :=
  (["message", "status", "code"].findSome? fun field => (payload.get field).bind scalarText).getD
    "unclassified"

def trim (text : String) : String :=
  String.ofList ((text.toList.dropWhile isWhiteSpace).reverse.dropWhile isWhiteSpace).reverse

def U64_MAX : ℕ := 2 ^ 64 - 1

def saturatingAdd (a b : ℕ) : ℕ := min (a + b) U64_MAX

/-! ## The events of a message -/

section Events

variable (codec : Codec) (connection : String)

/-- The kind that an entry of the transformations names. -/
def transformationKind (entry : Json) : Option String :=
  entry.asStr.orElse fun _ => ((entry.get "type").orElse fun _ => entry.get "name").bind Json.asStr

def transformationsIn (payload : Json) : Except ReplyError ℕ :=
  match payload.get "input_transformations" with
  | none => .ok 0
  | some value => do
    let entries ← found value.asArray
      (violation connection "input_transformations is not an array")
    return entries.countP fun entry =>
      transformationKind entry = some "prefix_binding_mismatch" ||
        transformationKind entry = some "model_binding_mismatch"

/-- The token counts of a starting message. -/
def startUsage (state : StreamState) (message : Json) : Except ReplyError StreamState :=
  match message.get "usage" with
  | none => .ok state
  | some usage =>
    match usage.get "input_tokens" with
    | none => .ok state
    | some input => do
      let tokens ← found input.asU64
        (violation connection "message_start input_tokens is not a token count")
      return { state with
        inputTokens := some tokens
        cacheReadTokens := (usage.get "cache_read_input_tokens").bind Json.asU64
        cacheWriteTokens := (usage.get "cache_creation_input_tokens").bind Json.asU64 }

def onMessageStart (state : StreamState) (payload : Json) : Except ReplyError StreamState := do
  require (state.started = false) (violation connection "stream carried a duplicate message_start")
  let message ← found ((payload.get "message").filter Json.isObject)
    (violation connection "message_start carries no message object")
  let state ← startUsage connection { state with started := true } message
  let inMessage ← transformationsIn connection message
  let inPayload ← transformationsIn connection payload
  return { state with transformations := saturatingAdd inMessage inPayload }

/-- The entry that a block of some type opens with. -/
def blockEntry (kind : String) (block : Json) : Except ReplyError Block :=
  match kind with
  | "text" => .ok { kind := .text, text := (block.getStr "text").getD "" }
  | "tool_use" => do
    let name ← found (block.getStr "name")
      (violation connection "tool_use block carries no name")
    return { kind := .tool, name := name }
  | "thinking" => .ok
      { kind := .thinking
        thinking := (block.getStr "thinking").getD ""
        signature := (block.getStr "signature").getD "" }
  | "redacted_thinking" => .ok { kind := .redactedThinking, redacted := some block }
  | other => .error (.incompatibleOutput connection
      (boundedReason ("unsupported content block type " ++ other)))

def onContentBlockStart (state : StreamState) (payload : Json) :
    Except ReplyError StreamState := do
  require (state.started = true)
    (violation connection "content block started before message_start")
  let index ← found ((payload.get "index").bind Json.asU64)
    (violation connection "content block carries no index")
  let block ← found ((payload.get "content_block").filter Json.isObject)
    (violation connection "content block start carries no block")
  require ((state.blocks.lookup index).isNone)
    (violation connection "content block index started twice")
  let kind ← found (block.getStr "type") (violation connection "content block carries no type")
  let entry ← blockEntry connection kind block
  return { state with blocks := (index, entry) :: state.blocks }

/-- What a delta adds to its block. -/
def feed (block : Block) (delta : Json) (deltaType : String) : Except ReplyError Block :=
  match block.kind, deltaType with
  | .text, "text_delta" => do
    let text ← found (delta.getStr "text") (violation connection "text delta carries no text")
    return { block with text := block.text ++ text }
  | .tool, "input_json_delta" => do
    let part ← found (delta.getStr "partial_json")
      (violation connection "tool delta carries no partial_json")
    return { block with args := block.args ++ part }
  | .thinking, "thinking_delta" => do
    let thinking ← found (delta.getStr "thinking")
      (violation connection "thinking delta carries no thinking")
    return { block with thinking := block.thinking ++ thinking }
  | .thinking, "signature_delta" => do
    let signature ← found (delta.getStr "signature")
      (violation connection "signature delta carries no signature")
    return { block with signature := block.signature ++ signature }
  | .redactedThinking, _ => .ok block
  | _, _ => .error (violation connection "content block delta does not match its block")

/-- The open blocks with one of them replaced. -/
def replaced (blocks : List (ℕ × Block)) (index : ℕ) (block : Block) : List (ℕ × Block) :=
  blocks.map fun entry => if entry.1 = index then (index, block) else entry

def onContentBlockDelta (state : StreamState) (payload : Json) :
    Except ReplyError StreamState := do
  let index ← found ((payload.get "index").bind Json.asU64)
    (violation connection "content delta carries no index")
  let delta ← found ((payload.get "delta").filter Json.isObject)
    (violation connection "content delta carries no delta object")
  let deltaType ← found (delta.getStr "type") (violation connection "content delta carries no type")
  let block ← found (state.blocks.lookup index)
    (violation connection "content block delta without its start")
  let fed ← feed connection block delta deltaType
  return { state with blocks := replaced state.blocks index fed }

/-- The arguments of a finished tool block. -/
def toolInput (args : String) : Except ReplyError Json :=
  if trim args = "" then .ok (.object [])
  else found (codec.fromStr (trim args)) (violation connection "a tool_use input did not parse")

def closeTool (tools : List String) (state : StreamState) (block : Block) :
    Except ReplyError StreamState := do
  let parsed ← toolInput codec connection block.args
  require (parsed.isObject = true) (violation connection "a tool_use input is not an object")
  require (block.name ∈ tools) (.incompatibleOutput connection
    (boundedReason ("tool_use names undeclared tool " ++ block.name)))
  return { state with toolCalls := state.toolCalls ++ [⟨block.name, parsed.getStr "path"⟩] }

def thinkingBlock (block : Block) : Json :=
  .object [("type", .string "thinking"), ("thinking", .string block.thinking),
    ("signature", .string block.signature)]

/-- What a stopped block leaves. -/
def closeBlock (tools : List String) (state : StreamState) (block : Block) :
    Except ReplyError StreamState :=
  match block.kind with
  | .text => .ok { state with text := state.text ++ block.text }
  | .tool => closeTool codec connection tools state block
  | .thinking =>
    if block.signature = "" then
      .error (violation connection "a thinking block carried no signature")
    else .ok { state with thinking := state.thinking ++ [thinkingBlock block] }
  | .redactedThinking => do
    let value ← found block.redacted
      (violation connection "a redacted_thinking block carried no data")
    return { state with thinking := state.thinking ++ [value] }

def onContentBlockStop (tools : List String) (state : StreamState) (payload : Json) :
    Except ReplyError StreamState := do
  let index ← found ((payload.get "index").bind Json.asU64)
    (violation connection "content block stop carries no index")
  let block ← found (state.blocks.lookup index)
    (violation connection "content block stop without its start")
  closeBlock codec connection tools
    { state with blocks := state.blocks.filter (·.1 ≠ index) } block

/-- The token count that a delta of the message reports. -/
def deltaUsage (state : StreamState) (payload : Json) : Except ReplyError StreamState :=
  match payload.get "usage" with
  | none => .ok state
  | some usage => do
    require (usage.isObject = true)
      (violation connection "message_delta usage is not an object")
    match usage.get "output_tokens" with
    | none => return state
    | some output => do
      let tokens ← found output.asU64
        (violation connection "message_delta output_tokens is not a token count")
      return { state with outputTokens := some tokens }

/-- The stop reason that a delta of the message names. -/
def namedReason (payload : Json) : Option String :=
  (payload.get "delta").bind fun delta => delta.getStr "stop_reason"

def onMessageDelta (state : StreamState) (payload : Json) : Except ReplyError StreamState :=
  deltaUsage connection
    { state with stopReason := (namedReason payload).orElse fun _ => state.stopReason } payload

def onMessageStop (state : StreamState) : Except ReplyError StreamState := do
  require (state.blocks.isEmpty = true)
    (violation connection "message_stop before every content block closed")
  return { state with terminal := true }

/-- Another dialect's chunk on this wire. -/
def chatShaped (payload : Json) : Bool :=
  (payload.get "choices").isSome ||
    ((payload.getStr "object").any fun object => "chat.completion".toList.isPrefixOf object.toList)

def eventName (event : SseEvent) (payload : Json) : String :=
  if event.event = "" then (payload.getStr "type").getD "" else event.event

/-- What an event of some name does. -/
def named (tools : List String) (state : StreamState) (payload : Json) :
    String → Except ReplyError StreamState
  | "message_start" => onMessageStart connection state payload
  | "content_block_start" => onContentBlockStart connection state payload
  | "content_block_delta" => onContentBlockDelta connection state payload
  | "content_block_stop" => onContentBlockStop codec connection tools state payload
  | "message_delta" => onMessageDelta connection state payload
  | "message_stop" => onMessageStop connection state
  | "error" => .error (.providerFailed connection
      (boundedReason (payloadReason ((payload.get "error").getD payload))))
  | _ => .ok state

def onEvent (tools : List String) (state : StreamState) (event : SseEvent) :
    Except ReplyError StreamState := do
  require (state.terminal = false)
    (violation connection "stream carried an event after message_stop")
  let payload ← found (codec.fromStr event.data)
    (violation connection "event payload is not json")
  require (chatShaped payload = false) (.incompatibleOutput connection
    (boundedReason "chat completions chunk on the messages wire"))
  named codec connection tools state payload (eventName event payload)

/-- The loop of `read_stream`, up to its verdict. -/
def streamEvents (tools : List String) (stream : Stream) : Except ReplyError StreamState := do
  let state ← stream.reads.foldlM
    (fun state read => do (← read).foldlM (onEvent codec connection tools) state)
    ({} : StreamState)
  (← stream.finish).foldlM (onEvent codec connection tools) state

def usageOf (state : StreamState) : Except ReplyError UsageDelta :=
  match state.inputTokens, state.outputTokens with
  | some promptTokens, some completionTokens =>
    if U64_MAX < promptTokens + completionTokens then
      .error (violation connection "usage token counts overflow the total")
    else .ok (fromReported promptTokens completionTokens (promptTokens + completionTokens) none
      state.cacheReadTokens state.cacheWriteTokens)
  | _, _ => .ok .unknown

/-- The terminal that the events reduce to. -/
def verdict (state : StreamState) : Except ReplyError ProviderReply := do
  require (state.blocks.isEmpty = true) (violation connection "stream ended mid content block")
  require (state.terminal = true) (.unknownTerminal connection)
  require (state.stopReason.getD "" ∈ CLASSIFIED_STOP_REASONS) (.unknownTerminal connection)
  require (¬ (state.stopReason.getD "" = "tool_use" ∧ state.toolCalls = []))
    (violation connection "tool_use terminal carried no tool call")
  let usage ← usageOf connection state
  return ⟨state.text, state.toolCalls, usage, 0⟩

end Events

/-! ## Lineages -/

/-- What of a contract's catalogue rule a send reads. -/
inductive CatalogRule where
  | keyedListing
  | keyedRouteListing
  | zenmuxClassListing
  | toolUseListing
  | modelsInfo
  | allowlist (ids : List String)
  | seedAndPrefix (routePrefix : String)
deriving DecidableEq

structure Adapter where
  connection : String
  catalog : CatalogRule
  lineages : LineageKey → Option ThinkingLineage
  droppedReasoning : ℕ

def Adapter.new (connection : String) (catalog : CatalogRule) : Adapter :=
  ⟨connection, catalog, fun _ => none, 0⟩

def Adapter.set (adapter : Adapter) (key : LineageKey) (lineage : Option ThinkingLineage) :
    Adapter :=
  { adapter with lineages := Function.update adapter.lineages key lineage }

/-- The replay decision: an unchanged lineage and model replays its captured blocks; a mutation or
a model switch drops the set. -/
def binding (adapter : Adapter) (manifest : Broker.RequestManifest) (model : String) :
    Adapter × RequestBinding :=
  let key := lineageKey manifest
  if manifest.mutationReason.isSome then (adapter.set key none, ⟨[], true⟩)
  else
    match adapter.lineages key with
    | none => (adapter, ⟨[], false⟩)
    | some lineage =>
      if lineage.model = model then (adapter, ⟨lineage.blocks, false⟩)
      else (adapter.set key none, ⟨[], true⟩)

/-- A reply's thinking set is replayed only by the same world, purpose, epoch and model. -/
def commit (adapter : Adapter) (manifest : Broker.RequestManifest) (model : String)
    (blocks : List Json) : Adapter :=
  adapter.set (lineageKey manifest) (if blocks.isEmpty then none else some ⟨model, blocks⟩)

section Sending

variable (codec : Codec) (adapter : Adapter)

def readStream (manifest : Broker.RequestManifest) (model : String) (stream : Stream) :
    Adapter × Except ReplyError ProviderReply :=
  match streamEvents codec adapter.connection manifest.tools stream with
  | .error error => (adapter, .error error)
  | .ok state =>
    match verdict adapter.connection state with
    | .error error => (adapter, .error error)
    | .ok reply =>
      (commit
        { adapter with
          droppedReasoning := saturatingAdd adapter.droppedReasoning state.transformations }
        manifest model state.thinking, .ok reply)

/-! ## The request -/

def MESSAGES_MAX_TOKENS : ℕ := 8192

/-- The replayed assistant turn and the new input. -/
def requestMessages (manifest : Broker.RequestManifest) (replay : List Json) : List Json :=
  (if replay.isEmpty then [] else
    [.object [("role", .string "assistant"), ("content", .array replay)]]) ++
    [.object [("role", .string "user"), ("content", .string manifest.inputs)]]

def withTools (manifest : Broker.RequestManifest) (body : Json) : Json :=
  if manifest.tools.isEmpty then body
  else body.set "tools" (.array (manifest.tools.map fun name =>
    .object [("name", .string name), ("description", .string ""),
      ("input_schema", .object [("type", .string "object")])]))

def withDrop (binding : RequestBinding) (body : Json) : Json :=
  if binding.dropBlock then
    body.set "thinking" (.object [("block_binding",
      .object [("prefix_mismatch_behavior", .string "drop_block")])])
  else body

def requestBody (manifest : Broker.RequestManifest) (fixed : Config.FixedModel)
    (binding : RequestBinding) : Json :=
  withDrop binding (withTools manifest (.object
    [("model", .string fixed.modelId), ("max_tokens", .number (.unsigned MESSAGES_MAX_TOKENS)),
      ("stream", .bool true), ("system", .string manifest.instructions),
      ("messages", .array (requestMessages manifest binding.replay))]))

/-! ## One send -/

/-- A response: its status, the events of its stream, and its body as a refusal reads it. -/
structure Response where
  status : ℕ
  stream : Stream
  failed : Except ReplyError (List UInt8)

def Response.isSuccess (response : Response) : Bool :=
  200 ≤ response.status && response.status < 300

/-- One send's surroundings: the clock and the credential ahead of every gate, the catalogue read,
the recorded route of a model id, and for each leg its clock and its response. -/
structure Surroundings where
  started : Except ReplyError Unit
  token : Except ReplyError Unit
  listing : Except ReplyError (List String)
  routed : String → Bool
  clock : Except ReplyError Unit
  response : Except ReplyError Response
  retryClock : Except ReplyError Unit
  retryResponse : Except ReplyError Response

def unsupported (connection : String) : ReplyError := .before (.unsupportedParameter connection)

def validToolName (name : String) : Bool :=
  1 ≤ name.utf8ByteSize && name.utf8ByteSize ≤ 128 &&
    name.toList.all fun c => c.isAlphanum || c = '_' || c = '-'

def pinCheck (manifest : Broker.RequestManifest) : Except ReplyError Unit :=
  match manifest.model with
  | .fixed fixed => require (fixed.connection = adapter.connection)
      (.before (.dialectMismatch fixed.connection))
  | _ => .ok ()

def effortCheck (manifest : Broker.RequestManifest) : Except ReplyError Unit :=
  match manifest.effort with
  | .fixed _ => .error (unsupported adapter.connection)
  | _ => .ok ()

def admittedListing (around : Surroundings) : Except ReplyError (Option (List String)) :=
  match adapter.catalog with
  | .toolUseListing => around.listing.map some
  | _ => .ok none

/-- The first offered model of a pool that names this connection alone. -/
def autoModel (manifest : Broker.RequestManifest) (around : Surroundings)
    (offered : Option (List String)) : Except ReplyError Config.FixedModel := do
  require (manifest.model = .auto (some [adapter.connection]))
    (.before (.unpinnedModel adapter.connection))
  let models ← offered.elim around.listing .ok
  let modelId ← found models.head? (.before (.unpinnedModel adapter.connection))
  return ⟨adapter.connection, modelId⟩

def sentModel (manifest : Broker.RequestManifest) (around : Surroundings)
    (offered : Option (List String)) : Except ReplyError Config.FixedModel :=
  match manifest.model with
  | .fixed fixed => .ok fixed
  | _ => autoModel adapter manifest around offered

def servesModel (around : Surroundings) (offered : Option (List String)) (model : String) : Bool :=
  match adapter.catalog with
  | .allowlist ids => model ∈ ids
  | .seedAndPrefix routePrefix => routePrefix.toList.isPrefixOf model.toList
  | .keyedRouteListing | .zenmuxClassListing => around.routed model
  | .toolUseListing => offered.any fun models => model ∈ models
  | .keyedListing | .modelsInfo => true

/-- Everything ahead of the replay decision. -/
def gates (manifest : Broker.RequestManifest) (around : Surroundings) :
    Except ReplyError Config.FixedModel := do
  around.started
  around.token
  pinCheck adapter manifest
  effortCheck adapter manifest
  require (manifest.tools.all validToolName) (unsupported adapter.connection)
  let offered ← admittedListing adapter around
  let fixed ← sentModel adapter manifest around offered
  require (servesModel adapter around offered fixed.modelId = true)
    (unsupported adapter.connection)
  return fixed

/-- What one leg puts on the wire. -/
structure Post where
  replay : List Json
  dropBlock : Bool
  body : Json

def postOf (manifest : Broker.RequestManifest) (fixed : Config.FixedModel)
    (binding : RequestBinding) : Post :=
  ⟨binding.replay, binding.dropBlock, requestBody manifest fixed binding⟩

inductive SendError where
  | leg (source : ReplyError)
  | retried (wireRetries : ℕ) (source : ReplyError)

/-- What one send leaves, what it put on the wire and what it answers. -/
structure Sent where
  adapter : Adapter
  posts : List Post
  outcome : Except SendError ProviderReply

def transportStatus (response : Response) : ReplyError :=
  .before (.transport adapter.connection (.status response.status))

/-- The two checks ahead of a post. -/
def sendable (post : Post) (clock : Except ReplyError Unit) : Except ReplyError Unit := do
  Responses.wireBody codec adapter.connection post.body
  clock

def INVALID_SIGNATURE : List UInt8 := "Invalid signature".toUTF8.toList

/-- The permanent error marker of a refused replay. -/
def namesInvalidSignature (body : List UInt8) : Bool := decide (INVALID_SIGNATURE <:+: body)

/-- The corrected leg: the same request without the refused blocks, once. -/
def corrected (manifest : Broker.RequestManifest) (around : Surroundings)
    (fixed : Config.FixedModel) (first : Post) : Sent :=
  let retry := postOf manifest fixed ⟨[], first.dropBlock⟩
  match sendable codec adapter retry around.retryClock with
  | .error error => ⟨adapter, [first], .error (.leg error)⟩
  | .ok _ =>
    match around.retryResponse with
    | .error error => ⟨adapter, [first, retry], .error (.retried 1 error)⟩
    | .ok response =>
      if response.isSuccess then
        let (adapter, outcome) := readStream codec adapter manifest fixed.modelId response.stream
        match outcome with
        | .error error => ⟨adapter, [first, retry], .error (.retried 1 error)⟩
        | .ok reply =>
          ⟨adapter, [first, retry], .ok { reply with wireRetries := reply.wireRetries + 1 }⟩
      else
        ⟨adapter, [first, retry], .error (.retried 1 (transportStatus adapter response))⟩

/-- What a response that is not a success comes to. -/
def refused (manifest : Broker.RequestManifest) (around : Surroundings)
    (fixed : Config.FixedModel) (first : Post) (response : Response) : Sent :=
  if response.status = 400 ∧ first.replay ≠ [] then
    match response.failed with
    | .error error => ⟨adapter, [first], .error (.leg error)⟩
    | .ok failed =>
      if namesInvalidSignature failed then
        corrected codec (adapter.set (lineageKey manifest) none) manifest around fixed first
      else ⟨adapter, [first], .error (.leg (transportStatus adapter response))⟩
  else ⟨adapter, [first], .error (.leg (transportStatus adapter response))⟩

/-- The legs of a send whose replay is decided. -/
def exchanged (manifest : Broker.RequestManifest) (around : Surroundings)
    (fixed : Config.FixedModel) (first : Post) : Sent :=
  match sendable codec adapter first around.clock with
  | .error error => ⟨adapter, [], .error (.leg error)⟩
  | .ok _ =>
    match around.response with
    | .error error => ⟨adapter, [first], .error (.leg error)⟩
    | .ok response =>
      if response.isSuccess then
        let (adapter, outcome) := readStream codec adapter manifest fixed.modelId response.stream
        ⟨adapter, [first], outcome.mapError .leg⟩
      else refused codec adapter manifest around fixed first response

def sendManifest (manifest : Broker.RequestManifest) (around : Surroundings) : Sent :=
  match gates adapter manifest around with
  | .error error => ⟨adapter, [], .error (.leg error)⟩
  | .ok fixed =>
    let (decided, binding) := binding adapter manifest fixed.modelId
    exchanged codec decided manifest around fixed (postOf manifest fixed binding)

end Sending

end Rivect.Providers.Messages
