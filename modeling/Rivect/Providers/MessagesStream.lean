import Rivect.Providers.Messages

/-! # What a Messages stream reduces to

The events of a stream as frames, the round that each index has open, and the message that an
accepted stream spells: every block is fed only while it is open and counts once, where it stops.
-/

namespace Rivect.Providers.Messages

open Lib Broker List Option
open Responses (Codec ReplyError SseEvent Stream)

/-! ## Frames -/

/-- What an event says, once its payload is read. -/
inductive Frame where
  | start
  | opens (index : ℕ) (block : Json)
  | delta (index : ℕ) (delta : Json)
  | stops (index : ℕ)
  | reason (payload : Json)
  | stop
  | other

/-- The index of a block event. -/
def indexOf (payload : Json) : Option ℕ := (payload.get "index").bind Json.asU64

def frameOf (payload : Json) : String → Option Frame
  | "message_start" => some .start
  | "content_block_start" =>
    (indexOf payload).bind fun index =>
      ((payload.get "content_block").filter Json.isObject).map fun block => .opens index block
  | "content_block_delta" =>
    (indexOf payload).bind fun index =>
      ((payload.get "delta").filter Json.isObject).map fun delta => .delta index delta
  | "content_block_stop" => (indexOf payload).map .stops
  | "message_delta" => some (.reason payload)
  | "message_stop" => some .stop
  | "error" => none
  | _ => some .other

/-- The frame of an event, unless its payload is none of this dialect. -/
def framed (codec : Codec) (event : SseEvent) : Option Frame :=
  (codec.fromStr event.data).bind fun payload =>
    if chatShaped payload then none else frameOf payload (eventName event payload)

/-! ## Rounds -/

/-- A block as it was opened, and what it was fed since. -/
structure Round where
  block : Json
  deltas : List Json

namespace Round

def kind (round : Round) : Option String := round.block.getStr "type"

/-- A round fed once more. -/
def fed (round : Round) (delta : Json) : Round := ⟨round.block, round.deltas ++ [delta]⟩

/-- The member of each delta, after what the block opened with. -/
def joined (round : Round) (opening member : String) : String :=
  (round.deltas.map fun delta => (delta.getStr member).getD "").foldl (· ++ ·) opening

/-- The text of a text block. -/
def text (round : Round) : String :=
  if round.kind = some "text" then round.joined ((round.block.getStr "text").getD "") "text"
  else ""

/-- The arguments of a tool block, as they arrived. -/
def args (round : Round) : String := round.joined "" "partial_json"

def input (codec : Codec) (round : Round) : Option Json :=
  if trim round.args = "" then some (.object []) else codec.fromStr (trim round.args)

/-- The call of a tool block. -/
def call (codec : Codec) (round : Round) : Option ToolCall :=
  if round.kind = some "tool_use" then
    some ⟨(round.block.getStr "name").getD "", (round.input codec).bind (·.getStr "path")⟩
  else none

/-- A tool block names a declared tool and its input is an object. -/
def Callable (codec : Codec) (tools : List String) (round : Round) : Prop :=
  round.kind = some "tool_use" → (∃ name ∈ tools, round.block.getStr "name" = some name) ∧
    ∃ input, round.input codec = some input ∧ input.isObject = true

end Round

/-- What one frame makes of the round that an index has open. -/
def stepRound (index : ℕ) (round : Option Round) : Frame → Option Round
  | .opens i block => if i = index then some ⟨block, []⟩ else round
  | .delta i delta => if i = index then round.map (·.fed delta) else round
  | .stops i => if i = index then none else round
  | _ => round

/-- The round that an index has open after some frames. -/
def openRound (index : ℕ) (frames : List Frame) : Option Round :=
  frames.foldl (stepRound index) none

/-- The round that a frame stops. -/
def closing (before : List Frame) : Frame → List (ℕ × Round)
  | .stops index => ((openRound index before).map (index, ·)).toList
  | _ => []

/-- The rounds that stop among the later frames, in the order in which they stop. -/
def closedAfter (before : List Frame) : List Frame → List (ℕ × Round)
  | [] => []
  | frame :: rest => closing before frame ++ closedAfter (before ++ [frame]) rest

def closed (frames : List Frame) : List (ℕ × Round) := closedAfter [] frames

/-- The blocks that the frames open. -/
def opened (frames : List Frame) : List (ℕ × Json) :=
  frames.filterMap fun
    | .opens index block => some (index, block)
    | _ => none

def reasonAfter (reason : Option String) : Frame → Option String
  | .reason payload => (namedReason payload).orElse fun _ => reason
  | _ => reason

/-- The stop reason that the last frame with one names. -/
def lastReason (frames : List Frame) : Option String := frames.foldl reasonAfter none

/-- What stands under one index. -/
def standing {α : Type} (index : ℕ) (entries : List (ℕ × α)) : List α :=
  entries.filterMap fun entry => if entry.1 = index then some entry.2 else none

/-- A delta belongs to the kind of its block. -/
inductive Matches (block delta : Json) : Prop
  | text (hblock : block.getStr "type" = some "text")
      (hdelta : delta.getStr "type" = some "text_delta")
      (hmember : (delta.getStr "text").isSome)
  | tool (hblock : block.getStr "type" = some "tool_use")
      (hdelta : delta.getStr "type" = some "input_json_delta")
      (hmember : (delta.getStr "partial_json").isSome)
  | thinking (hblock : block.getStr "type" = some "thinking")
      (hdelta : delta.getStr "type" = some "thinking_delta")
      (hmember : (delta.getStr "thinking").isSome)
  | signature (hblock : block.getStr "type" = some "thinking")
      (hdelta : delta.getStr "type" = some "signature_delta")
      (hmember : (delta.getStr "signature").isSome)
  | redacted (hblock : block.getStr "type" = some "redacted_thinking")

/-- A frame that may follow some others. -/
def Follows (codec : Codec) (tools : List String) (before : List Frame) : Frame → Prop
  | .start => .start ∉ before
  | .opens index _ => .start ∈ before ∧ openRound index before = none
  | .delta index delta => ∃ round, openRound index before = some round ∧ Matches round.block delta
  | .stops index => ∃ round, openRound index before = some round ∧ round.Callable codec tools
  | .stop => ∀ index, openRound index before = none
  | .reason _ | .other => True

/-- Every frame may follow those before it, and none follows the stop of the message. -/
def Disciplined (codec : Codec) (tools : List String) (frames : List Frame) : Prop :=
  ∀ before frame after, frames = before ++ frame :: after →
    .stop ∉ before ∧ Follows codec tools before frame

/-- The message that the frames spell. -/
structure Complete (codec : Codec) (tools : List String) (frames : List Frame)
    (reply : ProviderReply) : Prop where
  ends : ∃ front, frames = front ++ [.stop]
  disciplined : Disciplined codec tools frames
  once : ∀ index, (standing index (closed frames)).map Round.block = standing index (opened frames)
  classified : ∃ reason ∈ CLASSIFIED_STOP_REASONS, lastReason frames = some reason
  text : reply.text = String.join ((closed frames).map fun entry => entry.2.text)
  calls : reply.toolCalls = (closed frames).filterMap fun entry => entry.2.call codec

/-! ## One frame more -/

section Snoc

variable {codec : Codec} {tools : List String} {frames : List Frame} {frame : Frame} {index : ℕ}

theorem openRound_snoc : openRound index (frames ++ [frame]) =
    stepRound index (openRound index frames) frame := foldl_append

theorem openRound_opens {i : ℕ} {block : Json} : openRound index (frames ++ [.opens i block]) =
    if i = index then some ⟨block, []⟩ else openRound index frames := openRound_snoc

theorem openRound_delta {i : ℕ} {delta : Json} : openRound index (frames ++ [.delta i delta]) =
    if i = index then (openRound index frames).map (·.fed delta)
    else openRound index frames := openRound_snoc

theorem openRound_stops {i : ℕ} : openRound index (frames ++ [.stops i]) =
    if i = index then none else openRound index frames := openRound_snoc

theorem closedAfter_snoc (before : List Frame) :
    closedAfter before (frames ++ [frame]) =
      closedAfter before frames ++ closing (before ++ frames) frame := by
  induction frames generalizing before with
  | nil =>
    rw [nil_append, closedAfter, closedAfter, closedAfter, append_nil, append_nil,
      nil_append]
  | cons first rest ih =>
    rw [cons_append, closedAfter, closedAfter, ih, append_assoc, append_assoc,
      singleton_append]

theorem closed_snoc : closed (frames ++ [frame]) = closed frames ++ closing frames frame :=
  closedAfter_snoc []

theorem closed_stops {round : Round} (h : openRound index frames = some round) :
    closed (frames ++ [.stops index]) = closed frames ++ [(index, round)] := by
  rw [closed_snoc, closing, h]
  rfl

theorem opened_snoc : opened (frames ++ [frame]) = opened frames ++ opened [frame] :=
  filterMap_append

theorem lastReason_snoc :
    lastReason (frames ++ [frame]) = reasonAfter (lastReason frames) frame := foldl_append

theorem disciplined_snoc_iff : Disciplined codec tools (frames ++ [frame]) ↔
    Disciplined codec tools frames ∧ .stop ∉ frames ∧ Follows codec tools frames frame := by
  constructor
  · intro h
    refine ⟨fun before earlier after hsplit => h before earlier (after ++ [frame]) ?_,
      h frames frame [] rfl⟩
    rw [hsplit, append_assoc, cons_append]
  · rintro ⟨h, hframe⟩ before earlier after hsplit
    rcases eq_nil_or_concat after with rfl | ⟨rest, last, rfl⟩
    · obtain ⟨rfl, hsame⟩ := append_inj' hsplit rfl
      obtain rfl := singleton_inj.mp hsame
      exact hframe
    · rw [concat_eq_append, ← cons_append, ← append_assoc] at hsplit
      obtain ⟨hfront, -⟩ := append_inj' hsplit rfl
      exact h before earlier rest hfront

theorem ends_of_disciplined (h : Disciplined codec tools frames) (hstop : .stop ∈ frames) :
    ∃ front, frames = front ++ [.stop] := by
  rcases eq_nil_or_concat frames with rfl | ⟨front, last, rfl⟩
  · cases hstop
  · rw [concat_eq_append] at h hstop ⊢
    obtain ⟨-, hfront, -⟩ := disciplined_snoc_iff.mp h
    rcases mem_append.mp hstop with hbefore | hlast
    · exact absurd hbefore hfront
    · rw [← mem_singleton.mp hlast]
      exact ⟨front, rfl⟩

theorem standing_snoc {α : Type} (entries : List (ℕ × α)) (i : ℕ) (entry : α) :
    standing index (entries ++ [(i, entry)]) =
      standing index entries ++ if i = index then [entry] else [] := by
  unfold standing
  rw [filterMap_append]
  by_cases hi : i = index
  · simp [hi]
  · simp [hi]

/-- The blocks opened under an index are those that stopped under it and the one still open. -/
theorem standing_opened (h : Disciplined codec tools frames) (index : ℕ) :
    (standing index (closed frames)).map Round.block ++
        ((openRound index frames).map Round.block).toList = standing index (opened frames) := by
  induction frames using reverseRecOn with
  | nil => rfl
  | append_singleton frames frame ih =>
    obtain ⟨hfront, -, hfollows⟩ := disciplined_snoc_iff.mp h
    have ih := ih hfront
    rw [closed_snoc, opened_snoc]
    cases frame with
    | opens i block =>
      obtain ⟨-, hnone⟩ := hfollows
      change (standing index (closed frames ++ [])).map _ ++ _ =
        standing index (opened frames ++ [(i, block)])
      rw [standing_snoc, append_nil, ← ih, openRound_opens]
      by_cases hi : i = index
      · subst hi
        simp [hnone]
      · simp [hi]
    | delta i delta =>
      change (standing index (closed frames ++ [])).map _ ++ _ =
        standing index (opened frames ++ [])
      rw [append_nil, append_nil, ← ih, openRound_delta]
      by_cases hi : i = index
      · rw [if_pos hi, Option.map_map]
        rfl
      · rw [if_neg hi]
    | stops i =>
      obtain ⟨round, hround, -⟩ := hfollows
      rw [openRound_stops, closing, hround]
      change (standing index (closed frames ++ [(i, round)])).map _ ++ _ =
        standing index (opened frames ++ [])
      rw [standing_snoc, append_nil, ← ih]
      by_cases hi : i = index
      · subst hi
        simp [hround]
      · simp [hi]
    | start | reason | stop | other =>
      change (standing index (closed frames ++ [])).map _ ++ _ =
        standing index (opened frames ++ [])
      rw [append_nil, append_nil, ← ih, openRound_snoc]
      rfl

end Snoc

/-! ## Open blocks -/

section Blocks

variable {blocks : List (ℕ × Block)} {index key : ℕ} {block : Block}

theorem lookup_cons_ne {held : Block} {i : ℕ} (h : key ≠ i) :
    List.lookup key ((i, held) :: blocks) = blocks.lookup key := by
  rw [lookup_cons, beq_false_of_ne h]

theorem lookup_replaced : (replaced blocks index block).lookup key =
    if key = index then (blocks.lookup key).map fun _ => block else blocks.lookup key := by
  induction blocks with
  | nil => simp [replaced]
  | cons entry blocks ih =>
    obtain ⟨i, held⟩ := entry
    unfold replaced at ih ⊢
    rw [map_cons]
    by_cases hentry : key = i
    · subst hentry
      by_cases hkey : key = index
      · simp [hkey]
      · simp [hkey]
    · rw [lookup_cons_ne hentry]
      by_cases hi : i = index
      · rw [if_pos hi, lookup_cons_ne (hi ▸ hentry), ih]
      · rw [if_neg hi, lookup_cons_ne hentry, ih]

theorem lookup_filter : (blocks.filter (·.1 ≠ index)).lookup key =
    if key = index then none else blocks.lookup key := by
  induction blocks with
  | nil => simp
  | cons entry blocks ih =>
    obtain ⟨i, held⟩ := entry
    by_cases hi : i = index
    · rw [filter_cons_of_neg (by simpa using hi), ih]
      by_cases hkey : key = index
      · rw [if_pos hkey, if_pos hkey]
      · rw [if_neg hkey, if_neg hkey, lookup_cons_ne (hi ▸ hkey)]
    · rw [filter_cons_of_pos (by simpa using hi)]
      by_cases hentry : key = i
      · subst hentry
        simp [hi]
      · rw [lookup_cons_ne hentry, lookup_cons_ne hentry, ih]

end Blocks

/-- The type that a block of some kind was opened with. -/
def BlockKind.type : BlockKind → String
  | .text => "text"
  | .tool => "tool_use"
  | .thinking => "thinking"
  | .redactedThinking => "redacted_thinking"

/-- An open block holds what its round was fed. -/
structure Holds (round : Round) (block : Block) : Prop where
  kind : round.kind = some block.kind.type
  text : block.kind = .text → block.text = round.text
  name : block.kind = .tool → round.block.getStr "name" = some block.name
  args : block.kind = .tool → block.args = round.args

variable {codec : Codec} {connection : String} {tools : List String}

namespace Round

variable {round : Round} {delta : Json} {piece : String}

theorem joined_fed {opening member : String} (h : delta.getStr member = some piece) :
    (round.fed delta).joined opening member = round.joined opening member ++ piece := by
  unfold joined fed
  rw [map_append, foldl_append, map_singleton, h]
  rfl

theorem text_nil {block : Json} (h : block.getStr "type" = some "text") :
    (⟨block, []⟩ : Round).text = (block.getStr "text").getD "" := if_pos h

theorem text_fed (hkind : round.kind = some "text") (h : delta.getStr "text" = some piece) :
    (round.fed delta).text = round.text ++ piece := by
  have hround : round.text = round.joined ((round.block.getStr "text").getD "") "text" :=
    if_pos hkind
  rw [hround, ← joined_fed h]
  exact if_pos hkind

end Round

theorem holds_blockEntry {kind : String} {block : Json} {entry : Block}
    (hkind : block.getStr "type" = some kind)
    (h : blockEntry connection kind block = .ok entry) : Holds ⟨block, []⟩ entry := by
  unfold blockEntry at h
  split at h
  · cases h
    exact ⟨hkind, fun _ => (Round.text_nil hkind).symm, fun hother => (by cases hother),
      fun hother => (by cases hother)⟩
  · obtain ⟨name, hname, h⟩ := bind_eq_ok h
    cases h
    exact ⟨hkind, fun hother => (by cases hother), fun _ => found_eq_ok hname, fun _ => rfl⟩
  · cases h
    exact ⟨hkind, fun hother => (by cases hother), fun hother => (by cases hother),
      fun hother => (by cases hother)⟩
  · cases h
    exact ⟨hkind, fun hother => (by cases hother), fun hother => (by cases hother),
      fun hother => (by cases hother)⟩
  · cases h

theorem feed_holds {round : Round} {block fed : Block} {delta : Json} {deltaType : String}
    (hholds : Holds round block) (htype : delta.getStr "type" = some deltaType)
    (h : feed connection block delta deltaType = .ok fed) :
    Matches round.block delta ∧ Holds (round.fed delta) fed := by
  have hkind : round.block.getStr "type" = some block.kind.type := hholds.kind
  unfold feed at h
  split at h
  case h_1 htext =>
    obtain ⟨text, hmember, h⟩ := bind_eq_ok h
    have hmember := found_eq_ok hmember
    cases h
    rw [htext] at hkind
    refine ⟨.text hkind htype (isSome_of_eq_some hmember),
      hholds.kind, fun _ => ?_, fun hother => ?_, fun hother => ?_⟩
    · rw [Round.text_fed hkind hmember, ← hholds.text htext]
    · exact hholds.name hother
    · rw [htext] at hother
      cases hother
  case h_2 htool =>
    obtain ⟨part, hmember, h⟩ := bind_eq_ok h
    have hmember := found_eq_ok hmember
    cases h
    rw [htool] at hkind
    refine ⟨.tool hkind htype (isSome_of_eq_some hmember),
      hholds.kind, fun hother => ?_, fun hother => hholds.name hother, fun _ => ?_⟩
    · rw [htool] at hother
      cases hother
    · change block.args ++ part = (round.fed delta).joined "" "partial_json"
      rw [Round.joined_fed hmember, hholds.args htool]
      rfl
  case h_3 hthinking =>
    obtain ⟨thinking, hmember, h⟩ := bind_eq_ok h
    have hmember := found_eq_ok hmember
    cases h
    rw [hthinking] at hkind
    refine ⟨.thinking hkind htype (isSome_of_eq_some hmember),
      hholds.kind, fun hother => ?_, fun hother => ?_, fun hother => ?_⟩
    all_goals
      rw [hthinking] at hother
      cases hother
  case h_4 hthinking =>
    obtain ⟨signature, hmember, h⟩ := bind_eq_ok h
    have hmember := found_eq_ok hmember
    cases h
    rw [hthinking] at hkind
    refine ⟨.signature hkind htype (isSome_of_eq_some hmember),
      hholds.kind, fun hother => ?_, fun hother => ?_, fun hother => ?_⟩
    all_goals
      rw [hthinking] at hother
      cases hother
  case h_5 hredacted =>
    cases h
    rw [hredacted] at hkind
    refine ⟨.redacted hkind, hholds.kind, fun hother => ?_, fun hother => ?_, fun hother => ?_⟩
    all_goals
      rw [hredacted] at hother
      cases hother
  case h_6 => cases h

/-! ## The reduction -/

/-- A state of the reduction is what its frames spell so far. -/
structure Reads (codec : Codec) (tools : List String) (frames : List Frame)
    (state : StreamState) : Prop where
  disciplined : Disciplined codec tools frames
  started : state.started = true ↔ .start ∈ frames
  terminal : state.terminal = true ↔ .stop ∈ frames
  kept : ∀ index, Option.Rel Holds (openRound index frames) (state.blocks.lookup index)
  stopReason : state.stopReason = lastReason frames
  text : state.text = String.join ((closed frames).map fun entry => entry.2.text)
  calls : state.toolCalls = (closed frames).filterMap fun entry => entry.2.call codec

/-- What a stopped block leaves of its round. -/
structure Closes (codec : Codec) (tools : List String) (round : Round)
    (state state' : StreamState) : Prop where
  callable : round.Callable codec tools
  text : state'.text = state.text ++ round.text
  calls : state'.toolCalls = state.toolCalls ++ (round.call codec).toList
  kept : state' = { state with
    text := state'.text, toolCalls := state'.toolCalls, thinking := state'.thinking }

theorem closes_of_kind {round : Round} {kind : String} {state state' : StreamState}
    (hkind : round.kind = some kind) (htool : kind ≠ "tool_use")
    (htext : state'.text = state.text ++ round.text) (hcalls : state'.toolCalls = state.toolCalls)
    (hkept : state' = { state with
      text := state'.text, toolCalls := state'.toolCalls, thinking := state'.thinking }) :
    Closes codec tools round state state' := by
  have hother : round.kind ≠ some "tool_use" := by
    rw [hkind]
    exact fun h => htool (some.inj h)
  refine ⟨fun h => absurd h hother, htext, ?_, hkept⟩
  rw [Round.call, if_neg hother, hcalls]
  exact (append_nil _).symm

theorem text_of_kind {round : Round} {kind : String} (hkind : round.kind = some kind)
    (htext : kind ≠ "text") : round.text = "" := by
  unfold Round.text
  rw [hkind, if_neg fun h => htext (some.inj h)]

theorem toolInput_ok {round : Round} {args : String} {input : Json} (hargs : args = round.args)
    (h : toolInput codec connection args = .ok input) : round.input codec = some input := by
  unfold toolInput at h
  unfold Round.input
  rw [← hargs]
  split at h
  · cases h
    rw [if_pos ‹_›]
  · rw [if_neg ‹_›]
    exact found_eq_ok h

theorem closeTool_ok {round : Round} {block : Block} {state state' : StreamState}
    (hholds : Holds round block) (htool : block.kind = .tool)
    (h : closeTool codec connection tools state block = .ok state') :
    Closes codec tools round state state' := by
  have hkind : round.kind = some "tool_use" := hholds.kind.trans (by rw [htool]; rfl)
  obtain ⟨input, hinput, h⟩ := bind_eq_ok h
  have hinput := toolInput_ok (hholds.args htool) hinput
  obtain ⟨_, hobject, h⟩ := bind_eq_ok h
  obtain ⟨_, hdeclared, h⟩ := bind_eq_ok h
  cases h
  refine ⟨fun _ => ⟨⟨block.name, require_eq_ok hdeclared, hholds.name htool⟩, input, hinput,
    require_eq_ok hobject⟩, ?_, ?_, rfl⟩
  · rw [text_of_kind hkind (by decide), String.append_empty]
  · rw [Round.call, if_pos hkind, hinput, hholds.name htool]
    rfl

theorem closeBlock_ok {round : Round} {block : Block} {state state' : StreamState}
    (hholds : Holds round block)
    (h : closeBlock codec connection tools state block = .ok state') :
    Closes codec tools round state state' := by
  have hkind := hholds.kind
  unfold closeBlock at h
  split at h
  case h_1 htext =>
    rw [htext] at hkind
    cases h
    exact closes_of_kind hkind (by decide) (by rw [hholds.text htext]) rfl rfl
  case h_2 htool => exact closeTool_ok hholds htool h
  case h_3 hthinking =>
    rw [hthinking] at hkind
    split at h
    · cases h
    · cases h
      refine closes_of_kind hkind (by decide) ?_ rfl rfl
      rw [text_of_kind hkind (by decide), String.append_empty]
  case h_4 hredacted =>
    rw [hredacted] at hkind
    obtain ⟨value, -, h⟩ := bind_eq_ok h
    cases h
    refine closes_of_kind hkind (by decide) ?_ rfl rfl
    rw [text_of_kind hkind (by decide), String.append_empty]

theorem startUsage_ok {state state' : StreamState} {message : Json}
    (h : startUsage connection state message = .ok state') :
    ∃ input read written, state' = { state with
      inputTokens := input, cacheReadTokens := read, cacheWriteTokens := written } := by
  unfold startUsage at h
  split at h
  · cases h
    exact ⟨_, _, _, rfl⟩
  · split at h
    · cases h
      exact ⟨_, _, _, rfl⟩
    · obtain ⟨tokens, -, h⟩ := bind_eq_ok h
      cases h
      exact ⟨_, _, _, rfl⟩

theorem deltaUsage_ok {state state' : StreamState} {payload : Json}
    (h : deltaUsage connection state payload = .ok state') :
    ∃ output, state' = { state with outputTokens := output } := by
  unfold deltaUsage at h
  split at h
  · cases h
    exact ⟨_, rfl⟩
  · obtain ⟨_, -, h⟩ := bind_eq_ok h
    split at h
    · cases h
      exact ⟨_, rfl⟩
    · obtain ⟨tokens, -, h⟩ := bind_eq_ok h
      cases h
      exact ⟨_, rfl⟩

namespace Reads

variable {frames : List Frame} {state state' : StreamState} {payload : Json}

theorem empty : Reads codec tools [] {} where
  disciplined := by
    intro before frame after h
    cases before <;> cases h
  started := by simp
  terminal := by simp
  kept _ := .none
  stopReason := rfl
  text := rfl
  calls := rfl

section

variable (h : Reads codec tools frames state)
include h

theorem extend {frame : Frame}
    (hfollows : .stop ∉ frames ∧ Follows codec tools frames frame)
    (hclosing : closing frames frame = []) (htext : state'.text = state.text)
    (hcalls : state'.toolCalls = state.toolCalls)
    (hstarted : state'.started = true ↔ .start ∈ frames ++ [frame])
    (hterminal : state'.terminal = true ↔ .stop ∈ frames ++ [frame])
    (hreason : state'.stopReason = lastReason (frames ++ [frame]))
    (hkept : ∀ index, Option.Rel Holds (openRound index (frames ++ [frame]))
      (state'.blocks.lookup index)) : Reads codec tools (frames ++ [frame]) state' where
  disciplined := disciplined_snoc_iff.mpr ⟨h.disciplined, hfollows⟩
  started := hstarted
  terminal := hterminal
  kept := hkept
  stopReason := hreason
  text := by rw [closed_snoc, hclosing, append_nil, htext, h.text]
  calls := by rw [closed_snoc, hclosing, append_nil, hcalls, h.calls]

theorem aside {frame : Frame}
    (hfollows : .stop ∉ frames ∧ Follows codec tools frames frame)
    (hround : ∀ index, openRound index (frames ++ [frame]) = openRound index frames)
    (hclosing : closing frames frame = [])
    (hblocks : state'.blocks = state.blocks) (htext : state'.text = state.text)
    (hcalls : state'.toolCalls = state.toolCalls)
    (hstarted : state'.started = true ↔ .start ∈ frames ++ [frame])
    (hterminal : state'.terminal = true ↔ .stop ∈ frames ++ [frame])
    (hreason : state'.stopReason = lastReason (frames ++ [frame])) :
    Reads codec tools (frames ++ [frame]) state' := by
  refine h.extend hfollows hclosing htext hcalls hstarted hterminal hreason fun index => ?_
  rw [hround, hblocks]
  exact h.kept index

theorem not_stopped (hopen : state.terminal = false) :
    .stop ∉ frames := by
  intro hstop
  rw [h.terminal.mpr hstop] at hopen
  cases hopen

theorem open_none {index : ℕ}
    (hnone : state.blocks.lookup index = none) : openRound index frames = none := by
  have hkept := h.kept index
  rw [hnone] at hkept
  cases hround : openRound index frames with
  | none => rfl
  | some round =>
    rw [hround] at hkept
    cases hkept

theorem open_some {index : ℕ} {block : Block}
    (hsome : state.blocks.lookup index = some block) :
    ∃ round, openRound index frames = some round ∧ Holds round block := by
  have hkept := h.kept index
  rw [hsome] at hkept
  cases hround : openRound index frames with
  | none =>
    rw [hround] at hkept
    cases hkept
  | some round =>
    rw [hround] at hkept
    cases hkept with
    | some hholds => exact ⟨round, rfl, hholds⟩

theorem messageStart (hopen : state.terminal = false)
    (hstep : onMessageStart connection state payload = .ok state') :
    Reads codec tools (frames ++ [.start]) state' := by
  obtain ⟨_, hfresh, hstep⟩ := bind_eq_ok hstep
  have hfresh := require_eq_ok hfresh
  obtain ⟨message, -, hstep⟩ := bind_eq_ok hstep
  obtain ⟨used, hused, hstep⟩ := bind_eq_ok hstep
  obtain ⟨inMessage, -, hstep⟩ := bind_eq_ok hstep
  obtain ⟨inPayload, -, hstep⟩ := bind_eq_ok hstep
  obtain ⟨input, read, written, rfl⟩ := startUsage_ok hused
  cases hstep
  have hnone : .start ∉ frames := by
    intro hstart
    rw [h.started.mpr hstart] at hfresh
    cases hfresh
  refine h.aside ⟨h.not_stopped hopen, hnone⟩ (fun _ => openRound_snoc) rfl rfl rfl rfl
    (by simp) (by simpa using h.terminal) ?_
  rw [lastReason_snoc]
  exact h.stopReason

theorem messageDelta (hopen : state.terminal = false)
    (hstep : onMessageDelta connection state payload = .ok state') :
    Reads codec tools (frames ++ [.reason payload]) state' := by
  obtain ⟨output, rfl⟩ := deltaUsage_ok hstep
  refine h.aside ⟨h.not_stopped hopen, trivial⟩ (fun _ => openRound_snoc) rfl rfl rfl rfl
    (by simpa using h.started) (by simpa using h.terminal) ?_
  rw [lastReason_snoc, reasonAfter, ← h.stopReason]

theorem messageStop (hopen : state.terminal = false)
    (hstep : onMessageStop connection state = .ok state') :
    Reads codec tools (frames ++ [.stop]) state' := by
  obtain ⟨_, hempty, hstep⟩ := bind_eq_ok hstep
  have hempty := isEmpty_iff.mp (require_eq_ok hempty)
  cases hstep
  have hnone : ∀ index, openRound index frames = none := by
    intro index
    apply h.open_none
    rw [hempty]
    rfl
  refine h.aside ⟨h.not_stopped hopen, hnone⟩ (fun _ => openRound_snoc) rfl rfl rfl rfl
    (by simpa using h.started) (by simp) ?_
  rw [lastReason_snoc]
  exact h.stopReason

theorem unknown (hopen : state.terminal = false) :
    Reads codec tools (frames ++ [.other]) state := by
  refine h.aside ⟨h.not_stopped hopen, trivial⟩ (fun _ => openRound_snoc) rfl rfl rfl rfl
    (by simpa using h.started) (by simpa using h.terminal) ?_
  rw [lastReason_snoc]
  exact h.stopReason

theorem blockStart (hopen : state.terminal = false)
    (hstep : onContentBlockStart connection state payload = .ok state') :
    ∃ index block, frameOf payload "content_block_start" = some (.opens index block) ∧
      Reads codec tools (frames ++ [.opens index block]) state' := by
  obtain ⟨_, hstarted, hstep⟩ := bind_eq_ok hstep
  have hstarted := h.started.mp (require_eq_ok hstarted)
  obtain ⟨index, hindex, hstep⟩ := bind_eq_ok hstep
  have hindex : indexOf payload = some index := found_eq_ok hindex
  obtain ⟨block, hblock, hstep⟩ := bind_eq_ok hstep
  have hblock := found_eq_ok hblock
  obtain ⟨_, hfree, hstep⟩ := bind_eq_ok hstep
  have hfree := h.open_none (isNone_iff_eq_none.mp (require_eq_ok hfree))
  obtain ⟨kind, hkind, hstep⟩ := bind_eq_ok hstep
  obtain ⟨entry, hentry, hstep⟩ := bind_eq_ok hstep
  have hholds := holds_blockEntry (found_eq_ok hkind) hentry
  cases hstep
  refine ⟨index, block, by simp [frameOf, hindex, hblock], ?_⟩
  refine h.extend ⟨h.not_stopped hopen, hstarted, hfree⟩ rfl rfl rfl (by simpa using h.started)
    (by simpa using h.terminal) ?_ ?_
  · rw [lastReason_snoc]
    exact h.stopReason
  · intro key
    rw [openRound_opens]
    by_cases hkey : index = key
    · subst hkey
      rw [if_pos rfl, lookup_cons_self]
      exact .some hholds
    · rw [if_neg hkey, lookup_cons_ne (Ne.symm hkey)]
      exact h.kept key

theorem blockDelta (hopen : state.terminal = false)
    (hstep : onContentBlockDelta connection state payload = .ok state') :
    ∃ index delta, frameOf payload "content_block_delta" = some (.delta index delta) ∧
      Reads codec tools (frames ++ [.delta index delta]) state' := by
  obtain ⟨index, hindex, hstep⟩ := bind_eq_ok hstep
  have hindex : indexOf payload = some index := found_eq_ok hindex
  obtain ⟨delta, hdelta, hstep⟩ := bind_eq_ok hstep
  have hdelta := found_eq_ok hdelta
  obtain ⟨deltaType, htype, hstep⟩ := bind_eq_ok hstep
  obtain ⟨block, hblock, hstep⟩ := bind_eq_ok hstep
  have hblock := found_eq_ok hblock
  obtain ⟨fed, hfed, hstep⟩ := bind_eq_ok hstep
  obtain ⟨round, hround, hholds⟩ := h.open_some hblock
  obtain ⟨hmatches, hholds⟩ := feed_holds hholds (found_eq_ok htype) hfed
  cases hstep
  refine ⟨index, delta, by simp [frameOf, hindex, hdelta], ?_⟩
  refine h.extend ⟨h.not_stopped hopen, round, hround, hmatches⟩ rfl rfl rfl
    (by simpa using h.started) (by simpa using h.terminal) ?_ ?_
  · rw [lastReason_snoc]
    exact h.stopReason
  · intro key
    rw [openRound_delta, lookup_replaced]
    by_cases hkey : index = key
    · subst hkey
      rw [if_pos rfl, if_pos rfl, hround, hblock]
      exact .some hholds
    · rw [if_neg hkey, if_neg (Ne.symm hkey)]
      exact h.kept key

theorem blockStop (hopen : state.terminal = false)
    (hstep : onContentBlockStop codec connection tools state payload = .ok state') :
    ∃ index, frameOf payload "content_block_stop" = some (.stops index) ∧
      Reads codec tools (frames ++ [.stops index]) state' := by
  obtain ⟨index, hindex, hstep⟩ := bind_eq_ok hstep
  have hindex : indexOf payload = some index := found_eq_ok hindex
  obtain ⟨block, hblock, hstep⟩ := bind_eq_ok hstep
  obtain ⟨round, hround, hholds⟩ := h.open_some (found_eq_ok hblock)
  obtain ⟨hcallable, htext, hcalls, hkept⟩ := closeBlock_ok hholds hstep
  refine ⟨index, by simp [frameOf, hindex], ?_⟩
  constructor
  · exact disciplined_snoc_iff.mpr ⟨h.disciplined, h.not_stopped hopen, round, hround, hcallable⟩
  · rw [hkept]
    simpa using h.started
  · rw [hkept]
    simpa using h.terminal
  · intro key
    rw [openRound_stops, hkept, lookup_filter]
    by_cases hkey : index = key
    · rw [if_pos hkey, if_pos hkey.symm]
      exact .none
    · rw [if_neg hkey, if_neg (Ne.symm hkey)]
      exact h.kept key
  · rw [lastReason_snoc, hkept]
    exact h.stopReason
  · rw [closed_stops hround, htext, h.text, map_append, String.join_append]
    rfl
  · rw [closed_stops hround, hcalls, filterMap_append, ← h.calls]
    cases hcall : round.call codec <;> simp [hcall]

theorem event {event : SseEvent}
    (hstep : onEvent codec connection tools state event = .ok state') :
    ∃ frame, framed codec event = some frame ∧ Reads codec tools (frames ++ [frame]) state' := by
  obtain ⟨_, hopen, hstep⟩ := bind_eq_ok hstep
  have hopen := require_eq_ok hopen
  obtain ⟨payload, hpayload, hstep⟩ := bind_eq_ok hstep
  obtain ⟨_, hchat, hstep⟩ := bind_eq_ok hstep
  have hframed : framed codec event = frameOf payload (eventName event payload) := by
    rw [framed, found_eq_ok hpayload, bind_some, require_eq_ok hchat]
    rfl
  rw [hframed]
  generalize eventName event payload = name at hstep
  unfold named at hstep
  split at hstep
  case h_1 => exact ⟨.start, rfl, h.messageStart hopen hstep⟩
  case h_2 =>
    obtain ⟨index, block, hframe, hreads⟩ := h.blockStart hopen hstep
    exact ⟨_, hframe, hreads⟩
  case h_3 =>
    obtain ⟨index, delta, hframe, hreads⟩ := h.blockDelta hopen hstep
    exact ⟨_, hframe, hreads⟩
  case h_4 =>
    obtain ⟨index, hframe, hreads⟩ := h.blockStop hopen hstep
    exact ⟨_, hframe, hreads⟩
  case h_5 => exact ⟨.reason payload, rfl, h.messageDelta hopen hstep⟩
  case h_6 => exact ⟨.stop, rfl, h.messageStop hopen hstep⟩
  case h_7 => cases hstep
  case h_8 =>
    cases hstep
    refine ⟨.other, ?_, h.unknown hopen⟩
    unfold frameOf
    split <;> first | rfl | contradiction

theorem complete {reply : ProviderReply}
    (hverdict : verdict connection state = .ok reply) : Complete codec tools frames reply := by
  obtain ⟨_, hempty, hverdict⟩ := bind_eq_ok hverdict
  have hempty := isEmpty_iff.mp (require_eq_ok hempty)
  obtain ⟨_, hterminal, hverdict⟩ := bind_eq_ok hverdict
  obtain ⟨_, hreason, hverdict⟩ := bind_eq_ok hverdict
  have hreason := require_eq_ok hreason
  obtain ⟨_, -, hverdict⟩ := bind_eq_ok hverdict
  obtain ⟨usage, -, hverdict⟩ := bind_eq_ok hverdict
  cases hverdict
  refine ⟨ends_of_disciplined h.disciplined (h.terminal.mp (require_eq_ok hterminal)),
    h.disciplined, fun index => ?_, ?_, h.text, h.calls⟩
  · have hnone : openRound index frames = none := by
      apply h.open_none
      rw [hempty]
      rfl
    have hstanding := standing_opened h.disciplined index
    rwa [hnone, map_none, toList_none, append_nil] at hstanding
  · cases hlast : state.stopReason with
    | none =>
      rw [hlast] at hreason
      exact absurd hreason (by decide)
    | some reason =>
      rw [hlast] at hreason
      exact ⟨reason, hreason, h.stopReason.symm.trans hlast⟩

end

end Reads

/-! ## Whole streams -/

/-- Some events were read as some frames. -/
def Spelled (codec : Codec) (events : List SseEvent) (frames : List Frame) : Prop :=
  Forall₂ (fun event frame => framed codec event = some frame) events frames

/-- Events that were read spell what their state holds. -/
def Spells (codec : Codec) (tools : List String) (events : List SseEvent)
    (state : StreamState) : Prop :=
  ∃ frames, Spelled codec events frames ∧ Reads codec tools frames state

/-- What some reads delivered. -/
def Delivered (reads : List (Except ReplyError (List SseEvent))) (events : List SseEvent) : Prop :=
  ∃ chunks, Forall₂ (fun read chunk => read = .ok chunk) reads chunks ∧
    events = chunks.flatten

theorem Spells.events {seen events : List SseEvent} {state : StreamState}
    (h : Spells codec tools seen state) :
    Within Fails (Spells codec tools (seen ++ events))
      (events.foldlM (onEvent codec connection tools) state) := by
  apply Within.foldlM fun met => Spells codec tools (seen ++ met)
  · rintro met event state - ⟨frames, hspelled, hreads⟩
    apply Within.of_forall
    intro state' hstep
    obtain ⟨frame, hframe, hreads⟩ := hreads.event hstep
    rw [← append_assoc]
    exact ⟨frames ++ [frame], rel_append hspelled (.cons hframe .nil), hreads⟩
  · rwa [append_nil]

theorem streamEvents_spells {stream : Stream} :
    Within Fails
      (fun state => ∃ events, Delivered (stream.reads ++ [stream.finish]) events ∧
        Spells codec tools events state)
      (streamEvents codec connection tools stream) := by
  apply Within.bind
  · apply Within.foldlM fun met state =>
      ∃ events, Delivered met events ∧ Spells codec tools events state
    · rintro met read state - ⟨events, ⟨chunks, hchunks, rfl⟩, hspells⟩
      cases read with
      | error error => trivial
      | ok chunk =>
        apply Within.imp hspells.events
        intro state' hspells'
        refine ⟨_, ⟨chunks ++ [chunk], rel_append hchunks (.cons rfl .nil), ?_⟩, hspells'⟩
        rw [flatten_append, flatten_singleton]
    · exact ⟨[], ⟨[], .nil, rfl⟩, [], .nil, .empty⟩
  · rintro state ⟨events, ⟨chunks, hchunks, rfl⟩, hspells⟩
    cases hfinish : stream.finish with
    | error error => trivial
    | ok last =>
      apply Within.imp hspells.events
      intro state' hspells'
      refine ⟨_, ⟨chunks ++ [last], rel_append hchunks (.cons rfl .nil), ?_⟩, hspells'⟩
      rw [flatten_append, flatten_singleton]

/-- A stream that is accepted delivered one whole message, which is its reply; any other leaves the
adapter, its lineages with it, as it was. -/
theorem readStream_complete (codec : Codec) (adapter : Adapter)
    (manifest : Broker.RequestManifest) (model : String) (stream : Stream) :
    (∀ reply, (readStream codec adapter manifest model stream).2 = .ok reply →
      ∃ events frames, Delivered (stream.reads ++ [stream.finish]) events ∧
        Spelled codec events frames ∧ Complete codec manifest.tools frames reply) ∧
    ∀ error, (readStream codec adapter manifest model stream).2 = .error error →
      (readStream codec adapter manifest model stream).1 = adapter := by
  unfold readStream
  cases hstate : streamEvents codec adapter.connection manifest.tools stream with
  | error error => exact ⟨fun _ h => (by cases h), fun _ _ => rfl⟩
  | ok state =>
    cases hverdict : verdict adapter.connection state with
    | error error =>
      dsimp only
      rw [hverdict]
      exact ⟨fun _ h => (by cases h), fun _ _ => rfl⟩
    | ok reply =>
      dsimp only
      rw [hverdict]
      refine ⟨fun reply' h => ?_, fun _ h => (by cases h)⟩
      obtain rfl : reply = reply' := Except.ok.inj h
      obtain ⟨events, hdelivered, frames, hspelled, hreads⟩ :=
        streamEvents_spells.of_ok hstate
      exact ⟨events, frames, hdelivered, hspelled, hreads.complete hverdict⟩

/-! ## Interleaved blocks -/

def Frame.OfBlock : Frame → Prop
  | .opens .. | .delta .. | .stops _ => True
  | _ => False

def Frame.OfReason : Frame → Prop
  | .reason _ => True
  | _ => False

/-- Unknown events say nothing. -/
def Frame.Known : Frame → Prop
  | .other => False
  | _ => True

instance : DecidablePred Frame.Known
  | .other => .isFalse id
  | .start | .opens .. | .delta .. | .stops _ | .reason _ | .stop => .isTrue trivial

/-- The rounds of a message by their index. -/
def indexed (frames : List Frame) : List (ℕ × Round) :=
  (closed frames).insertionSort fun entry entry' => entry.1 ≤ entry'.1

/-- A message whose blocks count in the order of their indexes, each index used once. -/
structure Indexed (codec : Codec) (tools : List String) (frames : List Frame)
    (reply : ProviderReply) : Prop where
  shape : ∃ body reasons, frames.filter Frame.Known = .start :: body ++ reasons ++ [.stop] ∧
    (∀ frame ∈ body, frame.OfBlock) ∧ reasons ≠ [] ∧ ∀ frame ∈ reasons, frame.OfReason
  distinct : ((opened frames).map Prod.fst).Nodup
  disciplined : Disciplined codec tools frames
  once : ∀ index, (standing index (closed frames)).map Round.block = standing index (opened frames)
  classified : ∃ reason ∈ CLASSIFIED_STOP_REASONS, lastReason frames = some reason
  text : reply.text = String.join ((indexed frames).map fun entry => entry.2.text)
  calls : reply.toolCalls = (indexed frames).filterMap fun entry => entry.2.call codec

theorem Spelled.unique {events : List SseEvent} {frames frames' : List Frame}
    (h : Spelled codec events frames) (h' : Spelled codec events frames') : frames = frames' := by
  induction h generalizing frames' with
  | nil =>
    cases h'
    rfl
  | cons hframe _ ih =>
    cases h' with
    | cons hframe' hrest =>
      rw [ih hrest, mem_unique hframe hframe']

/-- A request pinned to one model. -/
def pinned : Broker.RequestManifest :=
  ⟨"a", "p", "w", .fixed ⟨"c", "m"⟩, .auto, "", [], 0, "", "", "e", none, none, .human, 0⟩

/-- Two text blocks, the second stopped first. -/
def interleaving : List (SseEvent × Json) :=
  [(⟨"message_start", "\x7b\"message\":\x7b\x7d\x7d"⟩, .object [("message", .object [])]),
    (⟨"content_block_start",
      "\x7b\"index\":0,\"content_block\":\x7b\"type\":\"text\",\"text\":\"a\"\x7d\x7d"⟩,
      .object [("index", .number (.unsigned 0)),
        ("content_block", .object [("type", .string "text"), ("text", .string "a")])]),
    (⟨"content_block_start",
      "\x7b\"index\":1,\"content_block\":\x7b\"type\":\"text\",\"text\":\"b\"\x7d\x7d"⟩,
      .object [("index", .number (.unsigned 1)),
        ("content_block", .object [("type", .string "text"), ("text", .string "b")])]),
    (⟨"content_block_stop", "\x7b\"index\":1\x7d"⟩,
      .object [("index", .number (.unsigned 1))]),
    (⟨"content_block_stop", "\x7b\"index\":0\x7d"⟩,
      .object [("index", .number (.unsigned 0))]),
    (⟨"message_delta", "\x7b\"delta\":\x7b\"stop_reason\":\"end_turn\"\x7d\x7d"⟩,
      .object [("delta", .object [("stop_reason", .string "end_turn")])]),
    (⟨"message_stop", "\x7b\x7d"⟩, .object [])]

/-- A parser of the texts above. -/
def interleavingCodec : Codec where
  fromStr text := (interleaving.find? fun entry => entry.1.data = text).map Prod.snd
  size _ := none

def interleavingFrames : List Frame :=
  [.start, .opens 0 (.object [("type", .string "text"), ("text", .string "a")]),
    .opens 1 (.object [("type", .string "text"), ("text", .string "b")]), .stops 1, .stops 0,
    .reason (.object [("delta", .object [("stop_reason", .string "end_turn")])]), .stop]

theorem interleaving_spelled :
    Spelled interleavingCodec (interleaving.map Prod.fst) interleavingFrames :=
  .cons rfl (.cons rfl (.cons rfl (.cons rfl (.cons rfl (.cons rfl (.cons rfl .nil))))))

/-- Blocks count in the order in which they stop, not in that of their indexes. -/
theorem stops_in_another_order : ¬ ∀ (codec : Codec) (adapter : Adapter)
    (manifest : Broker.RequestManifest) (model : String) (stream : Stream) (reply : ProviderReply),
    (readStream codec adapter manifest model stream).2 = .ok reply →
      ∃ events frames, Delivered (stream.reads ++ [stream.finish]) events ∧
        Spelled codec events frames ∧ Indexed codec manifest.tools frames reply := by
  intro h
  obtain ⟨events, frames, ⟨chunks, hchunks, rfl⟩, hspelled, hindexed⟩ :=
    h interleavingCodec (.new "c" .modelsInfo) pinned "m"
      ⟨[.ok (interleaving.map Prod.fst)], .ok []⟩ ⟨"ba", [], .unknown, 0⟩ rfl
  have hevents : chunks.flatten = interleaving.map Prod.fst := by
    cases hchunks with
    | cons hchunk hrest =>
      cases hrest with
      | cons hlast hnil =>
        cases hnil
        cases hchunk
        cases hlast
        rfl
  rw [hevents] at hspelled
  obtain rfl := hspelled.unique interleaving_spelled
  have htext : "ba" = "ab" := hindexed.text
  exact absurd htext (by decide)

end Rivect.Providers.Messages
