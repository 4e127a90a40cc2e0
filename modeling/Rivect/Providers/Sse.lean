import Rivect.Lib.Chunks
import Rivect.Lib.Lines
import Rivect.Lib.Utf8
import Rivect.Policy.Text

/-! # Server-sent events

`src/providers/sse.rs`: the incremental parser that the streaming dialects share. A string is its
UTF-8 bytes.
-/

namespace Rivect.Providers.Sse

open Lib
open EffectPolicy (Text ascii splitOnce LF CR SPACE COLON)
open Utf8 (isUtf8)

def MAX_LINE_BYTES : ℕ := 256 * 1024

def MAX_DATA_BYTES : ℕ := 4 * 1024 * 1024

def BOM : List UInt8 := [0xEF, 0xBB, 0xBF]

/-- One dispatched event block. -/
structure SseEvent where
  event : Text
  data : Text
deriving DecidableEq

inductive SseError where
  | overrun (what : String) (limit : ℕ)
  | invalidUtf8
deriving DecidableEq

abbrev isTerminator : UInt8 → Bool := isEnd CR LF

/-! ## The pending block -/

structure Block where
  eventType : Text := []
  data : Text := []
deriving DecidableEq

namespace Block

/-- A block dispatches only when it has data, without the final line feed. -/
def dispatch (block : Block) : Block × List SseEvent :=
  ({}, if block.data.isEmpty then [] else [⟨block.eventType, block.data.dropLast⟩])

/-- The name and the value of a line. -/
def parts (text : Text) : Text × Text :=
  match splitOnce COLON text with
  | some (field, value) => (field, if value.head? = some SPACE then value.tail else value)
  | none => (text, [])

def line (block : Block) (raw : List UInt8) : Except SseError (Block × List SseEvent) :=
  if MAX_LINE_BYTES < raw.length then .error (.overrun "line" MAX_LINE_BYTES)
  else if !isUtf8 raw then .error .invalidUtf8
  else if raw.isEmpty then .ok block.dispatch
  else if raw.head? = some COLON then .ok (block, [])
  else
    let (field, value) := parts raw
    if field = ascii "event" then .ok ({ block with eventType := value }, [])
    else if field = ascii "data" then
      let next := block.data.length + value.length + 1
      if MAX_DATA_BYTES < next then .error (.overrun "event data" MAX_DATA_BYTES)
      else .ok ({ block with data := block.data ++ value ++ [LF] }, [])
    else .ok (block, [])

end Block

/-! ## The parser -/

structure SseParser where
  /-- Bytes not yet consumed into a line. -/
  buf : List UInt8 := []
  /-- This many of them hold no terminator. -/
  scanned : ℕ := 0
  /-- The stream-leading BOM decision is still open. -/
  bomPending : Bool := true
  block : Block := {}
deriving DecidableEq

/-- What the line loop works on. -/
structure Cursor where
  consumed : ℕ
  scanned : ℕ
  block : Block
  events : List SseEvent
deriving DecidableEq

/-- The line loop over the buffered bytes. Every round but the last consumes a terminator, so the
number of bytes is fuel enough. -/
def lineLoop (buf : List UInt8) (atEof : Bool) : ℕ → Cursor → Except SseError Cursor
  | 0, cursor => .ok cursor
  | fuel + 1, cursor =>
    let scanFrom := max cursor.consumed cursor.scanned
    match (buf.drop scanFrom).findIdx? isTerminator with
    | none => .ok { cursor with scanned := buf.length }
    | some off =>
      let at' := scanFrom + off
      let raw := (buf.take at').drop cursor.consumed
      if buf[at']? = some CR then
        -- The CR may pair with an LF that has not arrived.
        if at' + 1 = buf.length ∧ !atEof then .ok { cursor with scanned := at' }
        else do
          let width := if at' + 1 < buf.length ∧ buf[at' + 1]? = some LF then 2 else 1
          let done ← cursor.block.line raw
          lineLoop buf atEof fuel
            ⟨at' + width, at' + width, done.1, cursor.events ++ done.2⟩
      else do
        let done ← cursor.block.line raw
        lineLoop buf atEof fuel ⟨at' + 1, at' + 1, done.1, cursor.events ++ done.2⟩

namespace SseParser

/-- The buffered bytes to their last complete line; the BOM decision is made. -/
def pumpLines (parser : SseParser) (atEof : Bool) :
    Except SseError (SseParser × List SseEvent) := do
  let cursor ← lineLoop parser.buf atEof (parser.buf.length + 1)
    ⟨0, parser.scanned, parser.block, []⟩
  let scanned := cursor.scanned - cursor.consumed
  if MAX_LINE_BYTES < scanned then .error (.overrun "line" MAX_LINE_BYTES)
  else
    .ok ({ parser with buf := parser.buf.drop cursor.consumed, scanned, block := cursor.block },
      cursor.events)

def pump (parser : SseParser) (atEof : Bool) : Except SseError (SseParser × List SseEvent) :=
  if parser.bomPending then
    let held := parser.buf
    if !held.isEmpty ∧ held.length < BOM.length ∧ held.isPrefixOf BOM ∧ !atEof then .ok (parser, [])
    else
      let buf := if BOM.isPrefixOf held then held.drop BOM.length else held
      pumpLines { parser with buf, bomPending := false, scanned := 0 } atEof
  else pumpLines parser atEof

/-- Feeds one chunk; every event block the new bytes completed. -/
def feed (parser : SseParser) (chunk : List UInt8) :
    Except SseError (SseParser × List SseEvent) :=
  if chunk.isEmpty then .ok (parser, [])
  else
    let held := if parser.bomPending then parser.buf.length else parser.scanned
    let pending := held + chunk.findIdx isTerminator
    if parser.buf.getLast? ≠ some CR ∧ MAX_LINE_BYTES < pending then
      .error (.overrun "line" MAX_LINE_BYTES)
    else pump { parser with buf := parser.buf ++ chunk } false

/-- The end of the stream: a trailing CR terminates its line, and what is left is discarded. -/
def finish (parser : SseParser) : Except SseError (SseParser × List SseEvent) := do
  let pumped ← parser.pump true
  .ok ({ pumped.1 with buf := [], scanned := 0, block := {} }, pumped.2)

/-- A fresh parser over a stream in chunks, to its end. -/
def parse (chunks : List (List UInt8)) : Except SseError (List SseEvent) := do
  let fed ← feedAll feed {} chunks
  let last ← fed.1.finish
  .ok (fed.2 ++ last.2)

end SseParser

end Rivect.Providers.Sse
