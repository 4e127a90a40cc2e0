import Rivect.Lib.Chunks
import Rivect.Lib.Filter
import Rivect.Lib.Utf8

/-! # Event-stream framing

`src/providers/eventstream.rs`: the length framing of a Converse response stream, and the messages
it frames. A string is its UTF-8 bytes.
-/

namespace Rivect.Providers.EventStream

open Lib Utf8 List
open Lib.Filter (leBytes leValue leValue_leBytes length_leBytes)

abbrev Text := List UInt8

def MAX_EVENTSTREAM_FRAME_BYTES : ℕ := 1024 * 1024

def MAX_EVENTSTREAM_BYTES : ℕ := 8 * 1024 * 1024

/-- Why an event-stream byte sequence cannot be framed. -/
inductive EventStreamError where
  | frameTooLarge (length limit : ℕ)
  | streamTooLarge (limit : ℕ)
  | truncatedFrame (declared remaining : ℕ)
  | malformedFrame
  | malformedHeader
deriving DecidableEq

structure Frame where
  messageType : Option Text
  eventType : Option Text
  exceptionType : Option Text
  payload : List UInt8
deriving DecidableEq

structure EventStreamDecoder where
  buffer : List UInt8 := []
  consumed : ℕ := 0
deriving DecidableEq

/-- The number that bytes spell, the first of them the highest. -/
def fromBeBytes (bytes : List UInt8) : ℕ := leValue bytes.reverse

def toBeBytes (count value : ℕ) : List UInt8 := (leBytes count value).reverse

def readU32 (bytes : List UInt8) (offset : ℕ) : Except EventStreamError ℕ :=
  let chunk := (bytes.drop offset).take 4
  if chunk.length = 4 then .ok (fromBeBytes chunk) else .error .malformedFrame

/-! ## Headers -/

def split (bytes : List UInt8) (length : ℕ) :
    Except EventStreamError (List UInt8 × List UInt8) :=
  if bytes.length < length then .error .malformedHeader
  else .ok (bytes.take length, bytes.drop length)

def splitFirst : List UInt8 → Except EventStreamError (UInt8 × List UInt8)
  | [] => .error .malformedHeader
  | b :: rest => .ok (b, rest)

def str (bytes : List UInt8) : Except EventStreamError Text :=
  if isUtf8 bytes then .ok bytes else .error .malformedHeader

/-- The length of a header value of a type, and what follows its length. -/
def valueLength (valueType : UInt8) (bytes : List UInt8) :
    Except EventStreamError (ℕ × List UInt8) :=
  match valueType.toNat with
  | 2 => .ok (1, bytes)
  | 3 => .ok (2, bytes)
  | 4 => .ok (4, bytes)
  | 5 | 8 => .ok (8, bytes)
  | 6 | 7 => do
    let parts ← split bytes 2
    .ok (fromBeBytes parts.1, parts.2)
  | 9 => .ok (16, bytes)
  | _ => .error .malformedHeader

def headerValue (valueType : UInt8) (bytes : List UInt8) :
    Except EventStreamError (Option Text × List UInt8) :=
  if valueType = 0 ∨ valueType = 1 then .ok (none, bytes)
  else do
    let measured ← valueLength valueType bytes
    let parts ← split measured.2 measured.1
    if valueType = 7 then
      let value ← str parts.1
      .ok (some value, parts.2)
    else .ok (none, parts.2)

/-- A `BTreeMap` of header values: one row for each name. -/
abbrev HeaderMap := List (Text × Text)

def HeaderMap.insert (headers : HeaderMap) (name value : Text) : HeaderMap :=
  (name, value) :: headers.filter fun row => row.1 ≠ name

/-- Every round takes a header of two bytes or more, so the number of bytes is fuel enough. -/
def parseHeadersFrom : ℕ → List UInt8 → HeaderMap → Except EventStreamError HeaderMap
  | fuel + 1, b :: bytes, headers => do
    let length ← splitFirst (b :: bytes)
    let parts ← split length.2 length.1.toNat
    let name ← str parts.1
    let valueType ← splitFirst parts.2
    let value ← headerValue valueType.1 valueType.2
    match value.1 with
    | some text => parseHeadersFrom fuel value.2 (headers.insert name text)
    | none => parseHeadersFrom fuel value.2 headers
  | _, _, headers => .ok headers

def parseHeaders (bytes : List UInt8) : Except EventStreamError HeaderMap :=
  parseHeadersFrom bytes.length bytes []

/-! ## The decoder -/

def asciiText (literal : String) : Text := literal.toList.map fun c => UInt8.ofNat c.toNat

/-- The next complete frame, and the bytes after it. -/
def nextFrame (buffer : List UInt8) : Except EventStreamError (Option (Frame × List UInt8)) :=
  if buffer.length < 12 then .ok none
  else do
    let prelude := buffer.take 12
    let total ← readU32 prelude 0
    let headersLength ← readU32 prelude 4
    if total < 16 ∨ total - 16 < headersLength then .error .malformedFrame
    else if MAX_EVENTSTREAM_FRAME_BYTES < total then
      .error (.frameTooLarge total MAX_EVENTSTREAM_FRAME_BYTES)
    else if buffer.length < total then .ok none
    else
      let frame := buffer.take total
      let headersEnd := 12 + headersLength
      let payloadEnd := total - 4
      let headerBytes := (frame.take headersEnd).drop 12
      let payload := (frame.take payloadEnd).drop headersEnd
      let headers ← parseHeaders headerBytes
      .ok (some
        ({ messageType := headers.lookup (asciiText ":message-type")
           eventType := headers.lookup (asciiText ":event-type")
           exceptionType := headers.lookup (asciiText ":exception-type")
           payload },
          buffer.drop total))

/-- Every frame takes sixteen bytes or more, so the number of bytes is fuel enough. -/
def drain : ℕ → List UInt8 → Except EventStreamError (List Frame × List UInt8)
  | 0, buffer => .ok ([], buffer)
  | fuel + 1, buffer => do
    match ← nextFrame buffer with
    | none => .ok ([], buffer)
    | some (frame, buffer) => do
      let rest ← drain fuel buffer
      .ok (frame :: rest.1, rest.2)

namespace EventStreamDecoder

/-- Appends one read and yields every complete frame it now contains. -/
def feed (decoder : EventStreamDecoder) (bytes : List UInt8) :
    Except EventStreamError (EventStreamDecoder × List Frame) :=
  let consumed := decoder.consumed + bytes.length
  if MAX_EVENTSTREAM_BYTES < consumed then .error (.streamTooLarge MAX_EVENTSTREAM_BYTES)
  else do
    let buffer := decoder.buffer ++ bytes
    let run ← drain (buffer.length + 1) buffer
    .ok ({ buffer := run.2, consumed }, run.1)

/-- Confirms that the stream ended on a message boundary. -/
def finish (decoder : EventStreamDecoder) : Except EventStreamError Unit :=
  if decoder.buffer.isEmpty then .ok ()
  else
    let declared := if decoder.buffer.length < 4 then 0 else fromBeBytes (decoder.buffer.take 4)
    .error (.truncatedFrame declared decoder.buffer.length)

end EventStreamDecoder

/-! ## Messages -/

/-- Bytes of a fixed number. -/
abbrev Bytes (count : ℕ) := { bytes : List UInt8 // bytes.length = count }

/-- A header value of each of the ten types. -/
inductive HeaderValue where
  | true
  | false
  | byte (value : Bytes 1)
  | int16 (value : Bytes 2)
  | int32 (value : Bytes 4)
  | int64 (value : Bytes 8)
  | byteArray (value : List UInt8) (fits : value.length ≤ 65535)
  | string (value : Text) (fits : value.length ≤ 65535) (utf8 : isUtf8 value = Bool.true)
  | timestamp (value : Bytes 8)
  | uuid (value : Bytes 16)

structure Header where
  name : Text
  value : HeaderValue
  fits : name.length ≤ 255
  utf8 : isUtf8 name = true

/-- The type of a value and its bytes. -/
def HeaderValue.encode : HeaderValue → List UInt8
  | .true => [0]
  | .false => [1]
  | .byte value => 2 :: value.1
  | .int16 value => 3 :: value.1
  | .int32 value => 4 :: value.1
  | .int64 value => 5 :: value.1
  | .byteArray value _ => 6 :: (toBeBytes 2 value.length ++ value)
  | .string value _ _ => 7 :: (toBeBytes 2 value.length ++ value)
  | .timestamp value => 8 :: value.1
  | .uuid value => 9 :: value.1

def HeaderValue.text : HeaderValue → Option Text
  | .string value _ _ => some value
  | _ => none

def Header.encode (header : Header) : List UInt8 :=
  UInt8.ofNat header.name.length :: (header.name ++ header.value.encode)

/-- A message and the checksums it is sent with, which the decoder does not read. -/
structure Message where
  headers : List Header
  payload : List UInt8
  preludeCrc : Bytes 4
  messageCrc : Bytes 4

namespace Message

def headerBytes (message : Message) : List UInt8 := message.headers.flatMap Header.encode

def total (message : Message) : ℕ :=
  12 + message.headerBytes.length + message.payload.length + 4

def encode (message : Message) : List UInt8 :=
  toBeBytes 4 message.total ++ toBeBytes 4 message.headerBytes.length ++ message.preludeCrc.1 ++
    message.headerBytes ++ message.payload ++ message.messageCrc.1

/-- The last string value under a name. -/
def lastText (message : Message) (name : String) : Option Text :=
  (message.headers.filterMap fun header =>
    if header.name = asciiText name then header.value.text else none).getLast?

def frame (message : Message) : Frame where
  messageType := message.lastText ":message-type"
  eventType := message.lastText ":event-type"
  exceptionType := message.lastText ":exception-type"
  payload := message.payload

end Message

/-! ## Headers are read back -/

@[simp] theorem length_toBeBytes (count value : ℕ) : (toBeBytes count value).length = count := by
  simp [toBeBytes]

theorem fromBeBytes_toBeBytes {count value : ℕ} (h : value < 256 ^ count) :
    fromBeBytes (toBeBytes count value) = value := by
  rw [fromBeBytes, toBeBytes, reverse_reverse, leValue_leBytes, Nat.mod_eq_of_lt h]

theorem split_append {front : List UInt8} {length : ℕ} (rest : List UInt8)
    (h : front.length = length) : split (front ++ rest) length = .ok (front, rest) := by
  subst h
  rw [split, if_neg (by simp), take_left, drop_left]

theorem str_of_isUtf8 {text : Text} (h : isUtf8 text = true) : str text = .ok text := if_pos h

theorem headerValue_fixed {valueType : UInt8} {front : List UInt8} (rest : List UInt8)
    (h : valueLength valueType (front ++ rest) = .ok (front.length, front ++ rest))
    (h0 : valueType ≠ 0) (h1 : valueType ≠ 1) (h7 : valueType ≠ 7) :
    headerValue valueType (front ++ rest) = .ok (none, rest) := by
  rw [headerValue, if_neg (by simp [h0, h1]), h, ok_bind, split_append rest rfl, ok_bind, if_neg h7]

theorem valueLength_counted {valueType : UInt8} {value : List UInt8} (rest : List UInt8)
    (h : valueType.toNat = 6 ∨ valueType.toNat = 7) (hfits : value.length ≤ 65535) :
    valueLength valueType (toBeBytes 2 value.length ++ value ++ rest) =
      .ok (value.length, value ++ rest) := by
  have hlength : fromBeBytes (toBeBytes 2 value.length) = value.length :=
    fromBeBytes_toBeBytes (by omega)
  rw [valueLength, append_assoc, split_append _ (length_toBeBytes 2 _)]
  rcases h with h | h <;> simp only [h, ok_bind, hlength]

theorem headerValue_encode (value : HeaderValue) (rest : List UInt8) :
    ∃ valueType bytes, value.encode = valueType :: bytes ∧
      headerValue valueType (bytes ++ rest) = .ok (value.text, rest) := by
  cases value with
  | true => exact ⟨0, [], rfl, rfl⟩
  | false => exact ⟨1, [], rfl, rfl⟩
  | byte value =>
    exact ⟨2, value.1, rfl, headerValue_fixed rest (by rw [value.2]; rfl) (by decide) (by decide)
      (by decide)⟩
  | int16 value =>
    exact ⟨3, value.1, rfl, headerValue_fixed rest (by rw [value.2]; rfl) (by decide) (by decide)
      (by decide)⟩
  | int32 value =>
    exact ⟨4, value.1, rfl, headerValue_fixed rest (by rw [value.2]; rfl) (by decide) (by decide)
      (by decide)⟩
  | int64 value =>
    exact ⟨5, value.1, rfl, headerValue_fixed rest (by rw [value.2]; rfl) (by decide) (by decide)
      (by decide)⟩
  | byteArray value fits =>
    refine ⟨6, _, rfl, ?_⟩
    rw [headerValue, if_neg (by decide), valueLength_counted rest (by decide) fits, ok_bind,
      split_append rest rfl, ok_bind, if_neg (by decide)]
    rfl
  | string value fits utf8 =>
    refine ⟨7, _, rfl, ?_⟩
    rw [headerValue, if_neg (by decide), valueLength_counted rest (by decide) fits, ok_bind,
      split_append rest rfl, ok_bind, if_pos rfl, str_of_isUtf8 utf8, ok_bind]
    rfl
  | timestamp value =>
    exact ⟨8, value.1, rfl, headerValue_fixed rest (by rw [value.2]; rfl) (by decide) (by decide)
      (by decide)⟩
  | uuid value =>
    exact ⟨9, value.1, rfl, headerValue_fixed rest (by rw [value.2]; rfl) (by decide) (by decide)
      (by decide)⟩

/-- The map after the headers before it and one more. -/
def HeaderMap.read (headers : HeaderMap) (header : Header) : HeaderMap :=
  match header.value.text with
  | some text => headers.insert header.name text
  | none => headers

theorem length_le_encode (header : Header) : 1 ≤ header.encode.length := by
  simp [Header.encode]

theorem parseHeadersFrom_encode (fuel : ℕ) (header : Header) (rest : List UInt8)
    (headers : HeaderMap) :
    parseHeadersFrom (fuel + 1) (header.encode ++ rest) headers =
      parseHeadersFrom fuel rest (headers.read header) := by
  obtain ⟨valueType, bytes, hvalue, hread⟩ := headerValue_encode header.value rest
  have hname : (UInt8.ofNat header.name.length).toNat = header.name.length := by
    have := header.fits
    rw [UInt8.toNat_ofNat', Nat.mod_eq_of_lt (by omega)]
  rw [Header.encode, hvalue, cons_append, append_assoc, parseHeadersFrom, splitFirst,
    ok_bind, hname, split_append _ rfl, ok_bind, str_of_isUtf8 header.utf8, ok_bind,
    cons_append, splitFirst, ok_bind, hread, ok_bind, HeaderMap.read]
  cases header.value.text <;> rfl

theorem parseHeadersFrom_headers (list : List Header) (fuel : ℕ) (headers : HeaderMap)
    (hfuel : (list.flatMap Header.encode).length ≤ fuel) :
    parseHeadersFrom fuel (list.flatMap Header.encode) headers =
      .ok (list.foldl HeaderMap.read headers) := by
  induction list generalizing fuel headers with
  | nil => cases fuel <;> rfl
  | cons header list ih =>
    have hpos := length_le_encode header
    rw [flatMap_cons, length_append] at hfuel
    cases fuel with
    | zero => omega
    | succ fuel =>
      rw [flatMap_cons, parseHeadersFrom_encode, ih fuel _ (by omega)]
      rfl

theorem lookup_filter {name other : Text} (headers : HeaderMap) (h : other ≠ name) :
    List.lookup other (headers.filter fun row => row.1 ≠ name) = headers.lookup other := by
  induction headers with
  | nil => rfl
  | cons row headers ih =>
    by_cases hrow : row.1 = name
    · have hother : (other == row.1) = false := by simp [hrow, h]
      rw [filter_cons_of_neg (by simp [hrow]), ih, lookup_cons, hother]
    · rw [filter_cons_of_pos (by simp [hrow]), lookup_cons, lookup_cons, ih]

theorem lookup_insert (headers : HeaderMap) (name other value : Text) :
    (headers.insert name value).lookup other =
      if name = other then some value else headers.lookup other := by
  rw [HeaderMap.insert, lookup_cons]
  by_cases h : name = other
  · simp [h]
  · have hother : (other == name) = false := by simp [Ne.symm h]
    rw [hother, if_neg h, lookup_filter headers (Ne.symm h)]

/-- The string a header gives a name. -/
def Header.under (name : Text) (header : Header) : Option Text :=
  if header.name = name then header.value.text else none

theorem lookup_read (headers : HeaderMap) (header : Header) (name : Text) :
    (headers.read header).lookup name = (header.under name).or (headers.lookup name) := by
  rw [HeaderMap.read, Header.under]
  cases header.value.text with
  | none => simp
  | some text =>
    simp only [lookup_insert]
    split <;> rfl

theorem lookup_foldl_read (list : List Header) (headers : HeaderMap) (name : Text) :
    (list.foldl HeaderMap.read headers).lookup name =
      (list.filterMap (Header.under name)).getLast?.or (headers.lookup name) := by
  induction list generalizing headers with
  | nil => rfl
  | cons header list ih =>
    rw [foldl_cons, ih, lookup_read, filterMap_cons]
    cases header.under name with
    | none => rfl
    | some text =>
      rw [getLast?_cons]
      cases (list.filterMap (Header.under name)).getLast? <;> rfl

/-! ## Frames are read back -/

variable {message : Message} {buffer : List UInt8}

namespace Message

theorem length_encode (message : Message) : message.encode.length = message.total := by
  have h := message.preludeCrc.2
  have h' := message.messageCrc.2
  simp only [encode, total, length_append, length_toBeBytes, h, h']

theorem total_pos (message : Message) : 0 < message.total := by
  rw [total]
  omega

theorem lastText_eq (message : Message) (name : String) :
    message.lastText name =
      (message.headers.foldl HeaderMap.read []).lookup (asciiText name) := by
  rw [lookup_foldl_read]
  exact Option.or_none.symm

theorem parseHeaders_headerBytes (message : Message) :
    parseHeaders message.headerBytes = .ok (message.headers.foldl HeaderMap.read []) :=
  parseHeadersFrom_headers message.headers _ [] (Nat.le_refl _)

theorem take_four_encode (message : Message) (rest : List UInt8) :
    (message.encode ++ rest).take 4 = toBeBytes 4 message.total := by
  simp only [encode, append_assoc]
  rw [take_left' (length_toBeBytes 4 _)]

theorem next_four_encode (message : Message) (rest : List UInt8) :
    ((message.encode ++ rest).drop 4).take 4 = toBeBytes 4 message.headerBytes.length := by
  simp only [encode, append_assoc]
  rw [drop_left' (length_toBeBytes 4 _), take_left' (length_toBeBytes 4 _)]

theorem drop_take_middle (front middle back : List UInt8) :
    ((front ++ middle ++ back).take (front.length + middle.length)).drop front.length =
      middle := by
  rw [take_left' length_append, drop_left]

theorem encode_headerBytes (message : Message) :
    (message.encode.take (12 + message.headerBytes.length)).drop 12 = message.headerBytes := by
  have h := message.preludeCrc.2
  have hmiddle := drop_take_middle
    (toBeBytes 4 message.total ++ toBeBytes 4 message.headerBytes.length ++ message.preludeCrc.1)
    message.headerBytes (message.payload ++ message.messageCrc.1)
  simp only [length_append, length_toBeBytes, h] at hmiddle
  rw [encode, append_assoc _ message.payload]
  exact hmiddle

theorem encode_payload (message : Message) :
    (message.encode.take (message.total - 4)).drop (12 + message.headerBytes.length) =
      message.payload := by
  have h := message.preludeCrc.2
  have hmiddle := drop_take_middle
    (toBeBytes 4 message.total ++ toBeBytes 4 message.headerBytes.length ++ message.preludeCrc.1 ++
      message.headerBytes) message.payload message.messageCrc.1
  simp only [length_append, length_toBeBytes, h] at hmiddle
  exact hmiddle

end Message

section

variable (hfits : message.total ≤ MAX_EVENTSTREAM_FRAME_BYTES)
include hfits

/-- The prelude of a message is all that decides whether its frame is complete. -/
theorem readU32_prelude
    (hprelude : buffer.take 12 = message.encode.take 12) :
    readU32 (buffer.take 12) 0 = .ok message.total ∧
      readU32 (buffer.take 12) 4 = .ok message.headerBytes.length := by
  have htotal : message.total < 256 ^ 4 := Nat.lt_of_le_of_lt hfits (by decide)
  have hheaders : message.headerBytes.length < 256 ^ 4 := by
    refine Nat.lt_of_le_of_lt ?_ htotal
    rw [Message.total]
    omega
  have hfirst := message.take_four_encode []
  have hnext := message.next_four_encode []
  rw [append_nil] at hfirst hnext
  constructor
  · rw [readU32, hprelude, drop_zero, take_take, show min 4 12 = 4 from rfl, hfirst]
    simp [fromBeBytes_toBeBytes htotal]
  · rw [readU32, hprelude, drop_take, take_take, show min 4 (12 - 4) = 4 from rfl, hnext]
    simp [fromBeBytes_toBeBytes hheaders]

/-- A buffer that ends inside a message waits for the rest. -/
theorem nextFrame_short
    (hpart : buffer <+: message.encode) (hshort : buffer.length < message.total) :
    nextFrame buffer = .ok none := by
  rw [nextFrame]
  split
  · rfl
  · rename_i hprelude
    have htake : buffer.take 12 = message.encode.take 12 := by
      obtain ⟨more, hmore⟩ := hpart
      rw [← hmore, take_append_of_le_length (by omega)]
    obtain ⟨htotal, hheaders⟩ := readU32_prelude hfits htake
    have hmin : ¬(message.total < 16 ∨ message.total - 16 < message.headerBytes.length) := by
      rw [Message.total]
      omega
    simp only [htotal, hheaders, ok_bind]
    rw [if_neg hmin, if_neg (Nat.not_lt.2 hfits), if_pos hshort]

theorem nextFrame_encode
    (rest : List UInt8) :
    nextFrame (message.encode ++ rest) = .ok (some (message.frame, rest)) := by
  have hlength := message.length_encode
  have hmin : ¬(message.total < 16 ∨ message.total - 16 < message.headerBytes.length) := by
    rw [Message.total]
    omega
  have hlong : 12 ≤ message.encode.length := by
    rw [hlength, Message.total]
    omega
  obtain ⟨htotal, hheaders⟩ := readU32_prelude hfits
    (@take_append_of_le_length _ _ rest _ hlong)
  have hframe : (message.encode ++ rest).take message.total = message.encode :=
    take_left' hlength
  rw [nextFrame, if_neg (by rw [length_append]; omega)]
  simp only [htotal, hheaders, ok_bind]
  rw [if_neg hmin, if_neg (Nat.not_lt.2 hfits),
    if_neg (by rw [length_append, hlength]; omega), hframe,
    message.encode_headerBytes, message.parseHeaders_headerBytes, ok_bind, message.encode_payload,
    drop_left' hlength, Message.frame]
  simp only [Message.lastText_eq]

end

/-! ## Streams -/

def stream (messages : List Message) : List UInt8 := messages.flatMap Message.encode

@[simp] theorem stream_nil : stream [] = [] := rfl

@[simp] theorem stream_cons (message : Message) (messages : List Message) :
    stream (message :: messages) = message.encode ++ stream messages := rfl

theorem stream_append (a b : List Message) : stream (a ++ b) = stream a ++ stream b :=
  flatMap_append

/-- The messages whose last byte is among the first `count`. -/
def complete : List Message → ℕ → List Message
  | [], _ => []
  | message :: messages, count =>
    if message.total ≤ count then message :: complete messages (count - message.total) else []

/-- Bytes that do not reach the end of the next message. -/
def Short (messages : List Message) (buffer : List UInt8) : Prop :=
  buffer <+: stream messages ∧ ∀ message ∈ messages.head?, buffer.length < message.total

variable {messages rest : List Message}

theorem complete_stream_append (done : List Message) (count : ℕ) :
    complete (done ++ messages) ((stream done).length + count) =
      done ++ complete messages count := by
  induction done with
  | nil => simp
  | cons message done ih =>
    rw [cons_append, complete, stream_cons, length_append, message.length_encode,
      if_pos (by omega), Nat.add_assoc, Nat.add_sub_cancel_left, ih]
    rfl

theorem Short.complete (h : Short messages buffer) : complete messages buffer.length = [] := by
  cases messages with
  | nil => rfl
  | cons message messages => rw [EventStream.complete, if_neg (by have := h.2 message rfl; omega)]

theorem complete_of_short (done : List Message) (h : Short rest buffer) :
    complete (done ++ rest) (stream done ++ buffer).length = done := by
  rw [length_append, complete_stream_append, h.complete, append_nil]

theorem drain_stream (hfits : ∀ message ∈ messages, message.total ≤ MAX_EVENTSTREAM_FRAME_BYTES)
    (hpart : buffer <+: stream messages) (fuel : ℕ) (hfuel : buffer.length < fuel) :
    ∃ done rest left, messages = done ++ rest ∧ buffer = stream done ++ left ∧ Short rest left ∧
      drain fuel buffer = .ok (done.map Message.frame, left) := by
  induction messages generalizing buffer fuel with
  | nil =>
    obtain rfl := prefix_nil.1 hpart
    refine ⟨[], [], [], rfl, rfl, ⟨hpart, by simp⟩, ?_⟩
    cases fuel <;> rfl
  | cons message messages ih =>
    obtain ⟨fuel, rfl⟩ : ∃ less, fuel = less + 1 := ⟨fuel - 1, by omega⟩
    have hmessage := hfits message mem_cons_self
    have hlength := message.length_encode
    by_cases hshort : buffer.length < message.total
    · have hbuffer : buffer <+: message.encode :=
        prefix_of_prefix_length_le hpart (prefix_append _ _) (by omega)
      refine ⟨[], message :: messages, buffer, rfl, rfl, ⟨hpart, ?_⟩, ?_⟩
      · rintro _ ⟨⟩
        exact hshort
      · rw [drain, nextFrame_short hmessage hbuffer hshort]
        rfl
    · have hencode : message.encode <+: buffer :=
        prefix_of_prefix_length_le (prefix_append _ _) hpart (by omega)
      obtain ⟨left, rfl⟩ := hencode
      rw [stream_cons, prefix_append_right_inj] at hpart
      have hpos := message.total_pos
      rw [length_append] at hfuel
      obtain ⟨done, rest, left', rfl, rfl, hleft, hdrain⟩ :=
        ih (fun m hm => hfits m (mem_cons_of_mem _ hm)) hpart fuel (by omega)
      refine ⟨message :: done, rest, left', rfl, ?_, hleft, ?_⟩
      · rw [stream_cons, append_assoc]
      · rw [drain, nextFrame_encode hmessage]
        simp only [ok_bind, hdrain, map_cons]

/-- A stream the bounds admit. -/
structure Admitted (messages : List Message) : Prop where
  frames : ∀ message ∈ messages, message.total ≤ MAX_EVENTSTREAM_FRAME_BYTES
  whole : (messages.map Message.total).sum ≤ MAX_EVENTSTREAM_BYTES

theorem length_stream (messages : List Message) :
    (stream messages).length = (messages.map Message.total).sum := by
  induction messages with
  | nil => rfl
  | cons message messages ih =>
    rw [stream_cons, length_append, ih, message.length_encode, map_cons, sum_cons]

/-- A decoder that has taken the first bytes of a stream holds those of its unfinished message. -/
def Knows (messages : List Message) (seen : List UInt8) (decoder : EventStreamDecoder) : Prop :=
  decoder.consumed = seen.length ∧
    ∃ done rest, messages = done ++ rest ∧ seen = stream done ++ decoder.buffer ∧
      Short rest decoder.buffer

def frames (messages : List Message) (seen : List UInt8) : List Frame :=
  (complete messages seen.length).map Message.frame

theorem feed_stream (h : Admitted messages) (seen : List UInt8) (decoder : EventStreamDecoder)
    (chunk : List UInt8) (hknows : Knows messages seen decoder)
    (hpart : seen ++ chunk <+: stream messages) :
    ∃ fed, decoder.feed chunk = .ok fed ∧
      Fed (Knows messages) (frames messages) seen chunk fed := by
  obtain ⟨hconsumed, done, rest, rfl, rfl, hshort⟩ := hknows
  have hbound : ¬ MAX_EVENTSTREAM_BYTES < decoder.consumed + chunk.length := by
    have hle := hpart.length_le
    have hwhole := h.whole
    rw [length_stream, length_append] at hle
    omega
  rw [append_assoc, stream_append, prefix_append_right_inj] at hpart
  obtain ⟨taken, todo, left, rfl, hbuffer, hleft, hdrain⟩ :=
    drain_stream (fun m hm => h.frames m (mem_append_right _ hm)) hpart
      ((decoder.buffer ++ chunk).length + 1) (Nat.lt_succ_self _)
  have hseen : stream done ++ decoder.buffer ++ chunk = stream (done ++ taken) ++ left := by
    rw [append_assoc, hbuffer, stream_append, append_assoc]
  refine ⟨({ buffer := left, consumed := decoder.consumed + chunk.length },
    taken.map Message.frame), ?_, ?_, ?_⟩
  · rw [EventStreamDecoder.feed, if_neg hbound]
    simp only [hdrain, ok_bind]
  · refine ⟨?_, done ++ taken, todo, (append_assoc _ _ _).symm, hseen, hleft⟩
    rw [length_append, ← hconsumed]
  · rw [frames, frames, hseen, ← append_assoc, complete_of_short _ hleft,
      append_assoc, complete_of_short _ hshort, map_append]

theorem short_nil (messages : List Message) : Short messages [] :=
  ⟨ nil_prefix, fun message _ => message.total_pos⟩

theorem knows_nil (messages : List Message) : Knows messages [] {} :=
  ⟨rfl, [], messages, rfl, rfl, short_nil messages⟩

/-- Every split of a beginning of the stream is taken, and gives the frames that end in it. -/
theorem feedAll_stream (h : Admitted messages) (chunks : List (List UInt8))
    (hpart : chunks.flatten <+: stream messages) :
    ∃ decoder, feedAll EventStreamDecoder.feed {} chunks =
        .ok (decoder, frames messages chunks.flatten) ∧
      Knows messages chunks.flatten decoder := by
  obtain ⟨⟨decoder, items⟩, hok, hfed⟩ := feedAll_good (Knows messages) (frames messages)
    (· <+: stream messages) (fun seen more hmore => (prefix_append seen more).trans hmore)
    (feed_stream h) chunks (knows_nil messages) hpart
  have hnone : frames messages [] = [] := by
    rw [frames, (short_nil messages).complete]
    rfl
  have hitems := hfed.items
  rw [hnone, nil_append, nil_append] at hitems
  exact ⟨decoder, hitems ▸ hok, hfed.knows⟩

theorem knows_stream {decoder : EventStreamDecoder} (h : Knows messages (stream messages) decoder) :
    decoder.buffer = [] := by
  obtain ⟨-, done, rest, rfl, hseen, hshort⟩ := h
  rw [stream_append, append_right_inj] at hseen
  cases rest with
  | nil => exact hseen.symm
  | cons message rest =>
    have hlt := hshort.2 message rfl
    rw [← hseen, stream_cons, length_append, message.length_encode] at hlt
    omega

theorem finish_of_ne_nil {decoder : EventStreamDecoder} (h : decoder.buffer ≠ []) :
    ∃ declared, decoder.finish = .error (.truncatedFrame declared decoder.buffer.length) := by
  rw [EventStreamDecoder.finish, if_neg (by simpa using h)]
  exact ⟨_, rfl⟩

/-- Messages within the bounds are read back from any split of their bytes; a stream that stops
inside a message is taken and refused at its end. -/
theorem framing_round_trip (messages : List Message) (h : Admitted messages) :
    (∀ chunks : List (List UInt8), chunks.flatten = stream messages →
      ∃ decoder, feedAll EventStreamDecoder.feed {} chunks =
          .ok (decoder, messages.map Message.frame) ∧ decoder.finish = .ok ()) ∧
      ∀ chunks : List (List UInt8), chunks.flatten <+: stream messages →
        (∀ done, done <+: messages → chunks.flatten ≠ stream done) →
        ∃ decoder frames declared remaining,
          feedAll EventStreamDecoder.feed {} chunks = .ok (decoder, frames) ∧
            decoder.finish = .error (.truncatedFrame declared remaining) := by
  constructor
  · intro chunks hchunks
    obtain ⟨decoder, hok, hknows⟩ := feedAll_stream h chunks (hchunks ▸ prefix_rfl)
    rw [hchunks] at hok hknows
    have hbuffer := knows_stream hknows
    have hall : frames messages (stream messages) = messages.map Message.frame := by
      have hdone := complete_of_short messages (short_nil [])
      rw [append_nil, append_nil] at hdone
      rw [frames, hdone]
    refine ⟨decoder, hall ▸ hok, ?_⟩
    rw [EventStreamDecoder.finish, hbuffer]
    rfl
  · intro chunks hpart hboundary
    obtain ⟨decoder, hok, hknows⟩ := feedAll_stream h chunks hpart
    obtain ⟨-, done, rest, rfl, hseen, -⟩ := hknows
    have hbuffer : decoder.buffer ≠ [] := by
      intro hnil
      rw [hnil, append_nil] at hseen
      exact hboundary done (prefix_append done rest) hseen
    obtain ⟨declared, hfinish⟩ := finish_of_ne_nil hbuffer
    exact ⟨decoder, _, declared, _, hok, hfinish⟩

/-- A message with one string header. -/
def greeting : Message where
  headers := [⟨asciiText ":event-type", .string (asciiText "hi") (by decide) (by decide),
    by decide, by decide⟩]
  payload := [0x7B, 0x7D]
  preludeCrc := ⟨[0, 0, 0, 0], rfl⟩
  messageCrc := ⟨[0, 0, 0, 0], rfl⟩

theorem framing_round_trip_greeting :
    (∃ decoder,
      feedAll EventStreamDecoder.feed {} [greeting.encode.take 5, greeting.encode.drop 5] =
        .ok (decoder, [⟨none, some (asciiText "hi"), none, [0x7B, 0x7D]⟩]) ∧
        decoder.finish = .ok ()) ∧
      ∃ decoder frames declared remaining,
        feedAll EventStreamDecoder.feed {} [greeting.encode.take 5] = .ok (decoder, frames) ∧
          decoder.finish = .error (.truncatedFrame declared remaining) := by
  have hadmitted : Admitted [greeting] := ⟨by decide, by decide⟩
  refine ⟨(framing_round_trip [greeting] hadmitted).1 _ (by decide),
    (framing_round_trip [greeting] hadmitted).2 _ ⟨greeting.encode.drop 5, by decide⟩ ?_⟩
  rintro done hdone
  rcases prefix_cons_iff.1 hdone with rfl | ⟨rest, rfl, hrest⟩
  · decide
  · obtain rfl := prefix_nil.1 hrest
    decide

end Rivect.Providers.EventStream
