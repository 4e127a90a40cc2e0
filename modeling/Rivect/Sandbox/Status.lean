import Rivect.Lib.Inclusive
import Rivect.Sandbox.RoundTrip

/-! # The fields of a process status

`parent_status`, `parent_identity` and `parent_decimal`: two scanners of one text, each with its own
running offset. An index outside the text is a failure of its own here.
-/

namespace Rivect.Sandbox

open Lib
open EffectPolicy (Text ascii LF SPACE)

def TAB : UInt8 := 0x09

def isBlank (byte : UInt8) : Bool := byte = SPACE || byte = TAB

/-! ## A decimal value -/

/-- A numeral that starts with a zero has no second digit. -/
def leadingZero (value : Text) (offset : ℕ) (field : UInt8) (first cursor : ℕ) :
    Except Failed Unit :=
  if first < cursor then do
    let leading ← byteAt value first
    require (leading ≠ 0x30) (.refused (.malformed field (UInt64.ofNat (offset + cursor))))
  else .ok ()

/-- The loop over the digits from the first on: the number and the cursor behind it. -/
def decimalLoop (value : Text) (offset : ℕ) (field : UInt8) (first : ℕ) :
    ℕ → ℕ → Text → Except Failed (ℕ × ℕ)
  | cursor, identity, [] => .ok (identity, cursor)
  | cursor, identity, byte :: rest =>
    match decimalDigit byte with
    | none => .ok (identity, cursor)
    | some d => do
      leadingZero value offset field first cursor
      require (identity * 10 + d ≤ i32Max)
        (.refused (.numericOverflow field (UInt64.ofNat (offset + cursor))))
      decimalLoop value offset field first (cursor + 1) (identity * 10 + d) rest

def parentDecimal (value : Text) (offset : ℕ) (field : UInt8) : Except Failed ℕ := do
  let first := (value.takeWhile isBlank).length
  require (first ≠ 0 ∧ (value[first]?.bind decimalDigit).isSome)
    (.refused (.malformed field (UInt64.ofNat (offset + first))))
  let (identity, cursor) ← decimalLoop value offset field first first 0 (value.drop first)
  require (cursor ≠ value.length) (.refused (.earlyEof field
    (UInt64.ofNat (offset + cursor + 1)) (UInt64.ofNat (offset + cursor))))
  require (value.drop cursor = [LF])
    (.refused (.trailing field (UInt64.ofNat (offset + cursor))))
  return identity

/-! ## Lines -/

def stripPrefix (key line : Text) : Option Text :=
  if key.isPrefixOf line then some (line.drop key.length) else none

def STATUS_MAX_BYTES : ℕ := 65536

/-- A text that is not empty ends with a newline. -/
def terminated (field : UInt8) (bytes : Text) : Except Failed Unit :=
  require (bytes = [] ∨ bytes.getLast? = some LF) (.refused (.earlyEof field
    (UInt64.ofNat (bytes.length + 1)) (UInt64.ofNat bytes.length)))

/-- What a scan selected: how often, and the last of it with its offset. -/
structure Selected where
  count : ℕ
  value : Option (Text × ℕ)
  offset : ℕ

def select (key : Text) (selected : Selected) (line : Text) : Selected :=
  match stripPrefix key line with
  | some value => ⟨selected.count + 1, some (value, selected.offset + key.length),
      selected.offset + line.length⟩
  | none => { selected with offset := selected.offset + line.length }

def identityKey (field : UInt8) : Text := if field = 3 then ascii "Pid:" else ascii "PPid:"

def parentIdentity (bytes : Text) (field : UInt8) : Except Failed ℕ := do
  require (bytes.length ≤ STATUS_MAX_BYTES)
    (.refused (.limit field (UInt64.ofNat STATUS_MAX_BYTES) (UInt64.ofNat (STATUS_MAX_BYTES + 1))))
  terminated field bytes
  let selected := (splitInclusive LF bytes).foldl (select (identityKey field)) ⟨0, none, 0⟩
  require (selected.count < 2) (.refused (.duplicate field (UInt64.ofNat selected.count)))
  let (value, offset) ← found selected.value (.refused (.missing field))
  parentDecimal value offset field

/-! ## The status of a task -/

/-- The fields that a task's status must have, in the order in which they are looked for. -/
inductive StatusField where
  | pid
  | tgid
  | tracerPid
  | threads
deriving DecidableEq

namespace StatusField

def key : StatusField → Text
  | pid => ascii "Pid:"
  | tgid => ascii "Tgid:"
  | tracerPid => ascii "TracerPid:"
  | threads => ascii "Threads:"

def code : StatusField → UInt8
  | pid => 3
  | tgid => 4
  | tracerPid => 2
  | threads => 5

def all : List StatusField := [pid, tgid, tracerPid, threads]

end StatusField

/-- A refusal with the boundary it was met at. -/
inductive ParentFailed where
  | refused (boundary : String) (cause : OwnedFaultCause)
  | indexOutOfRange

def Failed.at (boundary : String) : Failed → ParentFailed
  | .refused cause => .refused boundary cause
  | .indexOutOfRange => .indexOutOfRange

abbrev StatusFields := StatusField → Option ℕ

/-- The field that a line states, with its value. -/
def statusField (line : Text) : Option (StatusField × Text) :=
  StatusField.all.findSome? fun field => (stripPrefix field.key line).map (field, ·)

/-- What a line adds to the fields; a traced task is refused at once. -/
def readField (bytes : Text) (fields : StatusFields) (offset : ℕ) (field : StatusField)
    (value : Text) : Except ParentFailed StatusFields := do
  require (fields field = none) (.refused "owned.parent.task_status" (.duplicate field.code
    (UInt64.ofNat ((splitInclusive LF bytes).countP fun line => field.key.isPrefixOf line))))
  let number ← (parentDecimal value (offset + field.key.length) field.code).mapError
    (Failed.at "owned.parent.task_status")
  require (¬ (field = .tracerPid ∧ number ≠ 0))
    (.refused "owned.parent.tracer" (.readback 2 (Int64.ofNat number)))
  return Function.update fields field (some number)

/-- The scan of the lines, each at its offset. -/
def scanLines (bytes : Text) : StatusFields → ℕ → List Text → Except ParentFailed StatusFields
  | fields, _, [] => .ok fields
  | fields, offset, line :: lines =>
    match statusField line with
    | none => scanLines bytes fields (offset + line.length) lines
    | some (field, value) => do
      let fields ← readField bytes fields offset field value
      scanLines bytes fields (offset + line.length) lines

/-- What `parent_status` makes of the bytes it read. -/
def statusOf (bytes : Text) (tid pid : ℕ) : Except ParentFailed ℕ := do
  let fields ← scanLines bytes (fun _ => none) 0 (splitInclusive LF bytes)
  (terminated 9 bytes).mapError (Failed.at "owned.parent.task_status")
  StatusField.all.forM fun field =>
    require ((fields field).isSome) (.refused "owned.parent.task_status" (.missing field.code))
  require (fields .pid = some tid ∧ fields .tgid = some pid)
    (.refused "owned.parent.task_identity" (.unverifiable 7))
  found (fields .threads) (.refused "owned.parent.task_status" (.missing 5))

/-! ## Reading the status file -/

/-- One read of the status file, and what the budget said behind it. -/
structure StatusRead where
  result : Except ParentFailed Text
  budget : Except ParentFailed Unit

def landed (bytes : Text) : Except ParentFailed Unit :=
  require (bytes.length ≤ STATUS_MAX_BYTES) (.refused "owned.parent.task_limit"
    (.limit 9 (UInt64.ofNat STATUS_MAX_BYTES) (UInt64.ofNat bytes.length)))

/-- The loop of reads; a read behind a budget that is spent is a probe for the end. -/
def readLoop : Bool → Text → List StatusRead → Except ParentFailed Text
  | _, bytes, [] => .ok bytes
  | probe, bytes, read :: reads => do
    let chunk ← read.result
    if chunk = [] then return bytes
    landed (bytes ++ chunk)
    match probe, read.budget with
    | true, .error e => throw e
    | false, .error _ => readLoop true (bytes ++ chunk) reads
    | _, .ok () => readLoop false (bytes ++ chunk) reads

def parentStatus (seek : Except ParentFailed Unit) (reads : List StatusRead) (tid pid : ℕ) :
    Except ParentFailed ℕ := do
  seek
  let bytes ← readLoop false [] reads
  statusOf bytes tid pid

end Rivect.Sandbox
