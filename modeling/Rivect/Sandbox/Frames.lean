import Rivect.Lib.Fallible
import Rivect.Sandbox.Faults

/-! # Reading a control record

`parse_owned_record_observed`: the byte classes, the words of a frame, and the decoders. An index
outside the frame is a failure of its own here.
-/

namespace Rivect.Sandbox

open Lib
open EffectPolicy (Text ascii LF SPACE)

/-- A refusal with its cause, or the panic of an index that is out of range. -/
inductive Failed where
  | refused (cause : OwnedFaultCause)
  | indexOutOfRange
deriving DecidableEq

structure FrameToken where
  start : ℕ
  stop : ℕ
deriving DecidableEq

def malformedAt (offset : ℕ) : Failed := .refused (.malformed 24 (UInt64.ofNat offset))

def overflowAt (offset : ℕ) : Failed := .refused (.numericOverflow 24 (UInt64.ofNat offset))

def missing : Failed := .refused (.missing 24)

def byteAt (bytes : Text) (index : ℕ) : Except Failed UInt8 :=
  found bytes[index]? .indexOutOfRange

def tokenBytes (bytes : Text) (token : FrameToken) : Except Failed Text :=
  if token.start ≤ token.stop ∧ token.stop ≤ bytes.length then
    .ok ((bytes.drop token.start).take (token.stop - token.start))
  else .error .indexOutOfRange

/-- How many bytes stand before the next blank. -/
def wordLength (bytes : Text) (bodyLen index : ℕ) : Except Failed ℕ :=
  if index < bodyLen then do
    let byte ← byteAt bytes index
    if byte = SPACE then return 0
    return (← wordLength bytes bodyLen (index + 1)) + 1
  else return 0
  termination_by bodyLen - index

/-- The loop of `split_frame_tokens` from one word on. -/
def splitFrom (bytes : Text) (bodyLen index : ℕ) : Except Failed (List FrameToken) :=
  if index < bodyLen then do
    let byte ← byteAt bytes index
    if byte = SPACE then throw (malformedAt index)
    let length ← wordLength bytes bodyLen index
    let separator := index + length
    if separator < bodyLen then
      if separator + 1 = bodyLen then throw (malformedAt separator)
      if (← byteAt bytes (separator + 1)) = SPACE then throw (malformedAt (separator + 1))
      return ⟨index, separator⟩ :: (← splitFrom bytes bodyLen (index + length + 1))
    else return [⟨index, separator⟩]
  else return []
  termination_by bodyLen - index

def splitFrameTokens (bytes : Text) (bodyLen : ℕ) : Except Failed (List FrameToken) :=
  if bodyLen = 0 then .error missing else splitFrom bytes bodyLen 0

def frameToken (tokens : List FrameToken) (index : ℕ) : Except Failed FrameToken :=
  found tokens[index]? missing

/-! ## Numerals -/

def decimalDigit (byte : UInt8) : Option ℕ :=
  if 0x30 ≤ byte ∧ byte ≤ 0x39 then some (byte.toNat - 0x30) else none

def hexDigit (byte : UInt8) : Option ℕ :=
  if 0x30 ≤ byte ∧ byte ≤ 0x39 then some (byte.toNat - 0x30)
  else if 0x61 ≤ byte ∧ byte ≤ 0x66 then some (byte.toNat - 0x61 + 10)
  else none

/-- The loop over the digits of a numeral that starts at `offset`. -/
def readDigits (base max : ℕ) (digit : UInt8 → Option ℕ) : ℕ → ℕ → Text → Except Failed ℕ
  | _, value, [] => .ok value
  | offset, value, byte :: rest => do
    let d ← found (digit byte) (malformedAt offset)
    if max / base < value then throw (overflowAt offset)
    let next := value * base + d
    if max < next then throw (overflowAt offset)
    readDigits base max digit (offset + 1) next rest

def parseDecimal (bytes : Text) (token : FrameToken) (max : ℕ) : Except Failed ℕ := do
  let text ← tokenBytes bytes token
  if text = [] then throw missing
  if 1 < text.length ∧ text.head? = some 0x30 then throw (malformedAt (token.start + 1))
  readDigits 10 max decimalDigit token.start 0 text

/-- The first `present` bytes of a token are hexadecimal digits. -/
def hexBytes (bytes : Text) (start : ℕ) : ℕ → Except Failed Unit
  | 0 => .ok ()
  | present + 1 => do
    hexBytes bytes start present
    let byte ← byteAt bytes (start + present)
    require ((hexDigit byte).isSome = true) (malformedAt (start + present))

def hexText (bytes : Text) (token : FrameToken) (width : ℕ) : Except Failed Unit := do
  let length := token.stop - token.start
  hexBytes bytes token.start (min length width)
  if length < width then throw (malformedAt token.stop)
  if width < length then throw (malformedAt (token.start + width))

def parseHexBounded (bytes : Text) (token : FrameToken) (width max : ℕ) : Except Failed ℕ := do
  hexText bytes token width
  let text ← tokenBytes bytes token
  readDigits 16 max hexDigit token.start 0 text

/-! ## Records -/

def finishRecord (tokens : List FrameToken) (width : ℕ) (record : OwnedRecord) :
    Except Failed OwnedRecord :=
  match tokens[width]? with
  | some token => .error (.refused (.trailing 24 (UInt64.ofNat token.start)))
  | none => .ok record

def u8Max : ℕ := 2 ^ 8 - 1
def u16Max : ℕ := 2 ^ 16 - 1
def i32Max : ℕ := 2 ^ 31 - 1
def u32Max : ℕ := 2 ^ 32 - 1
def u64Max : ℕ := 2 ^ 64 - 1

def OwnedProfile.parse (text : Text) : Option OwnedProfile :=
  [OwnedProfile.worker, .index, .check].find? fun profile => ascii profile.token = text

def decodeEntry (bytes : Text) (tokens : List FrameToken) : Except Failed OwnedRecord := do
  let profileToken ← frameToken tokens 2
  let profile ← found (OwnedProfile.parse (← tokenBytes bytes profileToken))
    (malformedAt profileToken.start)
  let baselineToken ← frameToken tokens 3
  let baseline ← parseDecimal bytes baselineToken u32Max
  if baseline = 0 then throw (malformedAt baselineToken.start)
  let nprocToken ← frameToken tokens 4
  let nproc ← parseDecimal bytes nprocToken u32Max
  if nproc = 0 then throw (malformedAt nprocToken.start)
  let verifiedToken ← frameToken tokens 5
  let verified ← parseDecimal bytes verifiedToken u8Max
  if verified ≠ 63 then throw (malformedAt verifiedToken.start)
  finishRecord tokens 6
    (.entry profile (UInt32.ofNat baseline) (UInt32.ofNat nproc) (UInt8.ofNat verified))

/-- The number of operands of a tag. -/
def faultArity (tag : ℕ) : Option ℕ :=
  if tag ∈ [1, 9, 10, 11, 12, 13, 20, 21, 22] then some 3
  else if tag ∈ [2, 3, 5, 6, 7, 8] then some 2
  else if tag ∈ [4, 15, 16, 17] then some 1
  else if tag ∈ [14, 18, 19] then some 0
  else none

def faultOperandMax (tag index : ℕ) : ℕ :=
  if (tag, index) ∈ [(1, 0), (1, 1), (2, 0), (4, 0), (5, 0), (6, 0), (7, 0), (8, 0), (9, 0),
      (10, 0), (13, 0), (15, 0), (16, 0), (20, 0)] then u8Max
  else if (tag, index) = (1, 2) then i32Max
  else if (tag, index) ∈ [(12, 1), (12, 2), (17, 0), (22, 1), (22, 2)] then u32Max
  else u64Max

/-- The cause that a tag and its three words name; absent words are zero. -/
def faultCause (tag : ℕ) (a b c : ℕ) : Except Failed OwnedFaultCause :=
  match tag with
  | 1 => .ok (.io (UInt8.ofNat a) (UInt8.ofNat b) (Int32.ofNat c))
  | 2 => .ok (.readback (UInt8.ofNat a) (UInt64.ofNat b).toInt64)
  | 3 => .ok (.writeCount (UInt64.ofNat a) (UInt64.ofNat b))
  | 4 => .ok (.missing (UInt8.ofNat a))
  | 5 => .ok (.duplicate (UInt8.ofNat a) (UInt64.ofNat b))
  | 6 => .ok (.malformed (UInt8.ofNat a) (UInt64.ofNat b))
  | 7 => .ok (.numericOverflow (UInt8.ofNat a) (UInt64.ofNat b))
  | 8 => .ok (.trailing (UInt8.ofNat a) (UInt64.ofNat b))
  | 9 => .ok (.limit (UInt8.ofNat a) (UInt64.ofNat b) (UInt64.ofNat c))
  | 10 => .ok (.earlyEof (UInt8.ofNat a) (UInt64.ofNat b) (UInt64.ofNat c))
  | 11 => .ok (.mapMismatch (UInt64.ofNat a) (UInt64.ofNat b) (UInt64.ofNat c))
  | 12 => .ok (.extraMap (UInt64.ofNat a) (UInt32.ofNat b) (UInt32.ofNat c))
  | 13 => .ok (.mismatch (UInt8.ofNat a) (UInt64.ofNat b) (UInt64.ofNat c))
  | 14 => .ok .setgroupsAllow
  | 15 => .ok (.changed (UInt8.ofNat a))
  | 16 => .ok (.unverifiable (UInt8.ofNat a))
  | 17 => .ok (.liveDisappearance (UInt32.ofNat a))
  | 18 => .ok .deadline
  | 19 => .ok .cancelled
  | 20 => .ok (.hardLimitMismatch (UInt8.ofNat a) (UInt64.ofNat b) (UInt64.ofNat c))
  | 21 => .ok (.gidMapMismatch (UInt64.ofNat a) (UInt64.ofNat b) (UInt64.ofNat c))
  | 22 => .ok (.extraGidMap (UInt64.ofNat a) (UInt32.ofNat b) (UInt32.ofNat c))
  | _ => .error (malformedAt 0)

/-- `child_fault_boundary` on the bytes of a token: one that is not UTF-8 and one that is not
listed are refused alike. -/
def childFaultBoundary (text : Text) : Option String :=
  childFaultBoundaries.find? fun name => ascii name = text

/-- The operand words that are present, each within its own bound. -/
def operandWords (bytes : Text) (tag : ℕ) : ℕ → List FrameToken → Except Failed (List ℕ)
  | _, [] => .ok []
  | index, token :: rest => do
    let word ← parseHexBounded bytes token 16 (faultOperandMax tag index)
    return word :: (← operandWords bytes tag (index + 1) rest)

/-- Every operand of an unknown tag is still read as a word. -/
def unknownOperands (bytes : Text) (tokens : List FrameToken) : Except Failed Unit :=
  tokens.forM fun token => hexText bytes token 16

def decodeFault (bytes : Text) (tokens : List FrameToken) : Except Failed OwnedRecord := do
  let boundaryToken ← frameToken tokens 3
  let tagToken ← frameToken tokens 4
  let boundary ← found (childFaultBoundary (← tokenBytes bytes boundaryToken))
    (malformedAt boundaryToken.start)
  let tag ← parseHexBounded bytes tagToken 4 u16Max
  if tokens.length < 5 then throw .indexOutOfRange
  let operands := tokens.drop 5
  match faultArity tag with
  | none =>
    unknownOperands bytes operands
    throw (malformedAt tagToken.start)
  | some arity =>
    let words ← operandWords bytes tag 0 (operands.take (min operands.length arity))
    match operands[arity]? with
    | some token => throw (.refused (.trailing 24 (UInt64.ofNat token.start)))
    | none =>
      if operands.length < arity then throw missing
      let cause ← faultCause tag (words.getD 0 0) (words.getD 1 0) (words.getD 2 0)
      match OwnedFault.new boundary cause with
      | .ok fault => return .fault fault
      | .error _ => throw (malformedAt tagToken.start)

def OwnedStop.parse (text : Text) : Option OwnedStop :=
  [OwnedStop.cancelled, .deadline, .observation, .controlLost].find? fun reason =>
    ascii reason.token = text

def decodeExit (bytes : Text) (tokens : List FrameToken) : Except Failed OwnedRecord := do
  let codeToken ← frameToken tokens 3
  let code ← parseDecimal bytes codeToken u8Max
  finishRecord tokens 4 (.exit (UInt8.ofNat code))

def decodeSignal (bytes : Text) (tokens : List FrameToken) : Except Failed OwnedRecord := do
  let signalToken ← frameToken tokens 3
  let signal ← parseDecimal bytes signalToken u8Max
  if ¬ (1 ≤ signal ∧ signal ≤ 64) then throw (malformedAt signalToken.start)
  finishRecord tokens 4 (.signal (UInt8.ofNat signal))

def decodeStop (bytes : Text) (tokens : List FrameToken) : Except Failed OwnedRecord := do
  let reasonToken ← frameToken tokens 3
  let reason ← found (OwnedStop.parse (← tokenBytes bytes reasonToken))
    (malformedAt reasonToken.start)
  finishRecord tokens 4 (.stop reason)

def decodeTerminal (bytes : Text) (tokens : List FrameToken) : Except Failed OwnedRecord := do
  let verb ← frameToken tokens 2
  let text ← tokenBytes bytes verb
  if text = ascii "exit" then decodeExit bytes tokens
  else if text = ascii "signal" then decodeSignal bytes tokens
  else if text = ascii "stop" then decodeStop bytes tokens
  else if text = ascii "fault" then decodeFault bytes tokens
  else throw (malformedAt verb.start)

def decodeOwnedRecord (bytes : Text) (tokens : List FrameToken) : Except Failed OwnedRecord := do
  let head ← frameToken tokens 0
  if (← tokenBytes bytes head) ≠ ascii "owned-launch-v1" then throw (malformedAt head.start)
  let kind ← frameToken tokens 1
  let text ← tokenBytes bytes kind
  if text = ascii "entry" then decodeEntry bytes tokens
  else if text = ascii "terminal" then decodeTerminal bytes tokens
  else throw (malformedAt kind.start)

/-- `is_ascii_graphic`, or the blank. -/
def plainByte (byte : UInt8) : Bool := (0x21 ≤ byte && byte ≤ 0x7e) || byte = SPACE

/-- The first byte of the body that is neither graphic nor blank. -/
def bodyBytes : ℕ → Text → Except Failed Unit
  | _, [] => .ok ()
  | index, byte :: rest => do
    require (plainByte byte = true) (malformedAt index)
    bodyBytes (index + 1) rest

def parseOwnedRecordObserved (bytes : Text) : Except Failed OwnedRecord := do
  if 128 < bytes.length then throw (.refused (.limit 24 128 (UInt64.ofNat bytes.length)))
  if bytes.getLast? ≠ some LF then
    throw (.refused (.earlyEof 24 (UInt64.ofNat (bytes.length + 1)) (UInt64.ofNat bytes.length)))
  let bodyLen := bytes.length - 1
  bodyBytes 0 (bytes.take bodyLen)
  let tokens ← splitFrameTokens bytes bodyLen
  let record ← decodeOwnedRecord bytes tokens
  if record.encode ≠ .ok bytes then
    throw (malformedAt ((tokens.head?.map FrameToken.start).getD 0))
  return record

def refusalOf (bytes : Text) : OwnedProtocolError :=
  if 128 < bytes.length then .oversize else .malformed

def parseOwnedRecord (bytes : Text) : Except OwnedProtocolError OwnedRecord :=
  match parseOwnedRecordObserved bytes with
  | .ok record => .ok record
  | .error _ => .error (refusalOf bytes)

def parseOwnedFault (bytes : Text) : Except OwnedProtocolError OwnedFault :=
  match parseOwnedRecordObserved bytes with
  | .ok (.fault fault) => .ok fault
  | .ok _ => .error .malformed
  | .error _ => .error (refusalOf bytes)

end Rivect.Sandbox
