import Mathlib.Algebra.Ring.Nat
import Mathlib.Data.List.Basic

/-! # Text as the policy reads it

Strings and paths are the bytes of their spelling. The markers that `src/policy.rs` looks for are
ASCII, so its `str` functions act on the bytes alike.
-/

namespace Rivect.EffectPolicy

abbrev Text := List UInt8

instance : LawfulBEq Text := inferInstance

/-- The bytes of an ASCII literal. -/
def ascii (literal : String) : Text := literal.toList.map fun c => UInt8.ofNat c.toNat

def isUtf8 (bytes : Text) : Bool := (ByteArray.mk bytes.toArray).validateUTF8

def TAB : UInt8 := 0x09

def LF : UInt8 := 0x0a

def CR : UInt8 := 0x0d

def SPACE : UInt8 := 0x20

def HASH : UInt8 := 0x23

def PERCENT : UInt8 := 0x25

def PLUS : UInt8 := 0x2b

def DASH : UInt8 := 0x2d

def DOT : UInt8 := 0x2e

def SLASH : UInt8 := 0x2f

def COLON : UInt8 := 0x3a

def QUESTION : UInt8 := 0x3f

def AT : UInt8 := 0x40

def OPEN : UInt8 := 0x5b

def BACKSLASH : UInt8 := 0x5c

def CLOSE : UInt8 := 0x5d

def isDigit (b : UInt8) : Bool := 0x30 ≤ b && b ≤ 0x39

def isUpper (b : UInt8) : Bool := 0x41 ≤ b && b ≤ 0x5a

def isLower (b : UInt8) : Bool := 0x61 ≤ b && b ≤ 0x7a

def isAlphabetic (b : UInt8) : Bool := isUpper b || isLower b

def isAlphanumeric (b : UInt8) : Bool := isAlphabetic b || isDigit b

def lowerByte (b : UInt8) : UInt8 := if isUpper b then b + 0x20 else b

/-- `to_ascii_lowercase`. -/
def lower (raw : Text) : Text := raw.map lowerByte

/-- Prefix of `raw` before its first byte matching any of `markers`. -/
def untilFirst (raw : Text) (markers : List UInt8) : Text := raw.takeWhile (· ∉ markers)

/-- Around the first `marker`. -/
def splitOnce (marker : UInt8) : Text → Option (Text × Text)
  | [] => none
  | b :: rest =>
    if b = marker then some ([], rest)
    else (splitOnce marker rest).map fun parts => (b :: parts.1, parts.2)

/-- Around the last `marker`. -/
def rsplitOnce (marker : UInt8) (raw : Text) : Option (Text × Text) :=
  (splitOnce marker raw.reverse).map fun parts => (parts.2.reverse, parts.1.reverse)

/-- The pieces between the markers. -/
def split (marker : UInt8) : Text → List Text
  | [] => [[]]
  | b :: rest =>
    if b = marker then [] :: split marker rest
    else
      match split marker rest with
      | [] => [[b]]
      | piece :: pieces => (b :: piece) :: pieces

def stripPrefix (start raw : Text) : Option Text := start.isPrefixOf? raw

def startsWith (start raw : Text) : Bool := start.isPrefixOf raw

/-! ## Percent escapes -/

/-- Numeric value of one percent-escape hex digit. -/
def hexValue (digit : UInt8) : Option UInt8 :=
  if isDigit digit then some (digit - 0x30)
  else if 0x61 ≤ digit ∧ digit ≤ 0x66 then some (digit - 0x61 + 10)
  else if 0x41 ≤ digit ∧ digit ≤ 0x46 then some (digit - 0x41 + 10)
  else none

/-- The byte that two hex digits spell. -/
def escaped (high low : UInt8) : Option UInt8 :=
  match hexValue high, hexValue low with
  | some high, some low => some (high * 16 + low)
  | _, _ => none

def decodeBytes : Text → Option Text
  | [] => some []
  | b :: rest =>
    if b = PERCENT then
      match rest with
      | high :: low :: rest =>
        match escaped high low, decodeBytes rest with
        | some byte, some bytes => some (byte :: bytes)
        | _, _ => none
      | _ => none
    else (decodeBytes rest).map (b :: ·)

/-- Single-pass decode; a malformed escape or bytes that are not UTF-8 have no decoded
spelling. -/
def percentDecode (raw : Text) : Option Text :=
  if PERCENT ∈ raw then (decodeBytes raw).filter isUtf8 else some raw

/-- The decode that keeps malformed escapes, before its bytes are read as lossy UTF-8. -/
def percentDecodeLenient : Text → Text
  | [] => []
  | b :: rest =>
    if b = PERCENT then
      match rest with
      | high :: low :: rest' =>
        match escaped high low with
        | some byte => byte :: percentDecodeLenient rest'
        | none => b :: percentDecodeLenient (high :: low :: rest')
      | rest => b :: percentDecodeLenient rest
    else b :: percentDecodeLenient rest

/-! ## Numbers -/

/-- The value of a digit in the radix. -/
def digitValue (radix : ℕ) (digit : UInt8) : Option ℕ :=
  (hexValue digit).bind fun value => if value.toNat < radix then some value.toNat else none

/-- `from_str_radix` below the limit: an optional plus sign, then digits. -/
def parseRadix (radix limit : ℕ) (raw : Text) : Option ℕ :=
  let digits := match raw with
    | b :: rest => if b = PLUS then rest else raw
    | [] => raw
  if digits = [] then none
  else
    (digits.foldlM (fun value digit => (digitValue radix digit).map (value * radix + ·)) 0).filter
      (· < limit)

def parseU16 (raw : Text) : Option ℕ := parseRadix 10 (2 ^ 16) raw

/-- The decimal digits of a number. -/
def decimal (n : ℕ) : Text := (Nat.toDigits 10 n).map fun c => UInt8.ofNat c.toNat

end Rivect.EffectPolicy
