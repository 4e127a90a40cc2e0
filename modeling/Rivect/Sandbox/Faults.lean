import Mathlib.Data.Nat.Digits.Defs
import Rivect.Policy.Text

/-! # Owned-launch control records

The records that the sandbox helper and its parent exchange
(`crates/rivect-sandbox-helper/src/lib.rs`): the causes of a fault, the boundaries they may be
observed at, and the frame of each record.
-/

namespace Rivect.Sandbox

open EffectPolicy (Text ascii LF SPACE)

inductive OwnedFaultCause where
  | io (operation field : UInt8) (errno : Int32)
  | readback (field : UInt8) (actual : Int64)
  | writeCount (requested returned : UInt64)
  | missing (field : UInt8)
  | duplicate (field : UInt8) (count : UInt64)
  | malformed (field : UInt8) (offset : UInt64)
  | numericOverflow (field : UInt8) (offset : UInt64)
  | trailing (field : UInt8) (offset : UInt64)
  | limit (field : UInt8) (bound observed : UInt64)
  | earlyEof (field : UInt8) (expected observed : UInt64)
  | mapMismatch (insidePair outsidePair countPair : UInt64)
  | extraMap (ordinalCount : UInt64) (inside outside : UInt32)
  | mismatch (field : UInt8) (expected observed : UInt64)
  | setgroupsAllow
  | changed (field : UInt8)
  | unverifiable (field : UInt8)
  | liveDisappearance (tid : UInt32)
  | deadline
  | cancelled
  | hardLimitMismatch (field : UInt8) (expected observed : UInt64)
  | gidMapMismatch (insidePair outsidePair countPair : UInt64)
  | extraGidMap (ordinalCount : UInt64) (inside outside : UInt32)
deriving DecidableEq

inductive OwnedProtocolError where
  | malformed
  | oversize
deriving DecidableEq

/-! ## Where a cause may be observed -/

def childFaultBoundaries : List String :=
  ["owned.waiter.initial_dumpable", "owned.waiter.dumpable", "owned.init.dumpable",
    "owned.waiter.initial_tracer", "owned.waiter.tracer", "owned.waiter.overflow_uid",
    "owned.waiter.overflow_gid", "owned.namespace.user", "owned.namespace.mount",
    "owned.namespace.pid", "owned.namespace.setgroups.open", "owned.namespace.uid_map.open",
    "owned.namespace.gid_map.open", "owned.namespace.setgroups", "owned.namespace.uid_map",
    "owned.namespace.gid_map", "owned.namespace.setgroups.readback",
    "owned.namespace.uid_map.readback", "owned.namespace.gid_map.readback",
    "owned.namespace.setgroups.close", "owned.namespace.uid_map.close",
    "owned.namespace.gid_map.close", "owned.waiter.parent_death", "owned.init.parent_death",
    "owned.init.fork", "owned.init.proc", "owned.resource.census", "owned.resource.limit",
    "owned.child.capabilities", "owned.child.fence", "owned.child.control_close",
    "owned.child.spawn", "owned.protocol.entry", "owned.protocol.terminal",
    "owned.protocol.write", "owned.protocol.read", "owned.protocol.grammar"]

def faultReaderCap (field : UInt8) : Option UInt64 :=
  if field ∈ [(12 : UInt8), 13] then some 32
  else if field = 24 then some 128
  else if field ∈ [(2 : UInt8), 3, 4, 5, 6, 8, 9, 14, 15, 16, 31] then some 65536
  else none

def fieldValueFits (field : UInt8) (value : UInt64) : Bool :=
  if field ∈ [(3 : UInt8), 4, 5, 12, 13, 17, 18, 22, 31, 33] then value.toNat < 2 ^ 32
  else if 6 ≤ field ∧ field ≤ 8 then value ≤ 4096
  else if field = 9 then value ≤ 65537
  else if field = 10 then value ≤ 5
  else if field = 11 then value ≤ 250
  else if 14 ≤ field ∧ field ≤ 16 then value ≤ 65537
  else if field ∈ [(19 : UInt8), 20, 32] then value.toNat < 2 ^ 31
  else if field = 21 then value.toNat < 2 ^ 8
  else if field = 24 then value ≤ 129
  else if (25 ≤ field ∧ field ≤ 29) ∨ (34 ≤ field ∧ field ≤ 40) then true
  else if field = 30 then 1 ≤ value && value ≤ 64
  else if field = 41 then value ≤ 1
  else false

def parentDeath (boundary : String) : Bool :=
  boundary ∈ ["owned.waiter.parent_death", "owned.init.parent_death"]

def mapReadback (boundary : String) : Bool :=
  boundary ∈ ["owned.namespace.setgroups.readback", "owned.namespace.uid_map.readback",
    "owned.namespace.gid_map.readback"]

def mapOpen (boundary : String) : Bool :=
  boundary ∈ ["owned.namespace.setgroups.open", "owned.namespace.uid_map.open",
    "owned.namespace.gid_map.open"]

def semanticField (boundary : String) (field : UInt8) : Bool :=
  match boundary with
  | "owned.resource.census" => field ∈ [(7 : UInt8), 8, 22]
  | "owned.resource.limit" => 35 ≤ field && field ≤ 40
  | "owned.child.capabilities" => (25 ≤ field && field ≤ 29) || field = 41
  | "owned.waiter.parent_death" => field ∈ [(3 : UInt8), 31]
  | "owned.init.parent_death" => field ∈ [(3 : UInt8), 31]
  | "owned.protocol.read" => field = 24
  | "owned.protocol.grammar" => field = 24
  | "owned.child.spawn" => field ∈ [(20 : UInt8), 21, 22, 32, 39]
  | _ =>
    if mapOpen boundary then field ∈ [(19 : UInt8), 32, 33, 34]
    else if mapReadback boundary then field ∈ [(17 : UInt8), 18]
    else false

def shapeField (boundary : String) (field : UInt8) : Bool :=
  match boundary with
  | "owned.waiter.initial_tracer" => field = 2
  | "owned.waiter.tracer" => field = 2
  | "owned.waiter.overflow_uid" => field = 12
  | "owned.waiter.overflow_gid" => field = 13
  | "owned.resource.census" => field ∈ [(3 : UInt8), 4, 5, 6, 8, 9]
  | "owned.protocol.read" => field = 24
  | "owned.protocol.grammar" => field = 24
  | "owned.child.spawn" => field = 24
  | "owned.waiter.parent_death" => field ∈ [(3 : UInt8), 31]
  | "owned.init.parent_death" => field ∈ [(3 : UInt8), 31]
  | _ => if mapReadback boundary then field ∈ [(2 : UInt8), 14, 15, 16] else false

/-- The operation and field that an errno may be observed with at a boundary. -/
def ioValidAt (boundary : String) (operation field : UInt8) : Bool :=
  match boundary with
  | "owned.waiter.initial_dumpable" => operation = 2 && field = 1
  | "owned.waiter.dumpable" => operation ∈ [(1 : UInt8), 2] && field = 1
  | "owned.init.dumpable" => operation ∈ [(1 : UInt8), 2] && field = 1
  | "owned.waiter.initial_tracer" => operation ∈ [(4 : UInt8), 5, 8] && field = 2
  | "owned.waiter.tracer" => operation ∈ [(4 : UInt8), 5, 8] && field = 2
  | "owned.waiter.overflow_uid" => operation ∈ [(4 : UInt8), 5] && field = 12
  | "owned.waiter.overflow_gid" => operation ∈ [(4 : UInt8), 5] && field = 13
  | "owned.namespace.user" => operation = 3 && field = 0
  | "owned.namespace.mount" => operation = 3 && field = 0
  | "owned.namespace.pid" => operation = 3 && field = 0
  | "owned.namespace.setgroups" => operation = 6 && field = 0
  | "owned.namespace.uid_map" => operation = 6 && field = 0
  | "owned.namespace.gid_map" => operation = 6 && field = 0
  | "owned.namespace.setgroups.close" => operation = 7 && field = 0
  | "owned.namespace.uid_map.close" => operation = 7 && field = 0
  | "owned.namespace.gid_map.close" => operation = 7 && field = 0
  | "owned.waiter.parent_death" =>
    (operation = 12 && field = 30) || (operation ∈ [(4 : UInt8), 5, 7] && field ∈ [(3 : UInt8), 31])
  | "owned.init.parent_death" =>
    (operation = 12 && field = 30) || (operation ∈ [(4 : UInt8), 5, 7] && field ∈ [(3 : UInt8), 31])
  | "owned.init.fork" => operation = 13 && field = 0
  | "owned.init.proc" => operation = 15 && field = 0
  | "owned.resource.census" =>
    (operation ∈ [(4 : UInt8), 10] && field = 8) ||
      (operation ∈ [(4 : UInt8), 5, 8] && field = 6) ||
      (operation = 5 && field ∈ [(3 : UInt8), 4, 5])
  | "owned.resource.limit" => operation ∈ [(26 : UInt8), 27] && (35 ≤ field && field ≤ 40)
  | "owned.child.capabilities" =>
    (operation ∈ [(16 : UInt8), 17] && field = 0) ||
      (operation ∈ [(28 : UInt8), 29] && field = 29) ||
      (operation ∈ [(30 : UInt8), 31] && field = 28) ||
      (operation ∈ [(32 : UInt8), 33] && field = 41)
  | "owned.child.fence" => operation = 18 && field = 0
  | "owned.child.control_close" => operation = 7 && field = 20
  | "owned.child.spawn" =>
    (operation = 23 && field = 20) || (operation = 19 && field ∈ [(20 : UInt8), 32]) ||
      (operation = 7 && field ∈ [(0 : UInt8), 20]) ||
      (operation ∈ [(13 : UInt8), 14, 24, 25] && field = 0) ||
      (operation ∈ [(5 : UInt8), 6, 22] && field = 24)
  | "owned.protocol.entry" => operation = 6 && field = 24
  | "owned.protocol.terminal" => operation = 6 && field = 24
  | "owned.protocol.write" => operation = 6 && field = 24
  | "owned.protocol.read" => operation ∈ [(5 : UInt8), 22] && field = 24
  | _ =>
    if mapOpen boundary then
      (operation = 4 && field = 0) || (operation = 11 && field = 19) ||
        (operation = 19 && field = 32)
    else if mapReadback boundary then
      (operation ∈ [(4 : UInt8), 5, 8] && field ∈ [(14 : UInt8), 15, 16, 2]) ||
        (operation = 2 && field = 1)
    else false

/-- A field that was read back with another value. -/
def readbackValidAt (boundary : String) (field : UInt8) (actual : Int64) : Bool :=
  if field = 1 then
    decide (-2 ^ 31 ≤ actual.toInt) && decide (actual.toInt < 2 ^ 31) && actual != -1 &&
      match boundary with
      | "owned.waiter.initial_dumpable" => actual != 0 && actual != 1
      | "owned.waiter.dumpable" => actual != 0
      | "owned.init.dumpable" => actual != 0
      | _ => mapReadback boundary && actual != 0
  else if field = 2 then
    decide (0 ≤ actual.toInt) && decide (actual.toInt < 2 ^ 32) && decide (0 < actual.toInt) &&
      (mapReadback boundary ||
        boundary ∈ ["owned.waiter.initial_tracer", "owned.waiter.tracer"])
  else false

/-- An offset into what a bounded reader read. -/
def offsetValidAt (boundary : String) (field : UInt8) (offset : UInt64) : Bool :=
  shapeField boundary field && (faultReaderCap field).any fun cap => offset ≤ cap + 1

def limitValidAt (boundary : String) (field : UInt8) (limit observed : UInt64) : Bool :=
  shapeField boundary field && limit < observed && fieldValueFits field limit &&
    fieldValueFits field observed &&
      (!parentDeath boundary || (limit = 65536 && observed = 65537))

def earlyEofValidAt (boundary : String) (field : UInt8) (expected observed : UInt64) : Bool :=
  shapeField boundary field && observed < expected && fieldValueFits field expected &&
    fieldValueFits field observed &&
      (!parentDeath boundary || (expected = observed + 1 && expected ≤ 65537))

def mapMismatchValidAt (boundary : String) (pairs : List UInt64) : Bool :=
  mapReadback boundary && pairs.any fun pair => pair >>> 32 != pair &&& 0xffffffff

def extraMapValidAt (boundary : String) (ordinalCount : UInt64) (written : Bool) : Bool :=
  let ordinal := ordinalCount >>> 32
  let count := ordinalCount &&& 0xffffffff
  mapReadback boundary && ordinal < count && (!written || 1 ≤ ordinal)

def mismatchValidAt (boundary : String) (field : UInt8) (expected observed : UInt64) : Bool :=
  semanticField boundary field && expected != observed && fieldValueFits field expected &&
    fieldValueFits field observed &&
      (!parentDeath boundary ||
        (0 < expected && decide (expected.toNat < 2 ^ 31) && decide (observed.toNat < 2 ^ 31))) &&
      (boundary != "owned.child.spawn" ||
        if field = 20 then expected = 3 && observed < 3
        else if field = 21 then expected = 63
        else if field = 22 ∨ field = 39 then
          0 < expected && decide (expected.toNat < 2 ^ 32) && decide (observed.toNat < 2 ^ 32)
        else if field = 32 then expected = 1 && observed &&& 1 = 0
        else false)

def changedValidAt (boundary : String) (field : UInt8) : Bool :=
  boundary != "owned.protocol.grammar" && boundary != "owned.child.spawn" &&
    semanticField boundary field && boundary != "owned.resource.limit" &&
    boundary != "owned.child.capabilities" && !mapReadback boundary &&
    (!parentDeath boundary || field = 31)

def unverifiableValidAt (boundary : String) (field : UInt8) : Bool :=
  (if parentDeath boundary then
      field = 31 || (field = 3 && boundary = "owned.waiter.parent_death")
    else if boundary = "owned.child.spawn" then field = 24
    else semanticField boundary field) &&
    boundary != "owned.resource.limit" && boundary != "owned.child.capabilities" &&
    !mapReadback boundary

def causeValidAt (boundary : String) : OwnedFaultCause → Bool
  | .io operation field errno => 0 < errno && ioValidAt boundary operation field
  | .readback field actual => readbackValidAt boundary field actual
  | .liveDisappearance _ => false
  | .writeCount requested returned =>
    0 < requested && returned < requested &&
      (boundary != "owned.child.spawn" || requested ≤ 128) &&
      boundary ∈ ["owned.namespace.setgroups", "owned.namespace.uid_map",
        "owned.namespace.gid_map", "owned.protocol.entry", "owned.protocol.terminal",
        "owned.protocol.write", "owned.child.spawn"]
  | .missing field => shapeField boundary field
  | .duplicate field count => shapeField boundary field && 2 ≤ count
  | .malformed field offset => offsetValidAt boundary field offset
  | .numericOverflow field offset => offsetValidAt boundary field offset
  | .trailing field offset => offsetValidAt boundary field offset
  | .limit field bound observed => limitValidAt boundary field bound observed
  | .earlyEof field expected observed => earlyEofValidAt boundary field expected observed
  | .mapMismatch insidePair outsidePair countPair =>
    mapMismatchValidAt boundary [insidePair, outsidePair, countPair]
  | .gidMapMismatch insidePair outsidePair countPair =>
    mapMismatchValidAt boundary [insidePair, outsidePair, countPair]
  | .extraMap ordinalCount _ _ =>
    extraMapValidAt boundary ordinalCount (boundary != "owned.namespace.setgroups.readback")
  | .extraGidMap ordinalCount _ _ =>
    extraMapValidAt boundary ordinalCount (boundary = "owned.namespace.gid_map.readback")
  | .mismatch field expected observed => mismatchValidAt boundary field expected observed
  | .hardLimitMismatch field expected observed =>
    boundary = "owned.resource.limit" && (35 ≤ field && field ≤ 40) && expected != observed
  | .setgroupsAllow => mapReadback boundary
  | .changed field => changedValidAt boundary field
  | .unverifiable field => unverifiableValidAt boundary field
  | .deadline => true
  | .cancelled => true

/-- A fault as `OwnedFault::new` admits it. -/
structure OwnedFault where
  boundary : String
  cause : OwnedFaultCause
  admitted : boundary ∈ childFaultBoundaries ∧ causeValidAt boundary cause = true
deriving DecidableEq

def OwnedFault.new (boundary : String) (cause : OwnedFaultCause) :
    Except OwnedProtocolError OwnedFault :=
  if h : boundary ∈ childFaultBoundaries ∧ causeValidAt boundary cause = true then
    .ok ⟨boundary, cause, h⟩
  else .error .malformed

/-! ## The frame of a record -/

/-- The digit of a number below sixteen. -/
def digitByte (d : ℕ) : UInt8 := if d < 10 then UInt8.ofNat (0x30 + d) else UInt8.ofNat (0x57 + d)

/-- The decimal digits of a number, most significant first. -/
def decimalDigits (n : ℕ) : List ℕ := if n = 0 then [0] else (Nat.digits 10 n).reverse

def decimal (n : ℕ) : Text := (decimalDigits n).map digitByte

/-- As many hexadecimal digits as the width says. -/
def hexDigits : ℕ → ℕ → List ℕ
  | 0, _ => []
  | width + 1, n => hexDigits width (n / 16) ++ [n % 16]

def hex (width n : ℕ) : Text := (hexDigits width n).map digitByte

/-- Words, one blank between two, and a line feed. -/
def frameOf (words : List Text) : Text := List.intercalate [SPACE] words ++ [LF]

/-- The tag of a cause and its operand words. -/
def OwnedFaultCause.words : OwnedFaultCause → ℕ × List UInt64
  | .io operation field errno => (1, [operation.toUInt64, field.toUInt64, errno.toInt64.toUInt64])
  | .readback field actual => (2, [field.toUInt64, actual.toUInt64])
  | .writeCount requested returned => (3, [requested, returned])
  | .missing field => (4, [field.toUInt64])
  | .duplicate field count => (5, [field.toUInt64, count])
  | .malformed field offset => (6, [field.toUInt64, offset])
  | .numericOverflow field offset => (7, [field.toUInt64, offset])
  | .trailing field offset => (8, [field.toUInt64, offset])
  | .limit field bound observed => (9, [field.toUInt64, bound, observed])
  | .earlyEof field expected observed => (10, [field.toUInt64, expected, observed])
  | .mapMismatch insidePair outsidePair countPair => (11, [insidePair, outsidePair, countPair])
  | .extraMap ordinalCount inside outside => (12, [ordinalCount, inside.toUInt64, outside.toUInt64])
  | .mismatch field expected observed => (13, [field.toUInt64, expected, observed])
  | .setgroupsAllow => (14, [])
  | .changed field => (15, [field.toUInt64])
  | .unverifiable field => (16, [field.toUInt64])
  | .liveDisappearance tid => (17, [tid.toUInt64])
  | .deadline => (18, [])
  | .cancelled => (19, [])
  | .hardLimitMismatch field expected observed => (20, [field.toUInt64, expected, observed])
  | .gidMapMismatch insidePair outsidePair countPair =>
    (21, [insidePair, outsidePair, countPair])
  | .extraGidMap ordinalCount inside outside =>
    (22, [ordinalCount, inside.toUInt64, outside.toUInt64])

/-- A frame, unless it is longer than the bound of the protocol. -/
def bounded (frame : Text) : Except OwnedProtocolError Text :=
  if 128 < frame.length then .error .oversize else .ok frame

def OwnedFault.encode (fault : OwnedFault) : Except OwnedProtocolError Text := do
  let _ ← OwnedFault.new fault.boundary fault.cause
  let (tag, operands) := fault.cause.words
  bounded (frameOf ([ascii "owned-launch-v1", ascii "terminal", ascii "fault",
    ascii fault.boundary, hex 4 tag] ++ operands.map fun word => hex 16 word.toNat))

inductive OwnedProfile where
  | worker
  | index
  | check
deriving DecidableEq

def OwnedProfile.token : OwnedProfile → String
  | .worker => "worker"
  | .index => "index"
  | .check => "check"

inductive OwnedStop where
  | cancelled
  | deadline
  | observation
  | controlLost
deriving DecidableEq

def OwnedStop.token : OwnedStop → String
  | .cancelled => "cancelled"
  | .deadline => "deadline"
  | .observation => "observation"
  | .controlLost => "control_lost"

inductive OwnedRecord where
  | entry (profile : OwnedProfile) (baseline nproc : UInt32) (verified : UInt8)
  | exit (code : UInt8)
  | signal (number : UInt8)
  | stop (reason : OwnedStop)
  | fault (observed : OwnedFault)
deriving DecidableEq

def OwnedRecord.encode : OwnedRecord → Except OwnedProtocolError Text
  | .entry profile baseline nproc verified =>
    if verified = 63 ∧ 0 < baseline ∧ 0 < nproc then
      bounded (frameOf [ascii "owned-launch-v1", ascii "entry", ascii profile.token,
        decimal baseline.toNat, decimal nproc.toNat, decimal verified.toNat])
    else .error .malformed
  | .exit code =>
    bounded (frameOf [ascii "owned-launch-v1", ascii "terminal", ascii "exit", decimal code.toNat])
  | .signal number =>
    if 1 ≤ number ∧ number ≤ 64 then
      bounded (frameOf [ascii "owned-launch-v1", ascii "terminal", ascii "signal",
        decimal number.toNat])
    else .error .malformed
  | .stop reason =>
    bounded (frameOf [ascii "owned-launch-v1", ascii "terminal", ascii "stop", ascii reason.token])
  | .fault observed => observed.encode

end Rivect.Sandbox
