import Rivect.Base.Store

/-! # The record of an update attempt

The schema of `src/update.rs`: what one attempt retains, the failures it may carry, and the checks
a record passes before it is written and after it is read.
-/

namespace Rivect.Update

open Lib Base

def EVIDENCE_VERSION : ℕ := 1
def EVIDENCE_MAX_BYTES : ℕ := 8192
def EVIDENCE_MAX_RECORDS : ℕ := 32
def EVIDENCE_MAX_TOTAL_BYTES : ℕ := 262144
def SECONDARY_MAX : ℕ := 8

inductive UpdateBoundary where
  | owner
  | identity
  | evidenceReserve
  | evidenceWrite
  | checkpointSpace
  | checkpointCreate
  | checkpointSync
  | baseStage
  | semantic
  | policy
  | smoke
  | baseActivate
  | checkpointCleanup
  | transactionRollback
  | outcomeRead
  | evidenceTerminal
  | basePage
deriving DecidableEq

inductive Terminal where
  | inProgress
  | success
  | nonzero
  | rejected
  | timeout
  | signal
  | cleanupFailure
deriving DecidableEq

inductive CleanupState where
  | pending
  | done
  | failed
deriving DecidableEq

inductive FailureReason where
  | invalidDetail
  | redactedSecret
  | additionalFailures
  | outcomeUnknown
deriving DecidableEq

structure StoreTuple where
  schema : ℕ
  base : ℕ
  policy : String
deriving DecidableEq

structure Failure where
  boundary : UpdateBoundary
  code : ErrorCode
  reason : Option FailureReason
  detail : Option String
deriving DecidableEq

structure UpdateEvidence where
  version : ℕ
  attemptId : String
  offeredBase : Option ℕ
  oldTuple : Option StoreTuple
  observedTuple : Option StoreTuple
  pending : Option UpdateBoundary
  terminal : Terminal
  phase : Option UpdatePhase
  firstFailure : Option Failure
  secondary : List Failure
  cleanup : CleanupState
  resolved : Bool
deriving DecidableEq

/-! ## Failures -/

def isTokenByte (c : Char) : Bool :=
  c.isLower || c.isDigit || c = '_' || c = '.' || c = '-'

/-- `[a-z][a-z0-9_.-]{0,63}`. -/
def boundedToken (raw : String) : Bool :=
  match raw.toList with
  | [] => false
  | first :: rest => first.isLower && raw.toList.length ≤ 64 && rest.all isTokenByte

def SECRET_MARKERS : List String :=
  ["secret", "token", "password", "passwd", "apikey", "api_key", "credential", "bearer"]

def classifyDetail (raw : String) : Option FailureReason × Option String :=
  if boundedToken raw = false then (some .invalidDetail, none)
  else if SECRET_MARKERS.any fun marker => decide (marker.toList <:+: raw.toList) then
    (some .redactedSecret, none)
  else (none, some raw)

def Failure.at (boundary : UpdateBoundary) (code : ErrorCode) (detail : Option String) : Failure :=
  let kept := match detail with
    | none => (if code = ErrorCode.outcomeUnknown then some FailureReason.outcomeUnknown else none, none)
    | some raw => classifyDetail raw
  ⟨boundary, code, kept.1, kept.2⟩

namespace UpdateEvidence

def new (attemptId : String) (offeredBase : Option ℕ) : UpdateEvidence where
  version := EVIDENCE_VERSION
  attemptId := attemptId
  offeredBase := offeredBase
  oldTuple := none
  observedTuple := none
  pending := none
  terminal := .inProgress
  phase := none
  firstFailure := none
  secondary := []
  cleanup := .pending
  resolved := false

/-- The first cause stays; later ones fill eight slots, and a ninth takes the eighth. -/
def noteFailure (evidence : UpdateEvidence) (failure : Failure) : UpdateEvidence :=
  if evidence.firstFailure = none then { evidence with firstFailure := some failure }
  else if evidence.secondary.length < SECONDARY_MAX then
    { evidence with secondary := evidence.secondary ++ [failure] }
  else
    let overflow := { failure with reason := some .additionalFailures, detail := none }
    { evidence with secondary := evidence.secondary.set (SECONDARY_MAX - 1) overflow }

/-- Neither settled nor a success: the record of an attempt that an operator has to act on. -/
def Unresolved (evidence : UpdateEvidence) : Prop :=
  evidence.resolved = false ∧ evidence.terminal ≠ .success

instance (evidence : UpdateEvidence) : Decidable evidence.Unresolved := by
  unfold Unresolved
  infer_instance

end UpdateEvidence

/-! ## Refusals -/

inductive UpdateError where
  | identity
  | saturated
  | record (detail : String)
  | snapshotName
  | reserve
  | write
  | read
  | space
  | create
  | sync
  | cleanup (source : UpdateError)
  | activation (boundary : UpdateBoundary) (refusal : BaseError)
  | terminalWrite (source : UpdateError)
deriving DecidableEq

def deltaCode : DeltaError → ErrorCode
  | .alreadyRecorded _ | .activationRefused .. | .rollbackRefused .. | .corpusMissing ..
  | .corpusRejected .. | .compositionExceeded .. => .conflict
  | _ => .invalidInput

def storeCode : StoreError → ErrorCode
  | .notFound _ => .notFound
  | .conflict (.budgetExhausted ..) => .budgetExhausted
  | .conflict _ => .conflict
  | .staleIntent .. => .staleIntent
  | .alreadyTerminal => .alreadyTerminal
  | .invalidInput _ => .invalidInput
  | .storage | .closed | .eventExists => .storageUnavailable
  | .delta error => deltaCode error

/-- The wire code of a refusal of the base ledger. -/
def baseCode : BaseError → ErrorCode
  | .store error => storeCode error
  | .document error => if error.stage = .resolve then .conflict else .invalidInput
  | .invalidPage _ => .invalidInput
  | .rollbackFailed _ | .outcomeUnread _ => .storageUnavailable
  | _ => .conflict

namespace UpdateError

def boundary : UpdateError → UpdateBoundary
  | .identity => .identity
  | .saturated | .reserve => .evidenceReserve
  | .record _ | .write | .read => .evidenceWrite
  | .space => .checkpointSpace
  | .create => .checkpointCreate
  | .snapshotName | .sync => .checkpointSync
  | .cleanup _ => .checkpointCleanup
  | .terminalWrite _ => .evidenceTerminal
  | .activation boundary _ => boundary

def code : UpdateError → ErrorCode
  | .activation _ refusal => baseCode refusal
  | _ => .storageUnavailable

end UpdateError

/-! ## The checks of a record -/

def isHexDigit (c : Char) : Bool :=
  c.isDigit || ('a' ≤ c && c ≤ 'f') || ('A' ≤ c && c ≤ 'F')

/-- The hyphenated form, the only one of 36 bytes: a hyphen after 8, 12, 16 and 20 digits. -/
def generatedUuid (stem : String) : Bool :=
  stem.toList.length = 36 &&
    stem.toList.zipIdx.all fun (c, at_) =>
      if at_ ∈ [8, 13, 18, 23] then c = '-' else isHexDigit c

def isPolicyGeneration (policy : String) : Bool :=
  policy.toList.length = 64 && policy.toList.all fun c => c.isDigit || ('a' ≤ c && c ≤ 'f')

/-- The name of a record file: a generated stem before `.json`. -/
structure RecordName where
  stem : String
  generated : generatedUuid stem = true
deriving DecidableEq

def recordName (attemptId : String) : Except UpdateError RecordName :=
  if generated : generatedUuid attemptId = true then .ok ⟨attemptId, generated⟩
  else .error (.record "the attempt id is not a generated uuid")

/-- What the schema refuses of a tuple. -/
def tupleOutside (tuple : StoreTuple) : Bool :=
  tuple.schema > 2 ^ 31 - 1 || !isPolicyGeneration tuple.policy

def validate (evidence : UpdateEvidence) : Except UpdateError Unit := do
  require (evidence.version = EVIDENCE_VERSION)
    (.record "the record version is not this schema")
  require (generatedUuid evidence.attemptId = true)
    (.record "the attempt id is not a generated uuid")
  require (evidence.offeredBase.all (· ≤ 2 ^ 63 - 1) = true)
    (.record "the offered base is past the storable range")
  require ((evidence.oldTuple.toList ++ evidence.observedTuple.toList).any tupleOutside = false)
    (.record "the stored tuple is outside its schema")
  require (evidence.secondary.length ≤ SECONDARY_MAX)
    (.record "the secondary failures exceed their bound")
  require (((evidence.firstFailure.toList ++ evidence.secondary).all fun failure =>
      failure.detail.all boundedToken) = true)
    (.record "the retained detail is not a bounded token")

end Rivect.Update
