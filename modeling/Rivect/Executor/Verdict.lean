import Rivect.Lib.Utf8
import Rivect.Sandbox.Sequence
import Rivect.TaskStore.Tasks

/-! # The verdict on a confined write

The errors of a worker, and what the helper's exit says about the target (`src/executor.rs`:
`helper_io_bytes`, `owned_classify`, `mutation_unknown`).
-/

namespace Rivect.Executor

open EffectPolicy (Text ascii)
open Utf8 (lossy)
open Sandbox (OwnedFault OwnedFaultCause OwnedProtocolError OwnedRecord OwnedStop)

/-! ## Texts of a child -/

/-- A line without the carriage return at its end. -/
def chomp (line : List Char) : List Char :=
  if line.getLast? = some '\r' then line.dropLast else line

/-- The lines of a text; a last one without a line feed keeps its carriage return. -/
def lines (text : List Char) : List (List Char) :=
  let parts := text.splitOn '\n'
  parts.dropLast.map chomp ++ (parts.getLast?.toList.filter fun line => !line.isEmpty)

/-! ## Errors -/

/-- `std::io::Error`: an errno, or a text of the executor's own. -/
inductive IoError where
  | os (errno : Int32)
  | other (text : List Char)
deriving DecidableEq

inductive ExitStatus where
  | exited (code : UInt8)
  | signaled (signal : UInt8)
deriving DecidableEq, Repr

def ExitStatus.success (status : ExitStatus) : Bool := status = .exited 0

def ExitStatus.code : ExitStatus → Option ℕ
  | .exited code => some code.toNat
  | .signaled _ => none

def ExitStatus.signal : ExitStatus → Option UInt8
  | .exited _ => none
  | .signaled signal => some signal

structure FileIdentity where
  dev : UInt64
  ino : UInt64
deriving DecidableEq

structure OwnedOutput where
  status : ExitStatus
  stdout : Text
  stderr : Text
deriving DecidableEq

/-- The errors that neither a launch builds nor a settlement tells apart. -/
inductive WorkerDenial where
  | ownedReleaseUnavailable
  | ownedSeccomp
  | scopeRootUnavailable
  | targetMissing
  | outsideScope
  | metadataUnavailable
  | notRegularFile
  | targetChanged
  | writeUnavailable
  | execUnavailable
  | egressUnavailable
  | writeTooLarge
  | writeLengthOverflow
  | tooLarge
  | sandboxDenied
  | writeIdentityUnattested
  | writeIdentityUnavailable
deriving DecidableEq

mutual

inductive WorkerError where
  | ownedLaunch (source : OwnedLaunchError)
  | ownedPreparation (boundary : String) (source : IoError)
  | ownedParent (source : String)
  | readFailed (source : IoError)
  | writeFailed (source : IoError)
  | writeMutationFailed (source : IoError)
  | sandboxSpawnFailed (source : IoError)
  | sandboxUnavailable (reason : List Char)
  | confinedRunTimedOut
  | confinedRunKilled (source : IoError)
  | denied (denial : WorkerDenial)

inductive OwnedLaunchError where
  | helper (fault : OwnedFault) (secondary : Option OwnedFault) (source : IoError)
  | protocol (source : OwnedProtocolError)
  | observation (boundary : String) (source : IoError)
  | waiter (status : ExitStatus)
  | unproven (primary : WorkerError) (release : Option WorkerError) (locators : List String)
      (expectedIdentities : List FileIdentity) (stop : Option OwnedStop)
  | release (primary secondary : WorkerError)
  | outputRelease (output : Option OwnedOutput) (terminal : Option OwnedRecord)
      (release : WorkerError) (stop : Option OwnedStop)
  | identity (locator : String) (expected : FileIdentity) (observed : Option FileIdentity)
      (source : Option IoError)
  | close (locator : String) (source : IoError)

end

/-! ## What an exit says -/

def exitOk : ℕ := 0
def exitSandboxInit : ℕ := 10
def exitDataIo : ℕ := 20
def exitDataMutated : ℕ := 21
def exitProtocol : ℕ := 30
def exitLaunchExec : ℕ := 126
def exitLaunchNotFound : ℕ := 127

def confinedRunKilled (status : ExitStatus) : WorkerError :=
  .confinedRunKilled (.other (match status.signal with
    | some signal => "signal ".toList ++ (toString signal.toNat).toList
    | none => (reprStr status).toList))

def helperExitCode (status : ExitStatus) : Except WorkerError ℕ :=
  match status.code with
  | some code => .ok code
  | none => .error (confinedRunKilled status)

/-- The helper's own report that it could not start the program: its line prefix must be there. -/
def helperLaunchInitFailed (observed : OwnedOutput) : Option WorkerError :=
  let stderr := lossy observed.stderr
  let fromHelper := (lines stderr).any fun line => "rivect-sandbox-helper:".toList.isPrefixOf line
  match helperExitCode observed.status with
  | .error _ => none
  | .ok code =>
    if code = exitSandboxInit ∧ fromHelper then some (.sandboxUnavailable stderr)
    else if (code = exitLaunchExec ∨ code = exitLaunchNotFound ∨ code = exitProtocol) ∧ fromHelper
    then some (.sandboxSpawnFailed (.other stderr))
    else none

def isBlankLine (line : List Char) : Bool := line.all isWhiteSpace

def stderrExcerpt (stderr : List Char) : List Char :=
  (((lines stderr).find? fun line => !isBlankLine line).getD []).take 160

def linuxUsernsRecovery : String :=
  "linux recovery: let this user create unprivileged user namespaces (an AppArmor profile " ++
  "granting userns to this program, or kernel.apparmor_restrict_unprivileged_userns=0), keep " ++
  "user.max_user_namespaces above 0 and use util-linux 2.38 or newer; see " ++
  "docs/operations/linux-prerequisites.md"

/-- The first line with text on it is the launcher's. -/
def namesUnshare (stderr : List Char) : Bool :=
  ((lines stderr).find? fun line => !isBlankLine line).any fun line =>
    "unshare: ".toList.isPrefixOf line

def launcherUsernsFailure (exitCode : Option ℕ) (stderr : List Char) : Option WorkerError :=
  if exitCode = some 1 ∧ namesUnshare stderr then
    some (.sandboxUnavailable ("linux user namespace unavailable (unshare --user): ".toList ++
      stderrExcerpt stderr ++ "; ".toList ++ linuxUsernsRecovery.toList))
  else none

def helperIoBytes (observed : OwnedOutput) (read : Bool) : Except WorkerError Text :=
  match helperLaunchInitFailed observed with
  | some error => .error error
  | none => do
    let code ← helperExitCode observed.status
    let stderr := lossy observed.stderr
    match launcherUsernsFailure (some code) stderr with
    | some error => throw error
    | none =>
      if code = exitOk then return observed.stdout
      else if code = exitDataMutated then throw (.writeMutationFailed (.other stderr))
      else if code = exitDataIo then
        throw (if read then .readFailed (.other stderr) else .writeFailed (.other stderr))
      else
        throw (if read then .sandboxSpawnFailed (.other stderr)
          else .writeMutationFailed (.other stderr))

/-- Classifies what was observed; a payload's verdict is kept beside a failed release. -/
def ownedClassify {α : Type} (result : Except WorkerError OwnedOutput)
    (classify : OwnedOutput → Except WorkerError α) : Except WorkerError α :=
  match result with
  | .ok output => classify output
  | .error (.ownedLaunch (.outputRelease (some output) _ release none)) =>
    match classify output with
    | .ok _ => .error release
    | .error primary => .error (.ownedLaunch (.release primary release))
  | .error error => .error error

/-- The error leaves it open whether the target was changed. -/
def mutationUnknown : WorkerError → Bool
  | .writeMutationFailed _ => true
  | .confinedRunTimedOut => true
  | .confinedRunKilled _ => true
  | .ownedLaunch (.unproven ..) => true
  | .ownedLaunch (.release primary _) => mutationUnknown primary
  | .ownedLaunch (.outputRelease output ..) =>
    match output with
    | none => true
    | some output =>
      output.status.signal.isSome || output.status.code == some exitDataMutated
  | _ => false

/-! ## The cases of an exit -/

/-- The exit reports, as the helper's or the launcher's own, that no byte of the target changed. -/
def ReportsUntouched (observed : OwnedOutput) : Bool :=
  (helperLaunchInitFailed observed).isSome ||
    (launcherUsernsFailure observed.status.code (lossy observed.stderr)).isSome ||
    observed.status.code == some exitDataIo

end Rivect.Executor
