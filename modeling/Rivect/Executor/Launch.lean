import Rivect.Executor.Verdict

/-! # Observing one owned launch

The loop of `run_owned` over the answers of its surroundings, one turn at a time, and what a launch
comes to once the loop has ended.
-/

namespace Rivect.Executor

open EffectPolicy (Text LF ascii)
open Sandbox (OwnedFault OwnedFaultCause OwnedProtocolError OwnedProfile OwnedRecord OwnedSequence
  OwnedStop parseOwnedRecord)

def ownedObservation (boundary : String) (source : IoError) : WorkerError :=
  .ownedLaunch (.observation boundary source)

def protocolError (source : OwnedProtocolError) : WorkerError := .ownedLaunch (.protocol source)

/-- A helper deadline is the caller's wall timeout. -/
def ownedHelperFault (fault : OwnedFault) (secondary : Option OwnedFault) : WorkerError :=
  match fault.cause with
  | .deadline => .confinedRunTimedOut
  | .io _ _ errno => .ownedLaunch (.helper fault secondary (.os errno))
  | _ => .ownedLaunch (.helper fault secondary (.other "owned helper predicate failed".toList))

/-! ## The surroundings of a turn -/

/-- A read of the control socket or of a pipe; the end of the stream is an empty read. -/
inductive Reading where
  | eof
  | bytes (read : Text)
  | wouldBlock
  | failed (source : IoError)
deriving DecidableEq

inductive Writing where
  | wrote (count : ℕ)
  | wouldBlock
  | failed (source : IoError)
deriving DecidableEq

/-- What the clock, the sockets and the child answer in one turn of the loop. -/
structure Turn where
  started : ℕ
  control : Reading
  stdin : Writing
  stdout : Reading
  stderr : Reading
  stopWrite : Except IoError ℕ
  stopping : ℕ
  kill : Except IoError Unit
  tryWait : Except IoError (Option ExitStatus)
  ended : ℕ
  waitReady : Except IoError Unit

structure Bounds where
  deadline : ℕ
  stdoutCap : ℕ
  profile : OwnedProfile
deriving DecidableEq

/-! ## The state of the loop -/

structure Pipe where
  isOpen : Bool
  retained : Text
deriving DecidableEq

structure LaunchState where
  sequence : OwnedSequence
  pending : Text
  eof : Bool
  waiter : Option ExitStatus
  stdin : Bool
  payload : Text
  stdout : Pipe
  stderr : Pipe
  primary : Option WorkerError
  requested : Option OwnedStop
  stopSent : Bool
  emergencySent : Bool
  release : Option WorkerError
  keptTranscript : Bool

namespace LaunchState

/-- The transport is lost; the first error stays the primary one. -/
def lose (s : LaunchState) (error : WorkerError) : LaunchState :=
  { s with sequence := s.sequence.lost, primary := s.primary.or (some error) }

/-- The transport is lost; the first release failure is kept. -/
def loseRelease (s : LaunchState) (error : WorkerError) : LaunchState :=
  { s with sequence := s.sequence.lost, release := s.release.or (some error) }

/-- The stop of `run` never fires: only the deadline asks for one. -/
def requestStop (bounds : Bounds) (t : Turn) (s : LaunchState) : LaunchState :=
  if s.primary.isNone ∧ s.requested.isNone ∧ bounds.deadline ≤ t.started then
    { s with requested := some .deadline }
  else s

end LaunchState

/-! ## The control socket -/

def checkNprocHeadroom : ℕ := 256

/-- An entry must say what this launch asked for. -/
def checkEntry (profile : OwnedProfile) : OwnedRecord → Except OwnedProtocolError Unit
  | .entry entered baseline nproc verified =>
    let expected := if entered = .check then baseline.toNat + checkNprocHeadroom else 64
    if entered ≠ profile ∨ verified ≠ 63 ∨ baseline = 0 ∨ expected ≠ nproc.toNat then
      .error .malformed
    else .ok ()
  | _ => .ok ()

/-- The complete frames of what is pending, and the rest. -/
def cutFrames : Text → List Text × Text
  | [] => ([], [])
  | byte :: rest =>
    let (frames, left) := cutFrames rest
    if byte = LF then ([byte] :: frames, left)
    else match frames with
      | [] => ([], byte :: left)
      | frame :: frames => ((byte :: frame) :: frames, left)

namespace LaunchState

def takeFrame (bounds : Bounds) (s : LaunchState) (frame : Text) : LaunchState :=
  match parseOwnedRecord frame with
  | .error source => s.lose (protocolError source)
  | .ok record =>
    match checkEntry bounds.profile record with
    | .error source => s.lose (protocolError source)
    | .ok () =>
      match s.sequence.push record with
      | (sequence, .ok ()) => { s with sequence := sequence }
      | (sequence, .error source) => { s with sequence := sequence }.lose (protocolError source)

def readControl (bounds : Bounds) (t : Turn) (s : LaunchState) : LaunchState :=
  if s.eof then s
  else match t.control with
    | .eof =>
      let s := { s with eof := true }
      if s.pending = [] then s else s.lose (protocolError .malformed)
    | .bytes read =>
      let (frames, left) := cutFrames (s.pending ++ read)
      let s := { frames.foldl (takeFrame bounds) s with pending := left }
      if 128 < left.length then { s with pending := [] }.lose (protocolError .oversize) else s
    | .wouldBlock => s
    | .failed source => { s with eof := true }.lose (ownedObservation "owned.protocol.read" source)

/-- The primary error takes up the faults that the helper reported. -/
def noteFaults (s : LaunchState) : LaunchState :=
  let s := match s.primary with
    | some (.ownedLaunch (.helper fault _ source)) =>
      { s with primary := some (.ownedLaunch (.helper fault s.sequence.secondary source)) }
    | _ => s
  match s.primary, s.sequence.primary with
  | none, some fault => { s with primary := some (ownedHelperFault fault s.sequence.secondary) }
  | _, _ => s

end LaunchState

/-! ## The pipes -/

/-- What is read beyond the cap is dropped. -/
def ownedDrain (cap : ℕ) (pipe : Pipe) (reading : Reading) : Pipe × Except WorkerError Unit :=
  if pipe.isOpen then
    match reading with
    | .eof => ({ pipe with isOpen := false }, .ok ())
    | .bytes read =>
      ({ pipe with retained := pipe.retained ++ read.take (cap - pipe.retained.length) }, .ok ())
    | .wouldBlock => (pipe, .ok ())
    | .failed source => (pipe, .error (ownedObservation "owned.protocol.read" source))
  else (pipe, .ok ())

def stderrRetainBytes : ℕ := 64 * 1024

namespace LaunchState

def writeStdinNonblocking (t : Turn) (s : LaunchState) : LaunchState × Except WorkerError Unit :=
  if ¬ s.stdin then (s, .ok ())
  else if s.payload = [] then ({ s with stdin := false }, .ok ())
  else match t.stdin with
    | .wrote count => ({ s with payload := s.payload.drop count }, .ok ())
    | .wouldBlock => (s, .ok ())
    | .failed source => (s, .error (.sandboxSpawnFailed source))

def drainStdout (bounds : Bounds) (t : Turn) (s : LaunchState) :
    LaunchState × Except WorkerError Unit :=
  let (stdout, result) := ownedDrain bounds.stdoutCap s.stdout t.stdout
  ({ s with stdout := stdout }, result)

def drainStderr (t : Turn) (s : LaunchState) : LaunchState × Except WorkerError Unit :=
  let (stderr, result) := ownedDrain stderrRetainBytes s.stderr t.stderr
  ({ s with stderr := stderr }, result)

/-- The pipes of a launch that still runs undisturbed: the first error ends it. -/
def serve (bounds : Bounds) (t : Turn) (s : LaunchState) : LaunchState × Except WorkerError Unit :=
  match s.writeStdinNonblocking t with
  | (s, .error error) => (s, .error error)
  | (s, .ok ()) =>
    match s.drainStdout bounds t with
    | (s, .error error) => (s, .error error)
    | (s, .ok ()) => s.drainStderr t

def keepRelease : LaunchState × Except WorkerError Unit → LaunchState
  | (s, .ok ()) => s
  | (s, .error error) => s.loseRelease error

def movePipes (bounds : Bounds) (t : Turn) (s : LaunchState) : LaunchState :=
  if s.primary.isNone ∧ s.requested.isNone then
    match s.serve bounds t with
    | (s, .ok ()) => s
    | (s, .error error) => s.lose error
  else
    let s := keepRelease ({ s with stdin := false }.drainStdout bounds t)
    keepRelease (s.drainStderr t)

/-! ## Ending the helper -/

/-- One stop frame; a short or failed write is a release failure. -/
def sendStop (t : Turn) (s : LaunchState) : LaunchState :=
  if s.sequence.entry.isSome ∧ s.sequence.terminal.isNone ∧ ¬ s.stopSent then
    let stop := s.requested.getD .observation
    let frame := ascii ("owned-launch-v1 stop " ++ stop.token ++ "\n")
    let s := { s with stopSent := true }
    let fail (source : IoError) : LaunchState :=
      { s with
        sequence := s.sequence.lost
        release := some (ownedObservation "owned.protocol.terminal" source) }
    match t.stopWrite with
    | .ok count =>
      if count = frame.length then s else fail (.other "short owned stop write".toList)
    | .error source => fail source
  else s

/-- The waiter is killed through its descriptor, if there is one. -/
def sendEmergency (bounds : Bounds) (pidfd : Bool) (t : Turn) (s : LaunchState) : LaunchState :=
  let knownFault := s.sequence.primary.isSome && s.requested.isNone
  if ((¬ knownFault ∧ ¬ s.stopSent ∧ s.sequence.terminal.isNone) ∨ s.release.isSome ∨
      bounds.deadline + 500 ≤ t.stopping) ∧ ¬ s.emergencySent then
    let s := { s with emergencySent := true, sequence := s.sequence.lost }
    match pidfd, t.kill with
    | true, .error source =>
      { s with release := s.release.or (some (ownedObservation "owned.release.waiter" source)) }
    | _, _ => s
  else s

def stopHelper (bounds : Bounds) (pidfd : Bool) (t : Turn) (s : LaunchState) : LaunchState :=
  if (s.primary.isSome ∨ s.requested.isSome) ∧ s.waiter.isNone then
    (s.sendStop t).sendEmergency bounds pidfd t
  else s

def waitChild (t : Turn) (s : LaunchState) : LaunchState :=
  if s.waiter.isNone then
    match t.tryWait with
    | .ok status => { s with waiter := status }
    | .error source => s.loseRelease (ownedObservation "owned.release.waiter" source)
  else s

/-- One turn of the loop, up to the tests that leave it. -/
def turn (bounds : Bounds) (pidfd : Bool) (s : LaunchState) (t : Turn) : LaunchState :=
  ((((s.requestStop bounds t).readControl bounds t).noteFaults.movePipes bounds t).stopHelper
    bounds pidfd t).waitChild t

def finished (s : LaunchState) : Bool :=
  s.waiter.isSome && s.eof && !s.stdout.isOpen && !s.stderr.isOpen

def waiterSuccess (s : LaunchState) : Bool := s.waiter.any ExitStatus.success

/-- A finished transcript outlives the grace period; any other is lost with it. -/
def expire (s : LaunchState) : LaunchState :=
  let kept := s.sequence.entry.isSome && s.sequence.terminal.isSome && s.pending.isEmpty &&
    s.waiterSuccess && s.release.isNone
  if kept then { s with keptTranscript := true }
  else { s with keptTranscript := false, sequence := s.sequence.lost }

def waitReady (t : Turn) (s : LaunchState) : LaunchState :=
  match t.waitReady with
  | .ok () => s
  | .error source => s.lose (ownedObservation "owned.protocol.read" source)

/-- The loop; nothing comes of turns that do not reach its end. -/
def observe (bounds : Bounds) (pidfd : Bool) : LaunchState → List Turn → Option LaunchState
  | _, [] => none
  | s, t :: turns =>
    let s := s.turn bounds pidfd t
    if s.finished then some s
    else if bounds.deadline + 1000 ≤ t.ended then some s.expire
    else observe bounds pidfd (s.waitReady t) turns

def released (s : LaunchState) : Bool :=
  s.sequence.released (s.eof || s.keptTranscript) s.waiterSuccess && s.release.isNone

end LaunchState

/-! ## What a launch comes to -/

/-- An owned directory, and what its release meets. -/
structure OwnedArtifact where
  locator : String
  identity : FileIdentity
  metadata : Except IoError (Bool × FileIdentity)
  removal : Except IoError Unit

/-- The directory is removed if it is still the one that was made. -/
def OwnedArtifact.closeVerified (artifact : OwnedArtifact) : Except WorkerError Unit :=
  match artifact.metadata with
  | .ok (isDir, observed) =>
    if isDir ∧ observed = artifact.identity then
      match artifact.removal with
      | .ok () => .ok ()
      | .error source => .error (.ownedLaunch (.close artifact.locator source))
    else .error (.ownedLaunch
      (.identity artifact.locator artifact.identity (some observed) none))
  | .error source =>
    .error (.ownedLaunch (.identity artifact.locator artifact.identity none (some source)))

/-- Every artifact is closed; the first failure is the one that is told. -/
def cleanup : List OwnedArtifact → Option WorkerError
  | [] => none
  | artifact :: artifacts =>
    match artifact.closeVerified with
    | .ok () => cleanup artifacts
    | .error error => some error

inductive SpawnError where
  | parent (source : String)
  | io (source : IoError)
deriving DecidableEq

def parentSpawnError : SpawnError → WorkerError
  | .parent source => .ownedParent source
  | .io source => .sandboxSpawnFailed source

/-- One owned launch: what it is given, and how its surroundings answer. -/
structure Launch where
  bounds : Bounds
  payload : Text
  prepared : Except WorkerError (List OwnedArtifact)
  spawned : Except SpawnError Unit
  pidfd : Except IoError Unit
  nonblocking : List (Except IoError Unit)
  stdoutPiped : Bool
  stderrPiped : Bool
  turns : List Turn

namespace Launch

/-- The first failure before the loop. -/
def startup (launch : Launch) : Option WorkerError :=
  let pidfd := match launch.pidfd with
    | .ok () => none
    | .error source => some (ownedObservation "owned.release.waiter" source)
  launch.nonblocking.foldl (fun primary set =>
    match set with
    | .ok () => primary
    | .error source => primary.or (some (ownedObservation "owned.protocol.read" source))) pidfd

def start (launch : Launch) : LaunchState where
  sequence := {}
  pending := []
  eof := false
  waiter := none
  stdin := true
  payload := launch.payload
  stdout := ⟨launch.stdoutPiped, []⟩
  stderr := ⟨launch.stderrPiped, []⟩
  primary := launch.startup
  requested := none
  stopSent := false
  emergencySent := false
  release := none
  keptTranscript := false

end Launch

def ownedReleaseResult (s : LaunchState) (artifacts : List OwnedArtifact) :
    Except WorkerError (Option WorkerError) :=
  if s.released then .ok s.primary
  else if s.requested = some .deadline ∧ s.release.isNone then .error .confinedRunTimedOut
  else
    let primary := s.primary.getD (match s.waiter.filter fun status => !status.success with
      | some status => .ownedLaunch (.waiter status)
      | none => protocolError .malformed)
    .error (.ownedLaunch (.unproven primary s.release (artifacts.map OwnedArtifact.locator)
      (artifacts.map OwnedArtifact.identity) s.requested))

def ownedTerminalStatus : Option OwnedRecord → Option ExitStatus
  | some (.exit code) => some (.exited code)
  | some (.signal number) => some (.signaled number)
  | _ => none

/-- What the writer left behind, if it ended on its own. -/
def LaunchState.output (s : LaunchState) : Option OwnedOutput :=
  (ownedTerminalStatus s.sequence.terminal).map fun status =>
    ⟨status, s.stdout.retained, s.stderr.retained⟩

/-- The end of `run_owned` once its loop has ended. -/
def conclude (s : LaunchState) (artifacts : List OwnedArtifact) : Except WorkerError OwnedOutput :=
  match ownedReleaseResult s artifacts with
  | .error error => .error error
  | .ok primary =>
    match primary, cleanup artifacts with
    | some primary, some secondary => .error (.ownedLaunch (.release primary secondary))
    | some primary, none => .error primary
    | none, some release =>
      .error (.ownedLaunch (.outputRelease s.output s.sequence.terminal release s.requested))
    | none, none =>
      match s.output with
      | some output => .ok output
      | none => .error .confinedRunTimedOut

/-- `PreparedLaunch::run`, if the turns reach the end of its loop. -/
def Launch.run (launch : Launch) : Option (Except WorkerError OwnedOutput) :=
  match launch.prepared with
  | .error error => some (.error error)
  | .ok artifacts =>
    match launch.spawned with
    | .error source => some (.error (parentSpawnError source))
    | .ok () =>
      (launch.start.observe launch.bounds launch.pidfd.isOk launch.turns).map fun s =>
        conclude s artifacts

end Rivect.Executor
