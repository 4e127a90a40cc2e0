import Rivect.Executor.Launch

/-! # What a released launch can still hide

The loop keeps the error it started with and none of its own beside an authenticated release. From
that, exactly when a launch answers an error that does not leave the target open.
-/

namespace Rivect.Executor

open Option

open EffectPolicy (Text)
open Utf8 (lossy)
open Sandbox (OwnedFault OwnedRecord OwnedSequence OwnedStop)

namespace LaunchState

/-- An undisturbed transport has no other error than the one before the loop or a fault. -/
structure Undisturbed (startup : Option WorkerError) (s : LaunchState) : Prop where
  proper : s.sequence.Proper
  primary : s.sequence.failed = false → s.sequence.primary = none → s.primary = startup

variable {startup : Option WorkerError} {bounds : Bounds} {pidfd : Bool} {t : Turn}
  {s s' : LaunchState}

theorem Undisturbed.of_failed (hproper : s.sequence.Proper) (h : s.sequence.failed = true) :
    s.Undisturbed startup :=
  ⟨hproper, fun hfailed => absurd (h.symm.trans hfailed) (by decide)⟩

section

variable (h : s.Undisturbed startup)
include h

/-- What neither the sequence nor the primary error shows is kept. -/
theorem Undisturbed.congr (hsequence : s'.sequence = s.sequence)
    (hprimary : s'.primary = s.primary) : s'.Undisturbed startup := by
  obtain ⟨hproper, hkept⟩ := h
  exact ⟨hsequence ▸ hproper, by rw [hsequence, hprimary]; exact hkept⟩

theorem Undisturbed.lose (error : WorkerError) :
    (s.lose error).Undisturbed startup :=
  .of_failed h.proper.lost rfl

theorem Undisturbed.loseRelease (error : WorkerError) :
    (s.loseRelease error).Undisturbed startup :=
  .of_failed h.proper.lost rfl

theorem Undisturbed.requestStop :
    (s.requestStop bounds t).Undisturbed startup := by
  unfold LaunchState.requestStop
  split
  · exact h.congr rfl rfl
  · exact h

theorem Undisturbed.takeFrame (frame : Text) :
    (s.takeFrame bounds frame).Undisturbed startup := by
  unfold LaunchState.takeFrame
  split
  · exact h.lose _
  · rename_i record hrecord
    split
    · exact h.lose _
    · have hproper := h.proper.push record
      split
      · rename_i sequence hpush
        rw [hpush] at hproper
        obtain ⟨hfailed, hadmits⟩ := OwnedSequence.push_ok hpush
        refine ⟨hproper, fun _ hprimary => h.primary hfailed ?_⟩
        exact OwnedSequence.primary_of_admit hadmits hprimary
      · rename_i sequence source hpush
        rw [hpush] at hproper
        exact .of_failed hproper.lost rfl

theorem Undisturbed.takeFrames (frames : List Text) :
    (frames.foldl (LaunchState.takeFrame bounds) s).Undisturbed startup := by
  induction frames generalizing s with
  | nil => exact h
  | cons frame frames ih => exact ih (h.takeFrame frame)

theorem Undisturbed.readControl :
    (s.readControl bounds t).Undisturbed startup := by
  unfold LaunchState.readControl
  split
  · exact h
  · split
    · dsimp only
      split
      · exact h.congr rfl rfl
      · exact .of_failed h.proper.lost rfl
    · rename_i read _
      have hframes := @Undisturbed.takeFrames _ bounds _ h (cutFrames (s.pending ++ read)).1
      dsimp only
      split
      · exact .of_failed hframes.proper.lost rfl
      · exact hframes.congr rfl rfl
    · exact h
    · exact .of_failed h.proper.lost rfl

end

theorem noteFaults_sequence (s : LaunchState) : s.noteFaults.sequence = s.sequence := by
  unfold noteFaults
  dsimp only
  split <;> split <;> rfl

/-- Without a fault on the transcript an error other than a helper's stays as it is. -/
theorem noteFaults_primary (hfault : s.sequence.primary = none)
    (hhelper : ∀ fault secondary source,
      s.primary ≠ some (.ownedLaunch (.helper fault secondary source))) :
    s.noteFaults.primary = s.primary := by
  unfold noteFaults
  split
  · rename_i fault secondary source heq
    exact absurd heq (hhelper fault secondary source)
  · dsimp only
    split
    · rename_i hsome
      exact absurd (hfault.symm.trans hsome) nofun
    · rfl

section

variable (h : s.Undisturbed startup)
include h

theorem Undisturbed.noteFaults
    (hstartup : ∀ fault secondary source,
      startup ≠ some (.ownedLaunch (.helper fault secondary source))) :
    s.noteFaults.Undisturbed startup := by
  have hsequence := s.noteFaults_sequence
  refine ⟨hsequence ▸ h.proper, fun hfailed hfault => ?_⟩
  rw [hsequence] at hfailed hfault
  have hprimary := h.primary hfailed hfault
  rw [noteFaults_primary hfault (hprimary ▸ hstartup), hprimary]

theorem Undisturbed.writeStdinNonblocking :
    (s.writeStdinNonblocking t).1.Undisturbed startup := by
  unfold LaunchState.writeStdinNonblocking
  split
  · exact h
  · split
    · exact h.congr rfl rfl
    · split
      · exact h.congr rfl rfl
      · exact h
      · exact h

theorem Undisturbed.drainStdout :
    (s.drainStdout bounds t).1.Undisturbed startup :=
  h.congr rfl rfl

theorem Undisturbed.drainStderr :
    (s.drainStderr t).1.Undisturbed startup :=
  h.congr rfl rfl

theorem Undisturbed.serve :
    (s.serve bounds t).1.Undisturbed startup := by
  have hstdin := h.writeStdinNonblocking (t := t)
  unfold LaunchState.serve
  split
  · rename_i heq
    rwa [heq] at hstdin
  · rename_i heq
    rw [heq] at hstdin
    have hstdout := @Undisturbed.drainStdout _ bounds t _ hstdin
    split
    · rename_i hdrain
      rwa [hdrain] at hstdout
    · rename_i hdrain
      rw [hdrain] at hstdout
      exact hstdout.drainStderr

end

theorem Undisturbed.keepRelease {drained : LaunchState × Except WorkerError Unit}
    (h : drained.1.Undisturbed startup) :
    (LaunchState.keepRelease drained).Undisturbed startup := by
  obtain ⟨s, result⟩ := drained
  cases result with
  | ok _ => exact h
  | error error => exact h.loseRelease error

section

variable (h : s.Undisturbed startup)
include h

theorem Undisturbed.movePipes :
    (s.movePipes bounds t).Undisturbed startup := by
  unfold LaunchState.movePipes
  split
  · have hserve := @Undisturbed.serve _ bounds t _ h
    split
    · rename_i heq
      rwa [heq] at hserve
    · rename_i heq
      rw [heq] at hserve
      exact hserve.lose _
  · have hclosed : { s with stdin := false }.Undisturbed startup := h.congr rfl rfl
    exact hclosed.drainStdout.keepRelease.drainStderr.keepRelease

theorem Undisturbed.sendStop : (s.sendStop t).Undisturbed startup := by
  unfold LaunchState.sendStop
  split
  · dsimp only
    split
    · split
      · exact h.congr rfl rfl
      · exact .of_failed h.proper.lost rfl
    · exact .of_failed h.proper.lost rfl
  · exact h

theorem Undisturbed.sendEmergency :
    (s.sendEmergency bounds pidfd t).Undisturbed startup := by
  unfold LaunchState.sendEmergency
  dsimp only
  split
  · split
    · exact .of_failed h.proper.lost rfl
    · exact .of_failed h.proper.lost rfl
  · exact h

theorem Undisturbed.stopHelper :
    (s.stopHelper bounds pidfd t).Undisturbed startup := by
  unfold LaunchState.stopHelper
  split
  · exact h.sendStop.sendEmergency
  · exact h

theorem Undisturbed.waitChild :
    (s.waitChild t).Undisturbed startup := by
  unfold LaunchState.waitChild
  split
  · split
    · exact h.congr rfl rfl
    · exact h.loseRelease _
  · exact h

theorem Undisturbed.turn
    (hstartup : ∀ fault secondary source,
      startup ≠ some (.ownedLaunch (.helper fault secondary source))) :
    (s.turn bounds pidfd t).Undisturbed startup :=
  ((h.requestStop.readControl.noteFaults hstartup).movePipes.stopHelper).waitChild

theorem Undisturbed.observe {turns : List Turn}
    (hstartup : ∀ fault secondary source,
      startup ≠ some (.ownedLaunch (.helper fault secondary source)))
    (hobserve : s.observe bounds pidfd turns = some s') : s'.Undisturbed startup := by
  induction turns generalizing s with
  | nil => cases hobserve
  | cons t turns ih =>
    have hturn := @Undisturbed.turn _ bounds pidfd t _ h hstartup
    rw [LaunchState.observe] at hobserve
    split at hobserve
    · obtain rfl := some.inj hobserve
      exact hturn
    · split at hobserve
      · obtain rfl := some.inj hobserve
        unfold expire
        dsimp only
        split
        · exact hturn.congr rfl rfl
        · exact .of_failed hturn.proper.lost rfl
      · refine ih ?_ hobserve
        unfold waitReady
        split
        · exact hturn
        · exact hturn.lose _

end

end LaunchState

/-! ## The errors a launch starts and ends with -/

/-- An observation of the parent's own. -/
def IsObservation (error : WorkerError) : Prop :=
  ∃ boundary source, error = ownedObservation boundary source

theorem isObservation_or {primary : Option WorkerError} {boundary : String} {source : IoError}
    (h : ∀ error, primary = some error → IsObservation error) :
    ∀ error, primary.or (some (ownedObservation boundary source)) = some error →
      IsObservation error := by
  intro error herror
  cases primary with
  | none => exact ⟨boundary, source, (some.inj herror).symm⟩
  | some first => exact h error herror

theorem isObservation_foldl {step : Option WorkerError → Except IoError Unit → Option WorkerError}
    (hstep : ∀ primary set, (∀ error, primary = some error → IsObservation error) →
      ∀ error, step primary set = some error → IsObservation error)
    (sets : List (Except IoError Unit)) (primary : Option WorkerError)
    (h : ∀ error, primary = some error → IsObservation error) :
    ∀ error, sets.foldl step primary = some error → IsObservation error := by
  induction sets generalizing primary with
  | nil => exact h
  | cons set sets ih => exact ih _ (hstep primary set h)

/-- An error before the loop is an observation of the parent's own. -/
theorem startup_observation (launch : Launch) {error : WorkerError}
    (h : launch.startup = some error) : IsObservation error := by
  refine isObservation_foldl (fun primary set hprimary => ?_) launch.nonblocking _
    (fun error herror => ?_) error h
  · cases set with
    | ok _ => exact hprimary
    | error _ => exact isObservation_or hprimary
  · cases hpidfd : launch.pidfd with
    | ok _ =>
      rw [hpidfd] at herror
      cases herror
    | error source =>
      rw [hpidfd] at herror
      exact ⟨_, source, (some.inj herror).symm⟩

theorem startup_not_helper (launch : Launch) (fault : OwnedFault) (secondary : Option OwnedFault)
    (source : IoError) :
    launch.startup ≠ some (.ownedLaunch (.helper fault secondary source)) := by
  intro h
  obtain ⟨boundary, source, heq⟩ := startup_observation launch h
  cases heq

theorem mutationUnknown_cleanup {artifacts : List OwnedArtifact} {error : WorkerError}
    (h : cleanup artifacts = some error) : mutationUnknown error = false := by
  induction artifacts with
  | nil => cases h
  | cons artifact artifacts ih =>
    rw [cleanup] at h
    split at h
    · exact ih h
    · rename_i failure hclose
      obtain rfl := some.inj h
      unfold OwnedArtifact.closeVerified at hclose
      split at hclose
      · split at hclose
        · split at hclose
          · cases hclose
          · cases hclose
            rfl
        · cases hclose
          rfl
      · cases hclose
        rfl

/-! ## The verdict of the writer -/

theorem helperLaunchInitFailed_known {observed : OwnedOutput} {error : WorkerError}
    (h : helperLaunchInitFailed observed = some error) : mutationUnknown error = false := by
  unfold helperLaunchInitFailed at h
  dsimp only at h
  split at h
  · cases h
  · split at h
    · obtain rfl := some.inj h
      rfl
    · split at h
      · obtain rfl := some.inj h
        rfl
      · cases h

theorem launcherUsernsFailure_known {code : Option ℕ} {stderr : List Char} {error : WorkerError}
    (h : launcherUsernsFailure code stderr = some error) : mutationUnknown error = false := by
  unfold launcherUsernsFailure at h
  split at h
  · obtain rfl := some.inj h
    rfl
  · cases h

/-- `helper_confined_write` reads the writer's exit without its output. -/
def writeVerdict (observed : OwnedOutput) : Except WorkerError Unit :=
  (helperIoBytes observed false).map fun _ => ()

theorem helperLaunchInitFailed_exit {observed : OwnedOutput} {error : WorkerError}
    (h : helperLaunchInitFailed observed = some error) : observed.status ≠ .exited 0 := by
  intro hstatus
  unfold helperLaunchInitFailed at h
  rw [hstatus] at h
  dsimp only [helperExitCode, ExitStatus.code] at h
  rw [if_neg (by simp [exitSandboxInit]),
    if_neg (by simp [exitLaunchExec, exitLaunchNotFound, exitProtocol])] at h
  cases h

theorem launcherUsernsFailure_exit {code : Option ℕ} {stderr : List Char} {error : WorkerError}
    (h : launcherUsernsFailure code stderr = some error) : code = some 1 := by
  unfold launcherUsernsFailure at h
  split at h
  · rename_i hcode
    exact hcode.1
  · cases h

/-- The writer's exit is success, or an error that is open exactly when the exit does not report
an untouched target. -/
theorem writeVerdict_cases (observed : OwnedOutput) :
    (writeVerdict observed = .ok () ∧ observed.status = .exited 0 ∧
        ReportsUntouched observed = false) ∨
      ∃ error, writeVerdict observed = .error error ∧ observed.status ≠ .exited 0 ∧
        mutationUnknown error = !ReportsUntouched observed := by
  unfold writeVerdict helperIoBytes
  cases hinit : helperLaunchInitFailed observed with
  | some error =>
    refine .inr ⟨error, rfl, helperLaunchInitFailed_exit hinit, ?_⟩
    rw [ReportsUntouched, hinit, helperLaunchInitFailed_known hinit]
    rfl
  | none =>
    cases hstatus : observed.status with
    | signaled signal =>
      refine .inr ⟨_, rfl, nofun, ?_⟩
      rw [ReportsUntouched, hinit, hstatus]
      rfl
    | exited code =>
      cases husers : launcherUsernsFailure (some code.toNat) (lossy observed.stderr) with
      | some error =>
        have hcode := launcherUsernsFailure_exit husers
        refine .inr ⟨error, ?_, ?_, ?_⟩
        · simp [helperExitCode, ExitStatus.code, husers, Bind.bind, Except.bind, Except.map,
            MonadExcept.throw, throwThe, MonadExceptOf.throw]
        · rintro ⟨⟩
          exact absurd hcode (by decide)
        · rw [ReportsUntouched, hinit, hstatus, ExitStatus.code, husers,
            launcherUsernsFailure_known husers]
          rfl
      | none =>
        have hreports : ReportsUntouched observed = (code.toNat == exitDataIo) := by
          rw [ReportsUntouched, hinit, hstatus, ExitStatus.code, husers]
          simp
        rw [hreports]
        simp only [helperExitCode, ExitStatus.code, Lib.ok_bind, husers]
        by_cases hok : code.toNat = exitOk
        · rw [if_pos hok, hok]
          have hzero : code = 0 := UInt8.toNat_inj.mp hok
          exact .inl ⟨rfl, by rw [hzero], rfl⟩
        · have hne : ExitStatus.exited code ≠ .exited 0 := by
            rintro ⟨⟩
            exact hok rfl
          rw [if_neg hok]
          split
          · rename_i hmutated
            exact .inr ⟨_, rfl, hne, by rw [hmutated]; rfl⟩
          · split
            · rename_i hio
              exact .inr ⟨_, rfl, hne, by rw [hio]; rfl⟩
            · rename_i hio
              refine .inr ⟨_, rfl, hne, ?_⟩
              rw [beq_false_of_ne hio]
              rfl

/-! ## A launch that hides a mutation -/

/-- What `helper_confined_write` makes of a concluded launch. -/
def confinedVerdict (result : Except WorkerError OwnedOutput) : Except WorkerError Unit :=
  ownedClassify result writeVerdict

/-- The released writer's own exit reports an untouched target. -/
def LaunchState.Reported (s : LaunchState) : Prop :=
  s.released = true ∧ ∃ output, s.output = some output ∧ ReportsUntouched output = true

/-- Released without such a report, and an error that says nothing of the writer comes first: one
from before the loop, or a failed close beside an exit that the settlement does not look at. -/
def LaunchState.Hides (s : LaunchState) (startup : Option WorkerError)
    (artifacts : List OwnedArtifact) : Prop :=
  s.released = true ∧ ¬ s.Reported ∧
    (startup.isSome = true ∨ ((cleanup artifacts).isSome = true ∧
      ∃ status, ownedTerminalStatus s.sequence.terminal = some status ∧
        if s.requested.isNone then status = .exited 0
        else status.signal = none ∧ status.code ≠ some exitDataMutated))

variable {s : LaunchState} {startup : Option WorkerError} {artifacts : List OwnedArtifact}

theorem conclude_unreleased (h : s.released = false) :
    ∃ error, confinedVerdict (conclude s artifacts) = .error error ∧
      mutationUnknown error = true := by
  unfold conclude ownedReleaseResult
  rw [if_neg (by simp [h])]
  split
  · rename_i error herror
    split at herror
    · cases herror
      exact ⟨_, rfl, rfl⟩
    · cases herror
      exact ⟨_, rfl, rfl⟩
  · rename_i hok
    split at hok <;> cases hok

section

variable (h : s.released = true)
include h

/-- An error from before the loop is told in place of the writer's verdict. -/
theorem conclude_startup {boundary : String} {source : IoError}
    (hprimary : s.primary = some (ownedObservation boundary source)) :
    ∃ error, confinedVerdict (conclude s artifacts) = .error error ∧
      mutationUnknown error = false := by
  unfold conclude ownedReleaseResult
  rw [if_pos h, hprimary]
  dsimp only
  split
  · rename_i heq _
    cases heq
    exact ⟨_, rfl, rfl⟩
  · rename_i heq _
    cases heq
    exact ⟨_, rfl, rfl⟩
  · rename_i heq _
    cases heq
  · rename_i heq _
    cases heq

/-- A released launch without an error of its own comes to its writer's exit. -/
theorem conclude_released (hprimary : s.primary = none) :
    conclude s artifacts = match cleanup artifacts with
      | some release =>
        .error (.ownedLaunch (.outputRelease s.output s.sequence.terminal release s.requested))
      | none => match s.output with
        | some output => .ok output
        | none => .error .confinedRunTimedOut := by
  unfold conclude ownedReleaseResult
  rw [if_pos h, hprimary]
  cases cleanup artifacts <;> rfl

theorem conclude_stopped (hprimary : s.primary = none)
    (houtput : s.output = none) :
    ∃ error, confinedVerdict (conclude s artifacts) = .error error ∧
      mutationUnknown error = true := by
  rw [conclude_released h hprimary, houtput]
  cases cleanup artifacts with
  | none => exact ⟨_, rfl, rfl⟩
  | some release => exact ⟨_, rfl, rfl⟩

/-- With a failed close the writer's own verdict is looked at only if nothing was requested. -/
theorem conclude_output_release (hprimary : s.primary = none)
    {output : OwnedOutput} (houtput : s.output = some output) {release : WorkerError}
    (hcleanup : cleanup artifacts = some release) :
    ∃ error, confinedVerdict (conclude s artifacts) = .error error ∧
      mutationUnknown error =
        if s.requested.isNone then
          decide (output.status ≠ .exited 0) && !ReportsUntouched output
        else output.status.signal.isSome || output.status.code == some exitDataMutated := by
  rw [conclude_released h hprimary, houtput, hcleanup]
  cases hrequested : s.requested with
  | some stop => exact ⟨_, rfl, rfl⟩
  | none =>
    have hknown := mutationUnknown_cleanup hcleanup
    rcases writeVerdict_cases output with ⟨hverdict, hstatus, -⟩ | ⟨error, hverdict, hstatus, hopen⟩
    · refine ⟨release, ?_, ?_⟩
      · simp only [confinedVerdict, ownedClassify, hverdict]
      · rw [hknown, hstatus]
        rfl
    · refine ⟨.ownedLaunch (.release error release), ?_, ?_⟩
      · simp only [confinedVerdict, ownedClassify, hverdict]
      · rw [mutationUnknown, hopen]
        simp [hstatus]

theorem conclude_output (hprimary : s.primary = none)
    {output : OwnedOutput} (houtput : s.output = some output)
    (hcleanup : cleanup artifacts = none) :
    confinedVerdict (conclude s artifacts) = writeVerdict output := by
  rw [conclude_released h hprimary, houtput, hcleanup]
  rfl

theorem reported_output {output : OwnedOutput}
    (houtput : s.output = some output) : s.Reported ↔ ReportsUntouched output = true := by
  constructor
  · rintro ⟨-, other, hother, hreports⟩
    obtain rfl := mem_unique houtput hother
    exact hreports
  · exact fun hreports => ⟨h, output, houtput, hreports⟩

end

theorem output_status {output : OwnedOutput} (houtput : s.output = some output)
    (status : ExitStatus) :
    ownedTerminalStatus s.sequence.terminal = some status ↔ output.status = status := by
  obtain ⟨terminal, hterminal, rfl⟩ := map_eq_some_iff.mp houtput
  rw [hterminal, some.injEq]

/-- A failed close hides the writer's exit exactly when the settlement does not look at it. -/
theorem hides_output {output : OwnedOutput} (h : s.released = true)
    (houtput : s.output = some output) :
    s.Hides none artifacts ↔ ReportsUntouched output = false ∧ (cleanup artifacts).isSome = true ∧
      if s.requested.isNone then output.status = .exited 0
      else output.status.signal = none ∧ output.status.code ≠ some exitDataMutated := by
  simp only [LaunchState.Hides, h, reported_output h houtput, output_status houtput, true_and,
    isSome_none, Bool.false_eq_true, false_or, Bool.not_eq_true, exists_eq_left']

/-- The launch answers an error that is not open, and its writer made no report, exactly when it
hides what the writer did. -/
theorem rejects_iff_hides
    (hstartup : ∀ error, startup = some error →
      ∃ boundary source, error = ownedObservation boundary source)
    (hprimary : s.released = true → s.primary = startup) :
    ((∃ error, confinedVerdict (conclude s artifacts) = .error error ∧
        mutationUnknown error = false) ∧ ¬ s.Reported) ↔ s.Hides startup artifacts := by
  cases hreleased : s.released with
  | false =>
    obtain ⟨error, hverdict, hopen⟩ := conclude_unreleased hreleased
    constructor
    · rintro ⟨⟨other, hother, hclosed⟩, -⟩
      obtain rfl := Except.error.inj (hverdict.symm.trans hother)
      exact absurd (hopen.symm.trans hclosed) (by decide)
    · exact fun h => absurd (hreleased.symm.trans h.1) (by decide)
  | true =>
    have hsame := hprimary hreleased
    cases startup with
    | some error =>
      obtain ⟨boundary, source, rfl⟩ := hstartup error rfl
      exact ⟨fun h => ⟨hreleased, h.2, .inl rfl⟩,
        fun h => ⟨conclude_startup hreleased hsame, h.2.1⟩⟩
    | none =>
      cases houtput : s.output with
      | none =>
        obtain ⟨error, hverdict, hopen⟩ := conclude_stopped hreleased hsame
          houtput
        constructor
        · rintro ⟨⟨other, hother, hclosed⟩, -⟩
          obtain rfl := Except.error.inj (hverdict.symm.trans hother)
          exact absurd (hopen.symm.trans hclosed) (by decide)
        · rintro ⟨-, -, hnone | ⟨-, status, hstatus, -⟩⟩
          · cases hnone
          · rw [LaunchState.output, hstatus] at houtput
            cases houtput
      | some output =>
        rw [hides_output hreleased houtput, reported_output hreleased houtput]
        cases hcleanup : cleanup artifacts with
        | some release =>
          obtain ⟨error, hverdict, hopen⟩ :=
            conclude_output_release hreleased hsame houtput hcleanup
          have hknown : (∃ other, confinedVerdict (conclude s artifacts) = .error other ∧
              mutationUnknown other = false) ↔ mutationUnknown error = false := by
            rw [hverdict]
            exact ⟨fun ⟨other, hother, hknown⟩ => Except.error.inj hother ▸ hknown,
              fun hknown => ⟨error, rfl, hknown⟩⟩
          rw [hknown, hopen]
          split
          · rw [Bool.not_eq_true, and_comm]
            refine and_congr_right fun hreports => ?_
            simp [hreports]
          · rw [Bool.not_eq_true, and_comm]
            refine and_congr_right fun _ => ?_
            simp
        | none =>
          rw [conclude_output hreleased hsame houtput hcleanup]
          refine ⟨?_, fun h => absurd h.2.1 (by simp)⟩
          rintro ⟨⟨error, herror, hknown⟩, hreports⟩
          rcases writeVerdict_cases output with ⟨hverdict, -⟩ | ⟨other, hverdict, -, hopen⟩
          · cases hverdict.symm.trans herror
          · obtain rfl := Except.error.inj (hverdict.symm.trans herror)
            rw [hknown] at hopen
            simp at hopen
            exact absurd hopen hreports

end Rivect.Executor
