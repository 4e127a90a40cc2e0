import Rivect.Executor.Release
import Rivect.Policy.Decide

/-! # Settling an admitted write

`execute` of a write and `execute_managed_write`: the gates, the one confined write, and the state
that the attempt is left in.
-/

namespace Rivect.Executor

open Lib Option
open EffectPolicy (Text ModeDecision ascii)
open Sandbox (OwnedRecord OwnedSequence)

/-- `ATTEMPT_STATE`. -/
def attemptState (s : TaskStore) (attemptId : String) : Option AttemptState :=
  (s.attempts.find? (·.attemptId = attemptId)).map AttemptRow.state

inductive ExecutorError where
  | policy (detail : String)
  | context (detail : String)
  | cancelled
  | policyDenied
  | modeAsk
  | modeDenied
  | store (source : StoreError)
  | worker (source : WorkerError)
  | workerUnproven (primary : WorkerError)
  | workerSettlement (primary : WorkerError) (secondary : StoreError)

structure AdmittedEffect where
  taskId : TaskId
  attemptId : String
  bytes : Text
  expectedIdentity : Option FileIdentity

structure AdmittedManagedWrite where
  taskId : TaskId
  attemptId : String
  scopeRoot : String
  bytes : Text
  expectedIdentity : FileIdentity

/-- What the policy, the file system, the launch and the database answer during one write. That the
writer ran is known to nobody but its own process. -/
structure Surroundings where
  grant : Except String String
  context : Except String Unit
  decision : ModeDecision
  covers : Bool
  checks : Except WorkerError Unit
  launch : Launch
  writerRan : Bool
  takesRejection : Bool
  takesRunning : Bool
  takesSettlement : Bool
  display : WorkerError → String
  digest : Text → String

/-! ## The worker -/

def writeMaxBytes : ℕ := 2 ^ 20

/-- `write_once`: the checks and probes before the launch are answered as a whole. -/
def writeOnce (w : Surroundings) (bytes : Text) : Option (Except WorkerError Unit) :=
  if writeMaxBytes < bytes.length then some (.error (.denied .writeTooLarge))
  else match w.checks with
    | .error error => some (.error error)
    | .ok () => ({ w.launch with payload := bytes }.run).map confinedVerdict

/-! ## The gates -/

/-- One write of an attempt's state, if the database takes it. -/
def settle (takes : Bool) (s : TaskStore) (attemptId : String) (state : AttemptState)
    (detail : Option String) : Except StoreError TaskStore :=
  if takes then s.setAttemptState attemptId state detail else .error .storage

/-- The rejection is recorded before the error leaves the executor. -/
def reject (w : Surroundings) (s : TaskStore) (attemptId detail : String) (error : ExecutorError) :
    TaskStore × Except ExecutorError Unit :=
  match settle w.takesRejection s attemptId .rejected (some detail) with
  | .ok s' => (s', .error error)
  | .error source => (s, .error (.store source))

/-- `attempt_running`, the last gate. -/
def attemptRunning (w : Surroundings) (s : TaskStore) (attemptId : String) :
    TaskStore × Except ExecutorError Unit :=
  match settle w.takesRunning s attemptId .running none with
  | .ok s' => (s', .ok ())
  | .error source => (s, .error (.store source))

def modeAskReason : String := "mode ask: permission required"
def modeDenyReason : String := "mode deny"

/-- A cancelled task refuses the write. -/
def cancelGate (w : Surroundings) (s : TaskStore) (taskId : TaskId) (attemptId : String)
    (next : TaskStore × Except ExecutorError Unit) : TaskStore × Except ExecutorError Unit :=
  match s.tasks taskId with
  | none => (s, .error (.store (TaskStore.missingTask taskId)))
  | some task =>
    if task.lifecycle = .cancelled then reject w s attemptId "task cancelled" .cancelled else next

def modeGate (w : Surroundings) (s : TaskStore) (attemptId : String) :
    TaskStore × Except ExecutorError Unit :=
  match w.context, w.decision with
  | .error detail, _ => reject w s attemptId detail (.context detail)
  | .ok (), .ask => reject w s attemptId modeAskReason .modeAsk
  | .ok (), .deny => reject w s attemptId modeDenyReason .modeDenied
  | .ok (), .allow => attemptRunning w s attemptId

def executeGates (w : Surroundings) (s : TaskStore) (admitted : AdmittedEffect) :
    TaskStore × Except ExecutorError Unit :=
  match w.grant with
  | .error detail => reject w s admitted.attemptId detail (.policy detail)
  | .ok _ => cancelGate w s admitted.taskId admitted.attemptId (modeGate w s admitted.attemptId)

def managedGates (w : Surroundings) (s : TaskStore) (admitted : AdmittedManagedWrite) :
    TaskStore × Except ExecutorError Unit :=
  match w.grant with
  | .error detail => reject w s admitted.attemptId detail (.policy detail)
  | .ok scopeRoot =>
    if scopeRoot ≠ admitted.scopeRoot then
      reject w s admitted.attemptId "grant changed" .policyDenied
    else cancelGate w s admitted.taskId admitted.attemptId
      (if w.covers then reject w s admitted.attemptId "policy deny" .policyDenied
        else attemptRunning w s admitted.attemptId)

/-! ## The settlement -/

def isWriteMutationFailed : WorkerError → Bool
  | .writeMutationFailed _ => true
  | _ => false

def isUnproven : WorkerError → Bool
  | .ownedLaunch (.unproven ..) => true
  | _ => false

def commitWorkerError (w : Surroundings) (s : TaskStore) (attemptId : String) (error : WorkerError)
    (mutating : Bool) : TaskStore × ExecutorError :=
  let detail := w.display error
  let unknown := isWriteMutationFailed error || (mutating && mutationUnknown error)
  let state : AttemptState := if unknown then .unknown else .rejected
  match settle w.takesSettlement s attemptId state (some detail) with
  | .ok s' => (s', if mutating && isUnproven error then .workerUnproven error else .worker error)
  | .error secondary => (s, .workerSettlement error secondary)

def confirm (w : Surroundings) (s : TaskStore) (attemptId : String) (detail : Option String) :
    TaskStore × Except ExecutorError Unit :=
  match settle w.takesSettlement s attemptId .confirmed detail with
  | .ok s' => (s', .ok ())
  | .error source => (s, .error (.store source))

/-- The attempt after the worker's answer. -/
def settleAnswer (w : Surroundings) (s : TaskStore) (attemptId : String) (detail : Option String) :
    Except WorkerError Unit → TaskStore × Except ExecutorError Unit
  | .ok () => confirm w s attemptId detail
  | .error error =>
    let (s, error) := commitWorkerError w s attemptId error true
    (s, .error error)

/-- The worker of an effect; a write without the identity it was admitted for reaches none. -/
def effectAnswer (w : Surroundings) (admitted : AdmittedEffect) :
    Option (Except WorkerError Unit) :=
  match admitted.expectedIdentity with
  | none => some (.error (.denied .targetChanged))
  | some _ => writeOnce w admitted.bytes

/-- `execute` of a write, if its launch comes to an end. -/
def execute (w : Surroundings) (s : TaskStore) (admitted : AdmittedEffect) :
    Option (TaskStore × Except ExecutorError Unit) :=
  match executeGates w s admitted with
  | (s, .error error) => some (s, .error error)
  | (s, .ok ()) =>
    (effectAnswer w admitted).map (settleAnswer w s admitted.attemptId
      (some ("write-performed sha256=" ++ w.digest admitted.bytes)))

def executeManagedWrite (w : Surroundings) (s : TaskStore) (admitted : AdmittedManagedWrite) :
    Option (TaskStore × Except ExecutorError Unit) :=
  match managedGates w s admitted with
  | (s, .error error) => some (s, .error error)
  | (s, .ok ()) => (writeOnce w admitted.bytes).map (settleAnswer w s admitted.attemptId none)

/-! ## What is true of a write -/

/-- A write on either path. -/
inductive AdmittedWrite where
  | effect (admitted : AdmittedEffect)
  | managed (admitted : AdmittedManagedWrite)

namespace AdmittedWrite

def attemptId : AdmittedWrite → String
  | .effect admitted => admitted.attemptId
  | .managed admitted => admitted.attemptId

def bytes : AdmittedWrite → Text
  | .effect admitted => admitted.bytes
  | .managed admitted => admitted.bytes

def gates (w : Surroundings) (s : TaskStore) : AdmittedWrite → TaskStore × Except ExecutorError Unit
  | .effect admitted => executeGates w s admitted
  | .managed admitted => managedGates w s admitted

def worker (w : Surroundings) : AdmittedWrite → Option (Except WorkerError Unit)
  | .effect admitted => effectAnswer w admitted
  | .managed admitted => writeOnce w admitted.bytes

def perform (w : Surroundings) (s : TaskStore) :
    AdmittedWrite → Option (TaskStore × Except ExecutorError Unit)
  | .effect admitted => execute w s admitted
  | .managed admitted => executeManagedWrite w s admitted

/-- The write carries the identity of the file it was admitted for. -/
def Bound : AdmittedWrite → Prop
  | .effect admitted => admitted.expectedIdentity.isSome = true
  | .managed _ => True

/-- The worker's answer, if the gates let the write reach it. -/
def answer (w : Surroundings) (s : TaskStore) (write : AdmittedWrite) :
    Option (Except WorkerError Unit) :=
  if (write.gates w s).2.isOk then write.worker w else none

/-- The write reached its launch, the helper was spawned, and the writer ran. -/
def WriterRan (w : Surroundings) (s : TaskStore) (write : AdmittedWrite) : Prop :=
  (write.gates w s).2.isOk = true ∧ write.Bound ∧ write.bytes.length ≤ writeMaxBytes ∧
    w.checks = .ok () ∧ w.launch.prepared.isOk = true ∧ w.launch.spawned = .ok () ∧
    w.writerRan = true

/-- How the loop of the launch ended. -/
def observed (w : Surroundings) (write : AdmittedWrite) : Option LaunchState :=
  let launch := { w.launch with payload := write.bytes }
  launch.start.observe launch.bounds launch.pidfd.isOk launch.turns

/-- An authenticated exit of the writer that implies an untouched target. -/
def ReportedUntouched (w : Surroundings) (write : AdmittedWrite) : Prop :=
  ∃ s, write.observed w = some s ∧ s.Reported

/-- The launch of the write ended in a state that hides what its writer did. -/
def Hidden (w : Surroundings) (write : AdmittedWrite) : Prop :=
  ∃ artifacts s, w.launch.prepared = .ok artifacts ∧ write.observed w = some s ∧
    s.Hides w.launch.startup artifacts

end AdmittedWrite

/-- No write of the attempt's state was refused. -/
def Accepted (result : Except ExecutorError Unit) : Prop :=
  (∀ source, result ≠ .error (.store source)) ∧
    ∀ primary secondary, result ≠ .error (.workerSettlement primary secondary)

/-- Confirmed as the worker says, rejected only for an untouched target, and unknown otherwise. -/
structure Truthful (w : Surroundings) (s : TaskStore) (write : AdmittedWrite)
    (state : Option AttemptState) : Prop where
  confirmed : state = some .confirmed ↔ write.answer w s = some (.ok ())
  rejected : state = some .rejected → ¬ write.WriterRan w s ∨ write.ReportedUntouched w
  unknown : write.answer w s ≠ some (.ok ()) → write.WriterRan w s →
    ¬ write.ReportedUntouched w → state = some .unknown

variable {w : Surroundings} {s s' : TaskStore} {write : AdmittedWrite} {attemptId : String}
  {state : AttemptState} {detail : Option String} {result : Except ExecutorError Unit}

theorem attemptState_set (h : s.setAttemptState attemptId state detail = .ok s') :
    attemptState s' attemptId = some state := by
  unfold TaskStore.setAttemptState at h
  by_cases hrow : ∃ row ∈ s.attempts, row.attemptId = attemptId
  · rw [require_pos hrow, ok_bind] at h
    obtain rfl := Except.ok.inj h
    have hid : ((fun row : AttemptRow => decide (row.attemptId = attemptId)) ∘ fun row =>
        if row.attemptId = attemptId then { row with state := state, detail := detail } else row) =
          fun row => decide (row.attemptId = attemptId) := by
      funext row
      dsimp only [Function.comp]
      split <;> rfl
    obtain ⟨row, hfind⟩ : ∃ row, s.attempts.find? (·.attemptId = attemptId) = some row := by
      rw [← isSome_iff_exists, List.find?_isSome]
      obtain ⟨row, hmem, hrow⟩ := hrow
      exact ⟨row, hmem, decide_eq_true hrow⟩
    have hrowId : row.attemptId = attemptId := by simpa using List.find?_some hfind
    rw [attemptState, List.find?_map, hid, hfind, map_some, map_some, if_pos hrowId]
  · rw [require_neg hrow] at h
    cases h

theorem attemptState_settle {takes : Bool} (h : settle takes s attemptId state detail = .ok s') :
    attemptState s' attemptId = some state := by
  unfold settle at h
  split at h
  · exact attemptState_set h
  · cases h

/-- A refusal leaves the attempt rejected, if the database took it. -/
def Refuses (attemptId : String) (outcome : TaskStore × Except ExecutorError Unit) : Prop :=
  ∀ error, outcome.2 = .error error → Accepted (.error error) →
    attemptState outcome.1 attemptId = some .rejected

theorem refuses_store (source : StoreError) :
    Refuses attemptId (s, .error (.store source)) := by
  intro error herror haccepted
  exact absurd herror.symm (haccepted.1 source)

theorem refuses_reject (error : ExecutorError) (text : String) :
    Refuses attemptId (reject w s attemptId text error) := by
  unfold reject
  split
  · rename_i hsettle
    exact fun _ _ _ => attemptState_settle hsettle
  · exact refuses_store _

theorem refuses_attemptRunning : Refuses attemptId (attemptRunning w s attemptId) := by
  unfold attemptRunning
  split
  · nofun
  · exact refuses_store _

theorem refuses_cancelGate {taskId : TaskId} {next : TaskStore × Except ExecutorError Unit}
    (hnext : Refuses attemptId next) :
    Refuses attemptId (cancelGate w s taskId attemptId next) := by
  unfold cancelGate
  split
  · exact refuses_store _
  · split
    · exact refuses_reject _ _
    · exact hnext

theorem refuses_modeGate : Refuses attemptId (modeGate w s attemptId) := by
  unfold modeGate
  split
  · exact refuses_reject _ _
  · exact refuses_reject _ _
  · exact refuses_reject _ _
  · exact refuses_attemptRunning

theorem refuses_gates (write : AdmittedWrite) : Refuses write.attemptId (write.gates w s) := by
  cases write with
  | effect admitted =>
    dsimp only [AdmittedWrite.attemptId, AdmittedWrite.gates]
    unfold executeGates
    split
    · exact refuses_reject _ _
    · exact refuses_cancelGate refuses_modeGate
  | managed admitted =>
    dsimp only [AdmittedWrite.attemptId, AdmittedWrite.gates]
    unfold managedGates
    split
    · exact refuses_reject _ _
    · split
      · exact refuses_reject _ _
      · refine refuses_cancelGate ?_
        split
        · exact refuses_reject _ _
        · exact refuses_attemptRunning

/-- The state that a worker's answer is settled as. -/
def settledAs : Except WorkerError Unit → AttemptState
  | .ok () => .confirmed
  | .error error => if mutationUnknown error then .unknown else .rejected

theorem isWriteMutationFailed_imp {error : WorkerError} (h : isWriteMutationFailed error = true) :
    mutationUnknown error = true := by
  cases error <;> first | rfl | cases h

theorem settleAnswer_state {answer : Except WorkerError Unit}
    (h : settleAnswer w s attemptId detail answer = (s', result)) (haccepted : Accepted result) :
    attemptState s' attemptId = some (settledAs answer) := by
  cases answer with
  | ok _ =>
    rw [settleAnswer, confirm] at h
    split at h
    · rename_i hsettle
      obtain ⟨rfl, -⟩ := Prod.mk.inj h
      exact attemptState_settle hsettle
    · rename_i source _
      obtain ⟨-, rfl⟩ := Prod.mk.inj h
      exact absurd rfl (haccepted.1 source)
  | error error =>
    have hunknown : (isWriteMutationFailed error || (true && mutationUnknown error)) =
        mutationUnknown error := by
      cases hfailed : isWriteMutationFailed error with
      | true => rw [isWriteMutationFailed_imp hfailed]; rfl
      | false => rfl
    unfold settleAnswer commitWorkerError at h
    dsimp only at h
    rw [hunknown] at h
    split at h
    · rename_i hsettle
      obtain ⟨rfl, -⟩ := Prod.mk.inj h
      exact attemptState_settle hsettle
    · obtain ⟨-, rfl⟩ := Prod.mk.inj h
      exact absurd rfl (haccepted.2 _ _)

/-! ## The answer of a writer that ran -/

theorem writerRan_prepared (h : write.WriterRan w s) :
    ∃ artifacts, w.launch.prepared = .ok artifacts := by
  obtain ⟨-, -, -, -, hprepared, -⟩ := h
  cases heq : w.launch.prepared with
  | ok artifacts => exact ⟨artifacts, rfl⟩
  | error error =>
    rw [heq] at hprepared
    cases hprepared

theorem answer_of_writerRan (h : write.WriterRan w s) {artifacts : List OwnedArtifact}
    (hprepared : w.launch.prepared = .ok artifacts) :
    write.answer w s =
      (write.observed w).map fun final => confinedVerdict (conclude final artifacts) := by
  obtain ⟨hgates, hbound, hlength, hchecks, -, hspawned, -⟩ := h
  have hwrite : writeOnce w write.bytes =
      (write.observed w).map fun final => confinedVerdict (conclude final artifacts) := by
    rw [writeOnce, if_neg (Nat.not_lt.mpr hlength), hchecks]
    simp only [Launch.run, hprepared, hspawned, map_map]
    rfl
  rw [AdmittedWrite.answer, if_pos hgates]
  cases write with
  | effect admitted =>
    obtain ⟨identity, hidentity⟩ := isSome_iff_exists.mp hbound
    rw [← hwrite, AdmittedWrite.worker, effectAnswer, hidentity]
    rfl
  | managed admitted => exact hwrite

theorem observed_primary {final : LaunchState} (h : write.observed w = some final) :
    final.released = true → final.primary = w.launch.startup := by
  have hstart : ({ w.launch with payload := write.bytes } : Launch).start.Undisturbed
      w.launch.startup :=
    ⟨⟨nofun, fun _ => rfl⟩, fun _ _ => rfl⟩
  have hfinal := hstart.observe (startup_not_helper w.launch) h
  intro hreleased
  simp only [LaunchState.released, Bool.and_eq_true] at hreleased
  obtain ⟨hprimary, hfailed⟩ :=
    Sandbox.OwnedSequence.released_primary hfinal.proper hreleased.1
  exact hfinal.primary hfailed hprimary

/-- The writer ran, made no report, and its attempt is rejected, exactly when its launch hides
what it did. -/
theorem hidden_iff (h : write.WriterRan w s) :
    ((∃ error, write.answer w s = some (.error error) ∧ mutationUnknown error = false) ∧
      ¬ write.ReportedUntouched w) ↔ write.Hidden w := by
  obtain ⟨artifacts, hprepared⟩ := writerRan_prepared h
  rw [answer_of_writerRan h hprepared]
  unfold AdmittedWrite.ReportedUntouched AdmittedWrite.Hidden
  cases hobserved : write.observed w with
  | none => simp
  | some final =>
    have hiff := @rejects_iff_hides _ _ artifacts
      (fun error => startup_observation w.launch) (observed_primary hobserved)
    simp only [map_some, some.injEq, exists_eq_left', hprepared, Except.ok.injEq]
    exact hiff.trans ⟨fun h => ⟨artifacts, final, rfl, rfl, h⟩,
      fun ⟨_, _, hartifacts, hfinal, h⟩ => hartifacts ▸ hfinal ▸ h⟩

theorem perform_cases (h : write.perform w s = some (s', result)) :
    (∃ error, write.gates w s = (s', .error error) ∧ result = .error error) ∨
      ∃ reached answer detail, write.gates w s = (reached, .ok ()) ∧
        write.worker w = some answer ∧
        settleAnswer w reached write.attemptId detail answer = (s', result) := by
  cases write with
  | effect admitted | managed admitted =>
    dsimp only [AdmittedWrite.perform, execute, executeManagedWrite] at h
    split at h
    · rename_i refused error hgates
      obtain ⟨rfl, rfl⟩ := Prod.mk.inj (some.inj h)
      exact .inl ⟨error, hgates, rfl⟩
    · rename_i reached hgates
      obtain ⟨answer, hanswer, hsettle⟩ := map_eq_some_iff.mp h
      exact .inr ⟨reached, answer, _, hgates, hanswer, hsettle⟩

theorem perform_reached {reached : TaskStore} {answer : Except WorkerError Unit}
    (hgates : write.gates w s = (reached, .ok ())) (hworker : write.worker w = some answer) :
    ∃ detail, write.perform w s =
      some (settleAnswer w reached write.attemptId detail answer) := by
  cases write with
  | effect admitted =>
    refine ⟨some ("write-performed sha256=" ++ w.digest admitted.bytes), ?_⟩
    dsimp only [AdmittedWrite.gates] at hgates
    dsimp only [AdmittedWrite.perform, execute]
    rw [hgates]
    exact congrArg (Option.map _) hworker
  | managed admitted =>
    refine ⟨none, ?_⟩
    dsimp only [AdmittedWrite.gates] at hgates
    dsimp only [AdmittedWrite.perform, executeManagedWrite]
    rw [hgates]
    exact congrArg (Option.map _) hworker

theorem settledAs_confirmed {answer : Except WorkerError Unit} :
    settledAs answer = .confirmed ↔ answer = .ok () := by
  cases answer with
  | ok _ => simp [settledAs]
  | error error =>
    cases hopen : mutationUnknown error <;> simp [settledAs, hopen]

theorem settledAs_rejected {answer : Except WorkerError Unit} :
    settledAs answer = .rejected ↔
      ∃ error, answer = .error error ∧ mutationUnknown error = false := by
  cases answer with
  | ok _ => simp [settledAs]
  | error error =>
    cases hopen : mutationUnknown error <;> simp [settledAs, hopen]

theorem settledAs_unknown {answer : Except WorkerError Unit} (hok : answer ≠ .ok ())
    (hrejected : settledAs answer ≠ .rejected) : settledAs answer = .unknown := by
  cases answer with
  | ok _ => exact absurd rfl hok
  | error error =>
    cases hopen : mutationUnknown error with
    | true => simp [settledAs, hopen]
    | false => exact absurd (settledAs_rejected.mpr ⟨error, rfl, hopen⟩) hrejected

/-- The settlement of an admitted write is truthful unless the launch of a writer that ran hides
what the writer did. -/
theorem write_truthful_iff (w : Surroundings) (s : TaskStore) (write : AdmittedWrite)
    (s' : TaskStore) (result : Except ExecutorError Unit)
    (hperform : write.perform w s = some (s', result)) (haccepted : Accepted result) :
    Truthful w s write (attemptState s' write.attemptId) ↔
      ¬ (write.WriterRan w s ∧ write.Hidden w) := by
  rcases perform_cases hperform with ⟨error, hgates, rfl⟩ |
    ⟨reached, answer, detail, hgates, hworker, hsettle⟩
  · -- No gate was passed: nothing ran and the attempt is rejected.
    have hstate : attemptState s' write.attemptId = some .rejected := by
      have hrefuses := refuses_gates (w := w) (s := s) write
      rw [hgates] at hrefuses
      exact hrefuses error rfl haccepted
    have hran : ¬ write.WriterRan w s := by
      rintro ⟨hok, -⟩
      rw [hgates] at hok
      cases hok
    have hanswer : write.answer w s = none := by
      rw [AdmittedWrite.answer, hgates]
      rfl
    refine ⟨fun _ h => hran h.1, fun _ => ⟨?_, fun _ => .inl hran, fun _ h => absurd h hran⟩⟩
    rw [hstate, hanswer]
    exact ⟨nofun, nofun⟩
  · have hanswer : write.answer w s = some answer := by
      rw [AdmittedWrite.answer, hgates, ← hworker]
      rfl
    have hstate := settleAnswer_state hsettle haccepted
    have hhidden (hran : write.WriterRan w s) :
        (settledAs answer = .rejected ∧ ¬ write.ReportedUntouched w) ↔ write.Hidden w := by
      rw [← hidden_iff hran, hanswer, settledAs_rejected]
      simp only [some.injEq]
    rw [hstate]
    constructor
    · rintro htruth ⟨hran, hhides⟩
      obtain ⟨hrejected, hreported⟩ := (hhidden hran).mpr hhides
      rcases htruth.rejected (congrArg some hrejected) with hnever | hreport
      · exact hnever hran
      · exact hreported hreport
    · intro hopen
      have hrejected : settledAs answer = .rejected →
          ¬ write.WriterRan w s ∨ write.ReportedUntouched w := by
        intro hrejected
        by_contra hneither
        obtain ⟨hran, hreported⟩ := not_or.mp hneither
        exact hopen ⟨not_not.mp hran, (hhidden (not_not.mp hran)).mp ⟨hrejected, hreported⟩⟩
      refine ⟨?_, fun h => hrejected (some.inj h), fun hne hran hreported => ?_⟩
      · rw [hanswer, some.injEq, some.injEq]
        exact settledAs_confirmed
      · refine congrArg some (settledAs_unknown (fun h => hne (h ▸ hanswer)) fun h => ?_)
        exact (hrejected h).elim (fun hnever => hnever hran) hreported

/-! ## A close that fails after the writer's success -/

namespace LateClose

def entry : OwnedRecord := .entry .worker 1 64 63

def frames : Text := ascii "owned-launch-v1 entry worker 1 64 63\n" ++
  ascii "owned-launch-v1 terminal exit 0\n"

/-- The writer reports its entry and its success, and takes the payload. -/
def working : Turn :=
  ⟨0, .bytes frames, .wrote 1, .wouldBlock, .eof, .ok 0, 0, .ok (), .ok none, 1, .ok ()⟩

/-- The helper closes its socket and exits. -/
def ending : Turn :=
  ⟨1, .eof, .wouldBlock, .wouldBlock, .wouldBlock, .ok 0, 1, .ok (), .ok (some (.exited 0)), 2,
    .ok ()⟩

def artifact : OwnedArtifact :=
  ⟨"/tmp/rivect-launch-a", ⟨1, 2⟩, .ok (true, ⟨1, 2⟩), .error (.os 16)⟩

/-- A launch whose writer succeeds, and whose directory cannot be removed. -/
def launch : Launch where
  bounds := ⟨1000, 2 ^ 20, .worker⟩
  payload := []
  prepared := .ok [artifact]
  spawned := .ok ()
  pidfd := .ok ()
  nonblocking := [.ok (), .ok ()]
  stdoutPiped := false
  stderrPiped := true
  turns := [working, ending]

def surroundings : Surroundings where
  grant := .ok "/work"
  context := .ok ()
  decision := .allow
  covers := false
  checks := .ok ()
  launch := launch
  writerRan := true
  takesRejection := true
  takesRunning := true
  takesSettlement := true
  display := fun _ => "owned directory close failed"
  digest := fun _ => "digest"

def admitted : AdmittedWrite := .effect ⟨⟨"t"⟩, "a", [0x78], some ⟨1, 7⟩⟩

/-- The state that the loop starts in. -/
def start : LaunchState := ({ launch with payload := admitted.bytes } : Launch).start

def store : TaskStore :=
  { TaskStore.fresh with
    tasks := fun _ => some ⟨⟨"s"⟩, 1, 1, 1, .running, "goal", 1⟩
    attempts := [⟨"a", ⟨"t"⟩, "action-a", "write", "write notes", .planned, none⟩] }

def transcript : OwnedSequence := { entry := some entry, terminal := some (.exit 0) }

def final : LaunchState :=
  { start with
    sequence := transcript
    eof := true
    waiter := some (.exited 0)
    stdin := false
    payload := []
    stderr := ⟨false, []⟩ }

theorem takeFrames : (cutFrames frames).1.foldl (LaunchState.takeFrame launch.bounds) start =
    { start with sequence := transcript } := by
  have hcut : (cutFrames frames).1 = [ascii "owned-launch-v1 entry worker 1 64 63\n",
      ascii "owned-launch-v1 terminal exit 0\n"] := by decide
  have hentry : Sandbox.parseOwnedRecord (ascii "owned-launch-v1 entry worker 1 64 63\n") =
      .ok entry :=
    Sandbox.parseOwnedRecord_eq_ok.mpr (Sandbox.encode_parse (by rfl)).2
  have hexit : Sandbox.parseOwnedRecord (ascii "owned-launch-v1 terminal exit 0\n") =
      .ok (.exit 0) :=
    Sandbox.parseOwnedRecord_eq_ok.mpr (Sandbox.encode_parse (by rfl)).2
  rw [hcut]
  simp only [List.foldl_cons, List.foldl_nil, LaunchState.takeFrame, hentry, hexit]
  rfl

/-- The state after the first turn. -/
def served : LaunchState :=
  { start with sequence := transcript, payload := [], stderr := ⟨false, []⟩ }

theorem turn_working : start.turn launch.bounds true working = served := by
  have hread : start.readControl launch.bounds working = { start with sequence := transcript } := by
    have hpending : start.pending ++ frames = frames := rfl
    unfold LaunchState.readControl
    rw [if_neg (by decide)]
    simp only [working, hpending, takeFrames]
    rfl
  unfold LaunchState.turn
  rw [show start.requestStop launch.bounds working = start from rfl, hread]
  rfl

theorem turn_ending : (served.waitReady working).turn launch.bounds true ending = final := rfl

theorem observed_final : admitted.observed surroundings = some final := by
  change start.observe launch.bounds true [working, ending] = some final
  rw [LaunchState.observe, turn_working, if_neg (by decide),
    if_neg (by simp [launch, working]), LaunchState.observe, turn_ending, if_pos (by decide)]

theorem worker_answer : admitted.worker surroundings =
    some (.error (.ownedLaunch (.close "/tmp/rivect-launch-a" (.os 16)))) := by
  have hlaunch : admitted.worker surroundings =
      (admitted.observed surroundings).map fun final =>
        confinedVerdict (conclude final [artifact]) := by
    change writeOnce surroundings admitted.bytes = _
    rw [writeOnce, if_neg (by simp [admitted, AdmittedWrite.bytes, writeMaxBytes])]
    simp only [Launch.run, surroundings, launch, map_map]
    rfl
  have hclassified : confinedVerdict (conclude final [artifact]) =
      .error (.ownedLaunch (.close "/tmp/rivect-launch-a" (.os 16))) := by
    rfl
  rw [hlaunch, observed_final, map_some, hclassified]

theorem performed : ∃ s' error,
    admitted.perform surroundings store = some (s', .error (.worker error)) ∧
      attemptState s' "a" = some .rejected := by
  have hgates : admitted.gates surroundings store =
      ({ store with attempts := store.attempts.map fun row =>
        { row with state := .running, detail := none } }, .ok ()) := by
    rfl
  obtain ⟨detail, hperform⟩ := perform_reached hgates worker_answer
  exact ⟨_, _, hperform, rfl⟩

end LateClose

/-- Settlements are not always truthful: a writer that succeeds is rejected when its launch's
directory cannot be removed. -/
theorem late_close_rejected : ¬ ∀ (w : Surroundings) (s : TaskStore) (write : AdmittedWrite)
    (s' : TaskStore) (result : Except ExecutorError Unit),
    write.perform w s = some (s', result) → Accepted result →
      Truthful w s write (attemptState s' write.attemptId) := by
  intro h
  obtain ⟨s', error, hperform, hstate⟩ := LateClose.performed
  have htruth := h _ _ _ s' _ hperform ⟨nofun, nofun⟩
  rcases htruth.rejected hstate with hran | ⟨final, hfinal, -, output, houtput, hreports⟩
  · exact hran ⟨rfl, rfl, by decide, rfl, rfl, rfl, rfl⟩
  · obtain rfl := mem_unique LateClose.observed_final hfinal
    obtain rfl := some.inj houtput
    cases hreports

/-- That write meets the hypotheses of the characterisation. -/
theorem write_truthful_iff_late_close :
    ∃ s' result, LateClose.admitted.perform LateClose.surroundings LateClose.store =
        some (s', result) ∧ Accepted result ∧
      (Truthful LateClose.surroundings LateClose.store LateClose.admitted (attemptState s' "a") ↔
        ¬ (LateClose.admitted.WriterRan LateClose.surroundings LateClose.store ∧
          LateClose.admitted.Hidden LateClose.surroundings)) := by
  obtain ⟨s', error, hperform, -⟩ := LateClose.performed
  exact ⟨s', _, hperform, ⟨nofun, nofun⟩,
    write_truthful_iff _ _ LateClose.admitted s' _ hperform ⟨nofun, nofun⟩⟩

end Rivect.Executor
