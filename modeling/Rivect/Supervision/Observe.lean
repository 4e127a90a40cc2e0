import Rivect.Supervision.Detect
import Mathlib.Data.List.AList

/-! # The supervisor

`src/supervisor.rs`: the watches it keeps, the least recently observed task that loses its own,
and what one observation does to the watch of its task.
-/

namespace Rivect.Supervision

def REACTION_HISTORY : ℕ := 8

def WATCH_LIMIT : ℕ := 64

inductive SupervisorError where
  | invalidPolicy (operationClass : OperationClass) (fault : PolicyFault)
deriving DecidableEq

structure SupervisorPolicy where
  read : ClassThresholds
  test : ClassThresholds
  retrieve : ClassThresholds
deriving DecidableEq

namespace SupervisorPolicy

def default : SupervisorPolicy where
  read := ⟨8, 3, 4, 6, 8, 4⟩
  test := ⟨12, 5, 6, 8, 12, 6⟩
  retrieve := ⟨10, 4, 6, 8, 10, 4⟩

def forClass (policy : SupervisorPolicy) : OperationClass → ClassThresholds
  | .read => policy.read
  | .test => policy.test
  | .retrieve => policy.retrieve

end SupervisorPolicy

structure Observation where
  task : TaskId
  operationClass : OperationClass
  signature : FailureSignature
  heartbeat : Bool
  evidenceGrowth : ℕ
  newInputs : Bool
deriving DecidableEq

namespace Observation

def failure (task : TaskId) (operationClass : OperationClass) (tool args result : String) :
    Observation :=
  ⟨task, operationClass, ⟨tool, args, result⟩, false, 0, false⟩

def withHeartbeat (observation : Observation) : Observation :=
  { observation with heartbeat := true }

def carriesProgress (observation : Observation) : Bool :=
  observation.heartbeat || 0 < observation.evidenceGrowth || observation.newInputs

end Observation

structure Reaction where
  task : TaskId
  operationClass : OperationClass
  cause : StallCause
  thresholds : ClassThresholds
deriving DecidableEq

structure TaskWatch where
  windows : OperationClass → List Sample
  cooldown : ℕ
  waitingGrace : ℕ
  reactions : List Reaction

namespace TaskWatch

def empty : TaskWatch := ⟨fun _ => [], 0, 0, []⟩

/-- Whether the observation counts as useful, and the grace left behind. -/
def weigh (w : TaskWatch) (t : ClassThresholds) (waiting : Bool) (observation : Observation) :
    Bool × ℕ :=
  if waiting then
    if t.noProgress ≤ w.waitingGrace then (false, w.waitingGrace)
    else (true, w.waitingGrace + 1)
  else (observation.carriesProgress, 0)

/-- The window with one more sample, cut to its length at the front. -/
def pushed (t : ClassThresholds) (window : List Sample) (sample : Sample) : List Sample :=
  (window ++ [sample]).drop ((window ++ [sample]).length - t.window)

/-- The observation is recorded; no detector has run. -/
def record (w : TaskWatch) (t : ClassThresholds) (waiting : Bool) (observation : Observation) :
    TaskWatch :=
  let (useful, grace) := w.weigh t waiting observation
  { w with
    waitingGrace := grace
    windows := Function.update w.windows observation.operationClass
      (pushed t (w.windows observation.operationClass) ⟨observation.signature, useful⟩) }

def keepReaction (w : TaskWatch) (reaction : Reaction) : TaskWatch :=
  let reactions := w.reactions ++ [reaction]
  { w with reactions := if REACTION_HISTORY < reactions.length then reactions.tail else reactions }

def observe (w : TaskWatch) (t : ClassThresholds) (waiting : Bool) (observation : Observation) :
    Except Fault (TaskWatch × Option Reaction) := do
  let w := w.record t waiting observation
  if 0 < w.cooldown then return ({ w with cooldown := w.cooldown - 1 }, none)
  match ← detect (w.windows observation.operationClass) t with
  | none => return (w, none)
  | some cause =>
    let reaction : Reaction := ⟨observation.task, observation.operationClass, cause, t⟩
    return ({ w with cooldown := t.cooldown }.keepReaction reaction, some reaction)

end TaskWatch

abbrev Watches := AList fun _ : TaskId => TaskWatch

/-- `order` is the recency of the watches, the oldest first. -/
structure Supervisor where
  policy : SupervisorPolicy
  watches : Watches
  order : List TaskId

/-- The loop that drops the least recently observed watches at the ceiling. -/
def evict : List TaskId → Watches → List TaskId × Watches
  | [], watches => ([], watches)
  | oldest :: order, watches =>
    if WATCH_LIMIT ≤ watches.keys.length then evict order (watches.erase oldest)
    else (oldest :: order, watches)

namespace Supervisor

def new (policy : SupervisorPolicy) : Except SupervisorError Supervisor := do
  policy.read.validate.mapError (.invalidPolicy .read)
  policy.test.validate.mapError (.invalidPolicy .test)
  policy.retrieve.validate.mapError (.invalidPolicy .retrieve)
  return ⟨policy, ∅, []⟩

/-- Whether the latest scheduler node of the task waits. -/
def waiting (scheduler : Scheduler) (task : TaskId) : Bool :=
  match scheduler.byTask.lookup task with
  | none => false
  | some node =>
    match scheduler.nodeState node with
    | .ok .waiting => true
    | _ => false

/-- The observed task becomes the most recent; a new one makes room for its watch. -/
def touch (s : Supervisor) (task : TaskId) : List TaskId × Watches :=
  let order := s.order.filter (· ≠ task) ++ [task]
  if task ∈ s.watches then (order, s.watches) else evict order s.watches

def watchOf (s : Supervisor) (task : TaskId) : TaskWatch := (s.watches.lookup task).getD .empty

def observe (s : Supervisor) (scheduler : Scheduler) (observation : Observation) :
    Except Fault (Supervisor × Option Reaction) := do
  let t := s.policy.forClass observation.operationClass
  let (order, watches) := s.touch observation.task
  let watch := (watches.lookup observation.task).getD .empty
  let (watch, reaction) ← watch.observe t (waiting scheduler observation.task) observation
  return ({ s with order, watches := watches.insert observation.task watch }, reaction)

end Supervisor

/-! ## One watch -/

namespace TaskWatch

variable {w : TaskWatch} {t : ClassThresholds} {waiting : Bool} {observation : Observation}

@[simp] theorem record_cooldown : (w.record t waiting observation).cooldown = w.cooldown := rfl

theorem length_pushed (window : List Sample) (sample : Sample) :
    (pushed t window sample).length ≤ t.window := by
  rw [pushed, List.length_drop]
  omega

theorem record_windows : (w.record t waiting observation).windows observation.operationClass =
    pushed t (w.windows observation.operationClass)
      ⟨observation.signature, (w.weigh t waiting observation).1⟩ :=
  Function.update_self ..

theorem record_windows_of_ne {c : OperationClass} (h : c ≠ observation.operationClass) :
    (w.record t waiting observation).windows c = w.windows c :=
  Function.update_of_ne h ..

/-- What one observation does to the watch of its task, and what it answers. -/
structure Observed (t : ClassThresholds) (waiting : Bool) (observation : Observation)
    (w w' : TaskWatch) (reaction : Option Reaction) : Prop where
  windows : w'.windows = (w.record t waiting observation).windows
  cooled : 0 < w.cooldown → reaction = none ∧ w'.cooldown = w.cooldown - 1
  quiet : reaction = none → w'.cooldown = w.cooldown - 1
  none_iff : reaction = none ↔ 0 < w.cooldown ∨
    ¬ Stalls t (sterileRun (w'.windows observation.operationClass))
  reacted : ∀ r, reaction = some r → r.task = observation.task ∧
    r.operationClass = observation.operationClass ∧ r.thresholds = t ∧ w'.cooldown = t.cooldown ∧
    r.cause.Truthful (w'.windows observation.operationClass) t

theorem observe_spec (h : t.Accepted) (w : TaskWatch) (waiting : Bool) (observation : Observation) :
    ∃ w' reaction, w.observe t waiting observation = .ok (w', reaction) ∧
      Observed t waiting observation w w' reaction := by
  unfold observe
  by_cases hcooldown : 0 < w.cooldown
  · simp only [record_cooldown, hcooldown, if_true]
    refine ⟨_, _, rfl, rfl, fun _ => ⟨rfl, rfl⟩, fun _ => rfl, by simp [hcooldown], ?_⟩
    intro r hr
    cases hr
  · simp only [record_cooldown, hcooldown, if_false]
    obtain ⟨answer, hdetect, htruthful, hnone⟩ := detect_spec h.pair
      ((w.record t waiting observation).windows observation.operationClass)
    rw [hdetect]
    have hzero : w.cooldown = 0 := by omega
    cases answer with
    | none =>
      refine ⟨_, _, rfl, rfl, fun hpos => absurd hpos hcooldown, fun _ => by simp [hzero], ?_, ?_⟩
      · exact iff_of_true rfl (.inr (hnone.mp rfl))
      · intro r hr
        cases hr
    | some cause =>
      refine ⟨_, _, rfl, rfl, fun hpos => absurd hpos hcooldown, by simp, ?_, ?_⟩
      · refine iff_of_false (by simp) ?_
        rintro (hpos | hstalls)
        · exact hcooldown hpos
        · cases hnone.mpr hstalls
      · intro r hr
        obtain rfl := Option.some.inj hr
        exact ⟨rfl, rfl, rfl, rfl, htruthful cause rfl⟩

end TaskWatch

end Rivect.Supervision
