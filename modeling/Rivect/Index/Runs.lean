import Rivect.Index.Generations
import Rivect.Index.Watch
import Rivect.Lib.Fallible

/-! # Index runs

The run owner of `src/commands.rs`: a cut is prepared and reserved, its run answers off the path,
and the seal follows. A batch of the watcher is claimed by a request or by a turn of the loop.
-/

namespace Rivect.Index

open Lib

structure ProjectRequest where
  changed : List Path
  fileSetMoved : Bool
  previousDocuments : List Path
deriving DecidableEq

/-- Why an index request is refused, or its run answered nothing. -/
inductive IndexRefusal where
  | cancelledBeforeSpawn
  | runInFlight
  | runVanished
  | projectRoot
  | store
  | context (cause : StaleCause)
deriving DecidableEq

/-- The answer of a run: its graph, or the cause that its failure leaves on the generation. -/
abbrev Outcome := Except StaleCause ProjectGraph

/-- What a call finds around it: which reads and writes of the store go through, whether the root
is a directory, whether the watch can start, and which tasks read as live. -/
structure Surroundings where
  markLatest : Bool
  mark : Bool
  latest : Bool
  graph : Bool
  reserve : Bool
  sealing : Bool
  root : Bool
  watch : Bool
  live : String → Bool

/-- What happened to batches and runs: a record that no branch looks at. -/
inductive IndexEvent where
  | claimed (batch : WatchBatch)
  | started (generation : ℕ) (request : ProjectRequest)
  | answered (generation : ℕ)
deriving DecidableEq

/-- The part of the runtime that the index uses. `reserved` is the generation of the run, `flight`
its request while the owner is busy, `landed` an answer that waits in the channel. -/
structure IndexRuntime where
  generations : Generations
  watcher : Option WatchBatch
  reserved : Option ℕ
  runTask : Option String
  flight : Option ProjectRequest
  landed : Option Outcome
  log : List IndexEvent

namespace IndexRuntime

def busy (rt : IndexRuntime) : Bool := rt.flight.isSome

/-- The store says that a task is live, or no task is asked about. -/
def taskLive (env : Surroundings) (task : Option String) : Bool := task.all env.live

/-- The newest generation stops being current once the watch reports that the project moved. -/
def markWatchedGeneration (env : Surroundings) (rt : IndexRuntime) (batch : WatchBatch) :
    Except IndexRefusal IndexRuntime := do
  if batch.isQuiet then return rt
  let cause := if batch.missed then .watcherMissed else .sourceChanged
  require (env.markLatest = true) .store
  match rt.generations.latest with
  | none => return rt
  | some previous =>
    require (env.mark = true) .store
    return { rt with
      generations := rt.generations.markIndexGenerationStale previous.generation cause }

/-- The watcher's batch is taken, and then the newest generation is marked. -/
def takeIndexWatchBatch (env : Surroundings) (rt : IndexRuntime) :
    IndexRuntime × Except IndexRefusal (Option WatchBatch) :=
  match rt.watcher with
  | none => (rt, .ok none)
  | some batch =>
    let rt := { rt with watcher := some .empty }
    if batch.isQuiet then (rt, .ok none)
    else
      let rt := { rt with log := rt.log ++ [IndexEvent.claimed batch] }
      match rt.markWatchedGeneration env batch with
      | .error refusal => (rt, .error refusal)
      | .ok rt => (rt, .ok (some batch))

/-- Everything a run needs is decided before it starts. -/
def prepareIndexRun (env : Surroundings) (rt : IndexRuntime) (task : Option String)
    (changed : List Path) (fileSetMoved : Bool) :
    Except IndexRefusal (IndexRuntime × ProjectRequest) := do
  require (env.root = true) .projectRoot
  require (env.latest = true) .store
  require (rt.generations.latest.isSome → env.graph = true) .store
  let previousDocuments := rt.generations.latest.elim [] Generation.documents
  require (env.reserve = true) .store
  return ({ rt with
    generations := rt.generations.reserve
    reserved := some rt.generations.next
    runTask := task }, ⟨changed, fileSetMoved, previousDocuments⟩)

def startIndexRun (env : Surroundings) (rt : IndexRuntime) (task : Option String)
    (changed : List Path) (fileSetMoved : Bool) : Except IndexRefusal IndexRuntime := do
  require (taskLive env task = true) .cancelledBeforeSpawn
  require (rt.busy = false) .runInFlight
  let (prepared, request) ← rt.prepareIndexRun env task changed fileSetMoved
  return { prepared with
    flight := some request
    log := prepared.log ++ [IndexEvent.started rt.generations.next request] }

/-- The graph of a run that answered nothing. -/
def failedGraph : ProjectGraph := ⟨[], .partialWith [.entriesFailed 1], [], [], []⟩

def sealedState (graph : ProjectGraph) : GenerationState :=
  if graph.completeness.isComplete then .fresh else .stale .partialCoverage

def carryPolicy (graph : ProjectGraph) : CarryPolicy :=
  if graph.narrowedTo.isEmpty then .full else .narrowed graph.narrowedTo

/-- Seals one finished run; a write that fails leaves the reserved row. -/
def sealIndexRun (env : Surroundings) (rt : IndexRuntime) (generation : ℕ) (outcome : Outcome) :
    IndexRuntime × Except IndexRefusal (GenerationState × ProjectGraph) :=
  let (policy, state, graph) := match outcome with
    | .ok graph => (carryPolicy graph, sealedState graph, graph)
    | .error cause => (.nothing, .stale cause, failedGraph)
  let written := if env.sealing then
    rt.generations.sealIndexGeneration generation policy state graph else none
  match written, outcome with
  | none, _ => (rt, .error .store)
  | some generations, .error cause =>
    ({ rt with generations := generations }, .error (.context cause))
  | some generations, .ok graph =>
    let watcher := rt.watcher.or (if env.watch then some .empty else none)
    ({ rt with
      generations := generations
      watcher := watcher
      log := rt.log ++ [IndexEvent.answered generation] }, .ok (state, graph))

/-- A cancellation outranks whatever the run itself produced. -/
def cancelIndexOutcome (cancelled : Bool) (outcome : Outcome) : Outcome :=
  if cancelled then .error .isolatedRun else outcome

/-- The seal of an answer that was taken from the channel. -/
def sealIndexAnswer (env : Surroundings) (rt : IndexRuntime) (outcome : Outcome) : IndexRuntime :=
  match rt.reserved with
  | none => rt
  | some generation =>
    let cancelled := !taskLive env rt.runTask
    let rt := { rt with reserved := none, runTask := none }
    (rt.sealIndexRun env generation (cancelIndexOutcome cancelled outcome)).1

/-- The channel hands out the answer, and the owner is free. -/
def takeAnswer (rt : IndexRuntime) : IndexRuntime := { rt with flight := none, landed := none }

/-- The paths that narrow the repair of a batch. -/
def repairPaths (batch : WatchBatch) : List Path :=
  if batch.needsFullRebuild then [] else batch.paths

/-- One turn of the loop: a landed answer is sealed, or else a waiting batch starts its repair. -/
def pumpIndex (env : Surroundings) (rt : IndexRuntime) : IndexRuntime :=
  match rt.landed with
  | some outcome => rt.takeAnswer.sealIndexAnswer env outcome
  | none =>
    if rt.busy then rt
    else if rt.reserved.isNone then
      match rt.takeIndexWatchBatch env with
      | (rt, .error _) => rt
      | (rt, .ok none) => rt
      | (rt, .ok (some batch)) =>
        match rt.startIndexRun env none (repairPaths batch) batch.fileSetMoved with
        | .ok rt => rt
        | .error _ => rt
    else rt

/-- The turn that waits: only an outstanding run is finished, nothing is started. -/
def pumpIndexOwed (env : Surroundings) (rt : IndexRuntime) : IndexRuntime :=
  match rt.landed with
  | some outcome => rt.takeAnswer.sealIndexAnswer env outcome
  | none => rt

/-- `project.init`, once its parameters are read. -/
def projectInit (env : Surroundings) (rt : IndexRuntime) (task : Option String)
    (changed : List Path) : IndexRuntime × Except IndexRefusal Unit :=
  match rt.takeIndexWatchBatch env with
  | (rt, .error refusal) => (rt, .error refusal)
  | (rt, .ok batch) =>
    let fileSetMoved := batch.elim false WatchBatch.fileSetMoved
    let changed := if changed.isEmpty then batch.elim [] WatchBatch.paths else changed
    match rt.startIndexRun env task changed fileSetMoved with
    | .ok rt => (rt, .ok ())
    | .error refusal => (rt, .error refusal)

/-- The waiting batch is taken and its repair is run to its end in one call. -/
def reindexFromWatch (env : Surroundings) (rt : IndexRuntime) (outcome : Outcome) :
    IndexRuntime :=
  match rt.takeIndexWatchBatch env with
  | (rt, .ok (some batch)) =>
    match rt.startIndexRun env none (repairPaths batch) batch.fileSetMoved with
    | .ok rt => rt.takeAnswer.sealIndexAnswer env outcome
    | .error _ => rt
  | (rt, _) => rt

/-- What can happen to the index, one step at a time. -/
inductive Op where
  | notified (notification : Notification)
  | init (env : Surroundings) (task : Option String) (changed : List Path)
  | lands (outcome : Outcome)
  | pump (env : Surroundings)
  | pumpOwed (env : Surroundings)
  | reindex (env : Surroundings) (outcome : Outcome)

def apply (rt : IndexRuntime) : Op → IndexRuntime
  | .notified notification =>
    { rt with watcher := rt.watcher.map fun batch => record batch notification }
  | .init env task changed => (rt.projectInit env task changed).1
  | .lands outcome =>
    if rt.busy && rt.landed.isNone then { rt with landed := some outcome } else rt
  | .pump env => rt.pumpIndex env
  | .pumpOwed env => rt.pumpIndexOwed env
  | .reindex env outcome => rt.reindexFromWatch env outcome

def run (rt : IndexRuntime) (ops : List Op) : IndexRuntime := ops.foldl apply rt

/-- The index of a runtime that has just opened its store. -/
def opened (generations : Generations) : IndexRuntime :=
  ⟨generations, none, none, none, none, none, []⟩

end IndexRuntime

end Rivect.Index
