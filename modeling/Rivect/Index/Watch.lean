import Rivect.Index.Graph

/-! # The project's own watcher

`record` and `take_batch` of `src/index.rs`: the events of the backend are coalesced into one
batch until a writer claims it.
-/

namespace Rivect.Index

structure WatchBatch where
  paths : List Path
  missed : Bool
  fileSetMoved : Bool
deriving DecidableEq

namespace WatchBatch

def empty : WatchBatch := ⟨[], false, false⟩

/-- The batch reports nothing. -/
def isQuiet (batch : WatchBatch) : Bool :=
  batch.paths.isEmpty && !batch.missed && !batch.fileSetMoved

def needsFullRebuild (batch : WatchBatch) : Bool :=
  batch.missed || batch.fileSetMoved || batch.paths.isEmpty

end WatchBatch

/-- The kinds of a backend event, as far as the watch tells them apart. -/
inductive EventKind where
  | access (closedWrite : Bool)
  | create
  | remove
  | renamed
  | modified
  | other
deriving DecidableEq

/-- A path that an event names: its place under the watched root, if it has one, and whether it
lies in the runtime's own directory. -/
structure Reported where
  relative : Option Path
  inRuntimeDir : Bool
deriving DecidableEq

/-- What the backend calls back with. -/
inductive Notification where
  | event (needRescan : Bool) (kind : EventKind) (paths : List Reported)
  | failed
deriving DecidableEq

def watchPathCapacity : ℕ := 4096

def watchIgnoredDirs : List String := [".git", "target", "node_modules"]

def excludedByRules (relative : Path) : Bool := relative.any fun name => name ∈ watchIgnoredDirs

def kindMovesTheFileSet : EventKind → Bool
  | .create | .remove | .renamed => true
  | _ => false

/-- One path of an event, taken into the batch. -/
def WatchBatch.place (batch : WatchBatch) (reported : Reported) : WatchBatch :=
  match reported.relative with
  | none => { batch with missed := true }
  | some relative =>
    if excludedByRules relative then batch
    else if reported.inRuntimeDir then batch
    else if batch.paths.length < watchPathCapacity then
      { batch with paths := batch.paths.insert relative }
    else { batch with missed := true }

/-- One backend event, coalesced into the pending batch. -/
def record (batch : WatchBatch) : Notification → WatchBatch
  | .failed => { batch with missed := true }
  | .event true _ _ => { batch with missed := true }
  | .event false (.access false) _ => batch
  | .event false kind paths =>
    paths.foldl WatchBatch.place
      (if kindMovesTheFileSet kind then { batch with fileSetMoved := true } else batch)

end Rivect.Index
