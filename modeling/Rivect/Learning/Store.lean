import Rivect.Learning.Definition

/-! # The learning tables

The tables of `src/state/sql/learning.sql` that hold deltas and their corpus verdicts, with the
calls of `src/state/learning.rs` that record, judge, activate and withdraw a delta.
-/

namespace Rivect.Learning

open Lib

def LEARNING_DELTA_RETENTION : ℕ := 32

/-- The longest of the bases that an instruction part is assembled onto. -/
def LARGEST_INSTRUCTION_BASE : String :=
  "You are the Rivect design_contracts purpose. From the task, its criteria and its " ++
    "selected surfaces in the inputs, reply with exactly one JSON object " ++
    "\x7b\"contracts\":[\x7b\"surface\":<selected surface>,\"text\":<boundary " ++
    "contract>\x7d]\x7d covering every selected risky surface. A material choice the " ++
    "user must make adds \"fork\":\x7b\"prompt\",\"options\":[five " ++
    "\x7b\"id\",\"label\",\"consequences\",\"disabled_reason\"?\x7d],\"recommended\"," ++
    "\"basis\"\x7d. " ++
    "An applied fork answer arrives as fork_answer. No other field and no tool call."

structure DeltaRecord where
  deltaId : String
  baseVersion : ℕ
  change : DeltaChange
  evidence : String
  state : DeltaState
  version : ℕ
deriving DecidableEq

def DeltaRecord.delta (record : DeltaRecord) : LearningDelta :=
  ⟨record.deltaId, record.version, record.change⟩

/-- The deltas in the order of their rows, and at most one verdict for a delta and a kind. -/
structure LearningTables where
  deltas : List DeltaRecord
  corpus : List CorpusVerdict
deriving DecidableEq

namespace LearningTables

def fresh : LearningTables := ⟨[], []⟩

def deltaMissing (deltaId : String) : StoreError := .notFound (.delta deltaId)

def deltaRecord (tables : LearningTables) (deltaId : String) : Option DeltaRecord :=
  tables.deltas.find? (·.deltaId = deltaId)

def corpusOn (tables : LearningTables) (deltaId : String) : List CorpusVerdict :=
  [CorpusCaseKind.composition, .negativeControl, .transfer].filterMap fun kind =>
    tables.corpus.find? fun verdict => verdict.deltaId = deltaId ∧ verdict.kind = kind

/-- Every active delta in record order. -/
def definition (tables : LearningTables) : LearningDefinition :=
  ⟨(tables.deltas.filter (·.state = .active)).map DeltaRecord.delta⟩

def definitionSize (tables : LearningTables) : ℕ :=
  tables.definition.maxInstructionBytes LARGEST_INSTRUCTION_BASE

/-- A refusal of a delta's body as the store's error. -/
def refused {α : Type} (x : Except DeltaError α) : Except StoreError α :=
  x.mapError StoreError.delta

/-- The candidates beyond the newest leave, and their verdicts with them. -/
def prune (tables : LearningTables) (keep : ℕ) : LearningTables :=
  let dropped :=
    (((tables.deltas.filter (·.state = .inactive)).map DeltaRecord.deltaId).reverse).drop keep
  { deltas := tables.deltas.filter (·.deltaId ∉ dropped)
    corpus := tables.corpus.filter (·.deltaId ∉ dropped) }

def recordDelta (tables : LearningTables) (candidate : DeltaCandidate) :
    Except StoreError LearningTables := do
  refused candidate.validate
  let baseVersion ← TaskStore.storedU64 candidate.baseVersion
  require (∀ record ∈ tables.deltas, record.deltaId ≠ candidate.deltaId)
    (.delta (.alreadyRecorded candidate.deltaId))
  .ok (prune { tables with
    deltas := tables.deltas ++ [⟨candidate.deltaId, baseVersion, candidate.change,
      candidate.evidence, .inactive, 1⟩] } LEARNING_DELTA_RETENTION)

/-- The control that a case names: another delta, already recorded. -/
def control (tables : LearningTables) (deltaId : String) :
    CorpusCase → Except StoreError (Option LearningDelta)
  | .negativeControl _ control => do
    require (control ≠ deltaId) (.delta (.selfControl deltaId))
    let held ← found (tables.deltaRecord control) (.delta (.unknownControl deltaId control))
    .ok (some held.delta)
  | .transfer _ | .composition _ => .ok none

/-- The first kind that the cases name twice. -/
def duplicateKind : List CorpusCaseKind → List CorpusCase → Option CorpusCaseKind
  | _, [] => none
  | met, case :: rest =>
    if case.kind ∈ met then some case.kind else duplicateKind (case.kind :: met) rest

def insertVerdict (tables : LearningTables) (verdict : CorpusVerdict) : LearningTables :=
  { tables with
    corpus := tables.corpus.filter (fun v =>
      !(v.deltaId = verdict.deltaId ∧ v.kind = verdict.kind)) ++ [verdict] }

def recordCorpus (tables : LearningTables) (deltaId : String) (cases : List CorpusCase) :
    Except StoreError LearningTables := do
  let record ← found (tables.deltaRecord deltaId) (deltaMissing deltaId)
  require (cases.length ≤ CORPUS_CASE_LIMIT)
    (.delta (.tooManyCases deltaId cases.length CORPUS_CASE_LIMIT))
  match duplicateKind [] cases with
  | some kind => .error (.delta (.duplicateCase deltaId kind.asStr))
  | none => do
    let controls ← cases.mapM (tables.control deltaId)
    let verdicts := (cases.zip controls).map fun case =>
      corpusVerdict record.delta tables.definition case.2 case.1 LARGEST_INSTRUCTION_BASE
    .ok (verdicts.foldl insertVerdict tables)

/-- Every case kind carries a passed verdict for the version. -/
def requireCorpus (deltaId : String) (version : ℕ) (verdicts : List CorpusVerdict) :
    Except StoreError Unit :=
  [CorpusCaseKind.transfer, .composition, .negativeControl].forM fun kind => do
    let verdict ← found (verdicts.find? fun v => v.deltaVersion = version ∧ v.kind = kind)
      (.delta (.corpusMissing deltaId kind.asStr version))
    require (verdict.passed = true)
      (.delta (.corpusRejected deltaId kind.asStr verdict.expected verdict.observed))

/-- The conditional update of both transitions. -/
def transition (tables : LearningTables) (deltaId : String) (source target : DeltaState)
    (version : ℕ) : Option LearningTables :=
  if tables.deltas.any fun r => r.deltaId = deltaId ∧ r.state = source ∧ r.version = version then
    some { tables with
      deltas := tables.deltas.map fun r =>
        if r.deltaId = deltaId ∧ r.state = source ∧ r.version = version then
          { r with state := target, version := r.version + 1 }
        else r }
  else none

def activate (tables : LearningTables) (deltaId : String) (expectedVersion : ℕ) :
    Except StoreError LearningTables := do
  let record ← found (tables.deltaRecord deltaId) (deltaMissing deltaId)
  requireCorpus deltaId expectedVersion (tables.corpusOn deltaId)
  let expected ← TaskStore.storedU64 expectedVersion
  let tables ← found (tables.transition deltaId .inactive .active expected)
    (.delta (.activationRefused deltaId record.state record.version expectedVersion))
  require (tables.definitionSize ≤ DEFINITION_MAX_BYTES)
    (.delta (.compositionExceeded deltaId tables.definitionSize DEFINITION_MAX_BYTES))
  .ok tables

def rollBack (tables : LearningTables) (deltaId : String) (expectedVersion : ℕ) :
    Except StoreError LearningTables := do
  let record ← found (tables.deltaRecord deltaId) (deltaMissing deltaId)
  let expected ← TaskStore.storedU64 expectedVersion
  found (tables.transition deltaId .active .rolledBack expected)
    (.delta (.rollbackRefused deltaId record.state record.version expectedVersion))

end LearningTables

end Rivect.Learning
