import Rivect.Actions.Facts
import Rivect.TaskStore.Tasks

/-! # Learned definitions

The types and the pure evaluation of `src/learning.rs`: when a delta applies, what the active
deltas decide of a capability, and the verdict of a corpus case.
-/

namespace Rivect.Learning

open Lib

def DELTA_INSTRUCTION_MAX_BYTES : ℕ := 2 * 1024

def DEFINITION_MAX_BYTES : ℕ := 3 * 1024

def CORPUS_CASE_LIMIT : ℕ := 3

def CREDENTIAL_REFERENCE : String := "keyring:"

def carriesCredentialReference (text : String) : Bool :=
  CREDENTIAL_REFERENCE.toList <:+: text.toList.map Char.toLower

inductive PredicateEffect where
  | require
  | decline
deriving DecidableEq

def PredicateEffect.asStr : PredicateEffect → String
  | .require => "require"
  | .decline => "decline"

/-- One fact that a condition may read. -/
inductive ConditionFact where
  | purpose (p : String)
  | kind (k : RequestKind)
  | surface (s : Surface)
deriving DecidableEq

def ConditionFact.asStr : ConditionFact → String
  | .purpose _ => "purpose"
  | .kind _ => "kind"
  | .surface _ => "surface"

structure ConditionFacts where
  purpose : Option String
  kind : Option RequestKind
  surfaces : Option (Finset Surface)
deriving DecidableEq

namespace ConditionFacts

def forPurpose (purpose : String) : ConditionFacts := ⟨some purpose, none, none⟩

def forSelection (kind : RequestKind) (surfaces : Option (Finset Surface)) : ConditionFacts :=
  ⟨none, some kind, surfaces⟩

end ConditionFacts

/-- A fact that the evaluation site does not carry never holds. -/
def ConditionFact.holds (facts : ConditionFacts) : ConditionFact → Bool
  | .purpose p => facts.purpose = some p
  | .kind k => facts.kind = some k
  | .surface s => facts.surfaces.any fun decided => decide (s ∈ decided)

inductive DeltaPayload where
  | instruction (text : String)
  | applicability (capability : String) (effect : PredicateEffect)
deriving DecidableEq

structure DeltaChange where
  payload : DeltaPayload
  condition : Option ConditionFact
deriving DecidableEq

namespace DeltaChange

def instruction (change : DeltaChange) : Option String :=
  match change.payload with
  | .instruction text => some text
  | .applicability .. => none

def applies (facts : ConditionFacts) (change : DeltaChange) : Bool :=
  change.condition.all (·.holds facts)

def validate (change : DeltaChange) (deltaId : String) : Except DeltaError Unit :=
  match change.payload with
  | .instruction text => do
    require (isBlank text = false) (.emptyBody deltaId)
    require (text.utf8ByteSize ≤ DELTA_INSTRUCTION_MAX_BYTES)
      (.tooLarge deltaId text.utf8ByteSize DELTA_INSTRUCTION_MAX_BYTES)
    require (carriesCredentialReference text = false) (.credentialReference deltaId)
    match change.condition with
    | none => .ok ()
    | some (.purpose purpose) => require (isBlank purpose = false) (.emptyPurpose deltaId)
    | some fact => .error (.outOfScope deltaId .instruction fact.asStr)
  | .applicability capability _ => do
    require (weighedCapability capability) (.unknownCapability deltaId capability)
    match change.condition with
    | some (.kind _) | some (.surface _) => .ok ()
    | some fact => .error (.outOfScope deltaId .applicability fact.asStr)
    | none => .error (.unconditional deltaId)

end DeltaChange

structure LearningDelta where
  deltaId : String
  version : ℕ
  change : DeltaChange
deriving DecidableEq

def LearningDelta.appendedBytes (delta : LearningDelta) : Option ℕ :=
  delta.change.instruction.map fun text => text.utf8ByteSize + 1

/-- The active deltas in the order the store records them. -/
structure LearningDefinition where
  deltas : List LearningDelta
deriving DecidableEq

namespace LearningDefinition

def composedWith (definition : LearningDefinition) (delta : LearningDelta) :
    LearningDefinition :=
  ⟨definition.deltas ++ [delta]⟩

/-- The bytes of the deltas under one condition. -/
def appendedUnder (definition : LearningDefinition) (condition : Option ConditionFact) : ℕ :=
  ((definition.deltas.filter (·.change.condition = condition)).filterMap
    LearningDelta.appendedBytes).sum

/-- The purposes that instruction deltas name. -/
def purposes (definition : LearningDefinition) : List String :=
  definition.deltas.filterMap fun delta =>
    match delta.appendedBytes, delta.change.condition with
    | some _, some (.purpose purpose) => some purpose
    | _, _ => none

def maxInstructionBytes (definition : LearningDefinition) (base : String) : ℕ :=
  base.utf8ByteSize + definition.appendedUnder none +
    (definition.purposes.map fun purpose => definition.appendedUnder (some (.purpose purpose))).foldl
      max 0

/-- The effect of a delta on the capability, where it has one. -/
def effectOn (capability : String) (facts : ConditionFacts) (delta : LearningDelta) :
    Option PredicateEffect :=
  match delta.change.payload with
  | .applicability named effect =>
    if named = capability ∧ delta.change.applies facts then some effect else none
  | .instruction _ => none

/-- The last recorded delta wins. -/
def applicability (definition : LearningDefinition) (capability : String)
    (facts : ConditionFacts) : Option PredicateEffect :=
  definition.deltas.foldl (fun effect delta =>
    match effectOn capability facts delta with
    | some decided => some decided
    | none => effect) none

end LearningDefinition

inductive CorpusCaseKind where
  | transfer
  | composition
  | negativeControl
deriving DecidableEq

def CorpusCaseKind.asStr : CorpusCaseKind → String
  | .transfer => "transfer"
  | .composition => "composition"
  | .negativeControl => "negative_control"

inductive CorpusCase where
  | transfer (facts : ConditionFacts)
  | composition (facts : ConditionFacts)
  | negativeControl (facts : ConditionFacts) (control : String)
deriving DecidableEq

def CorpusCase.kind : CorpusCase → CorpusCaseKind
  | .transfer _ => .transfer
  | .composition _ => .composition
  | .negativeControl .. => .negativeControl

structure DeltaCandidate where
  deltaId : String
  baseVersion : ℕ
  change : DeltaChange
  evidence : String
deriving DecidableEq

def DeltaCandidate.validate (candidate : DeltaCandidate) : Except DeltaError Unit := do
  candidate.change.validate candidate.deltaId
  require (isBlank candidate.evidence = false) (.missingEvidence candidate.deltaId)
  require (carriesCredentialReference candidate.evidence = false)
    (.credentialReference candidate.deltaId)

structure CorpusVerdict where
  deltaId : String
  deltaVersion : ℕ
  kind : CorpusCaseKind
  expected : String
  observed : String
  passed : Bool
deriving DecidableEq

def appliesText (applies : Bool) : String := if applies then "applies" else "does not apply"

/-- The verdict of one case over the candidate, the active definition and the control. -/
def corpusVerdict (candidate : LearningDelta) (active : LearningDefinition)
    (control : Option LearningDelta) (corpusCase : CorpusCase) (base : String) : CorpusVerdict :=
  let id := candidate.deltaId
  let limit := toString DEFINITION_MAX_BYTES
  let verdict := fun expected observed passed =>
    ⟨id, candidate.version, corpusCase.kind, expected, observed, passed⟩
  match corpusCase with
  | .transfer facts =>
    let applies := candidate.change.applies facts
    verdict ("delta " ++ id ++ " applies to the case facts")
      ("delta " ++ id ++ " " ++ appliesText applies) applies
  | .composition facts =>
    let composed := active.composedWith candidate
    let size := composed.maxInstructionBytes base
    let within := decide (size ≤ DEFINITION_MAX_BYTES)
    match candidate.change.payload with
    | .instruction _ =>
      verdict ("the composed instruction part stays within " ++ limit ++ " bytes")
        ("the heaviest composed instruction part is " ++ toString size ++ " bytes") within
    | .applicability capability effect =>
      let decided := composed.applicability capability facts
      verdict
        ("the composed definition decides " ++ capability ++ " as " ++ effect.asStr ++
          " within " ++ limit ++ " bytes")
        ("the composed definition decides " ++ capability ++ " as " ++
          decided.elim "nothing" PredicateEffect.asStr ++ " in " ++ toString size ++ " bytes")
        (decided = some effect && within)
  | .negativeControl facts controlId =>
    let controlApplies := control.any (·.change.applies facts)
    let candidateApplies := candidate.change.applies facts
    verdict ("delta " ++ controlId ++ " applies and delta " ++ id ++ " does not")
      ("delta " ++ controlId ++ " " ++ appliesText controlApplies ++ ", delta " ++ id ++ " " ++
        appliesText candidateApplies)
      (controlApplies && !candidateApplies)

end Rivect.Learning
