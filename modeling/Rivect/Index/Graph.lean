import Mathlib.Data.Prod.Lex
import Mathlib.Data.String.Basic
import Mathlib.Order.WithBot

/-! # The project graph

The rows of `src/index.rs`: where a relation is read, the document it names, and what a
generation's graph holds beside its rows.
-/

namespace Rivect.Index

/-- A path as its components. -/
abbrev Path := List String

structure SourceRef where
  path : Path
  line : Option ℕ
  ignored : Bool
deriving DecidableEq

inductive TraversalLimit where
  | depth
  | nodes
  | time
deriving DecidableEq

inductive PartialReason where
  | limitReached (limit : ℕ)
  | entriesFailed (count : ℕ)
  | unresolvedPaths (count : ℕ)
  | unsupportedLanguage (count : ℕ)
  | parseErrors (count : ℕ)
  | staleDocuments (count : ℕ)
  | unknownModulePaths (count : ℕ)
  | traversalLimit (limit : TraversalLimit)
deriving DecidableEq

inductive Completeness where
  | complete
  | partialWith (reasons : List PartialReason)
deriving DecidableEq

namespace Completeness

def fromReasons (reasons : List PartialReason) : Completeness :=
  if reasons.isEmpty then .complete else .partialWith reasons

def isComplete : Completeness → Bool
  | .complete => true
  | .partialWith _ => false

def reasons : Completeness → List PartialReason
  | .complete => []
  | .partialWith reasons => reasons

@[simp] theorem reasons_fromReasons (reasons : List PartialReason) :
    (fromReasons reasons).reasons = reasons := by
  cases reasons <;> rfl

end Completeness

inductive EdgeKind where
  | «import»
  | call
  | test
deriving DecidableEq

inductive EdgeProvenance where
  | observed
  | inferred
  | structural
deriving DecidableEq

inductive EdgeConfidence where
  | certain
  | unknown
deriving DecidableEq

structure IndexEdge where
  fromRef : SourceRef
  toRef : SourceRef
  kind : EdgeKind
  provenance : EdgeProvenance
  version : Int
  confidence : EdgeConfidence
deriving DecidableEq

/-! ## The order of the rows -/

/-- The components of a path as they compare: the root, a leading `.`, `..`, a name. -/
def components : Path → List (ℕ ×ₗ String)
  | "" :: part :: parts => toLex (0, "") :: named (part :: parts)
  | "." :: parts => toLex (1, "") :: named parts
  | parts => named parts
where
  named (parts : Path) : List (ℕ ×ₗ String) :=
    (parts.filter fun part => part ≠ "" ∧ part ≠ ".").map fun part =>
      if part = ".." then toLex (2, "") else toLex (3, part)

/-- The fields in their order; a missing line comes first. -/
def SourceRef.order (ref : SourceRef) : List (ℕ ×ₗ String) ×ₗ WithBot ℕ ×ₗ Bool :=
  toLex (components ref.path, toLex (ref.line, ref.ignored))

def EdgeKind.order : EdgeKind → ℕ
  | .import => 0
  | .call => 1
  | .test => 2

def EdgeProvenance.order : EdgeProvenance → ℕ
  | .observed => 0
  | .inferred => 1
  | .structural => 2

def EdgeConfidence.order : EdgeConfidence → ℕ
  | .certain => 0
  | .unknown => 1

abbrev EdgeOrder : Type :=
  (List (ℕ ×ₗ String) ×ₗ WithBot ℕ ×ₗ Bool) ×ₗ (List (ℕ ×ₗ String) ×ₗ WithBot ℕ ×ₗ Bool) ×ₗ
    ℕ ×ₗ ℕ ×ₗ Int ×ₗ ℕ

def IndexEdge.order (edge : IndexEdge) : EdgeOrder :=
  toLex (edge.fromRef.order, toLex (edge.toRef.order, toLex (edge.kind.order,
    toLex (edge.provenance.order, toLex (edge.version, edge.confidence.order)))))

structure ProjectGraph where
  edges : List IndexEdge
  completeness : Completeness
  unresolved : List Path
  narrowedTo : List Path
  documents : List Path
deriving DecidableEq

end Rivect.Index
