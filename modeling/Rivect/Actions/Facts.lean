import Mathlib.Data.Finset.Basic
import Rivect.TaskStore.Plan

/-! # The facts a selection reads

The typed request of `src/actions.rs` and the ids of the capabilities that a selection weighs.
-/

namespace Rivect

def FRAME_GOAL : String := "frame_goal"

def CHALLENGE_DIRECTION : String := "challenge_direction"

def DESIGN_CONTRACTS : String := "design_contracts"

def INSPECT_SYSTEM : String := "inspect_system"

def RESOLVE_DECISION : String := "resolve_decision"

def TEST_ASSUMPTION : String := "test_assumption"

def PREPARE_ENVIRONMENT : String := "prepare_environment"

def ASSESS_SECURITY : String := "assess_security"

def AUDIT_TESTS : String := "audit_tests"

def ASSESS_READINESS : String := "assess_readiness"

def IMPLEMENT_CHANGE : String := "implement_change"

def DELIVER_CHANGE : String := "deliver_change"

def REVIEW_CHANGE : String := "review_change"

def DIAGNOSE_ISSUE : String := "diagnose_issue"

def PLAN_STAGES : List String :=
  [FRAME_GOAL, CHALLENGE_DIRECTION, DESIGN_CONTRACTS, PLAN_WORK, ASSESS_PLAN]

/-- Every capability the selection weighs, in selection order. -/
def SELECTION_CAPABILITIES : List String :=
  [FRAME_GOAL, CHALLENGE_DIRECTION, DESIGN_CONTRACTS, PLAN_WORK, ASSESS_PLAN, INSPECT_SYSTEM,
    ASSESS_SECURITY, AUDIT_TESTS, IMPLEMENT_CHANGE, DELIVER_CHANGE, REVIEW_CHANGE, DIAGNOSE_ISSUE,
    ASSESS_READINESS]

def weighedCapability (capability : String) : Bool := capability ∈ SELECTION_CAPABILITIES

/-- A surface the request touches. -/
inductive Surface where
  | localOnly
  | auth
  | publicApi
  | migration
  | permissions
  | secrets
  | trust
  | untrustedInput
  | isolation
  | dependencies
  | privateData
deriving DecidableEq

namespace Surface

def isRisk (surface : Surface) : Bool := surface ≠ .localOnly

def triggersSecurity : Surface → Bool
  | .auth | .permissions | .secrets | .trust | .untrustedInput | .isolation | .dependencies
  | .privateData => true
  | .localOnly | .publicApi | .migration => false

end Surface

/-- The impact scan; an empty one decides nothing either. -/
inductive SurfaceScan where
  | known (surfaces : Finset Surface)
  | unknown
deriving DecidableEq

def SurfaceScan.decided : SurfaceScan → Option (Finset Surface)
  | .known surfaces => if surfaces = ∅ then none else some surfaces
  | .unknown => none

inductive ContractBasis where
  | absent
  | approved
deriving DecidableEq

structure WorkPart where
  id : String
  criteria : List String
  dependsOn : List String
  proof : String
deriving DecidableEq

structure PlanRequest where
  taskId : TaskId
  kind : RequestKind
  surfaces : SurfaceScan
  contract : ContractBasis
  parts : List WorkPart
deriving DecidableEq

/-- What the facts digest is taken of. -/
structure CanonicalFacts where
  kind : RequestKind
  surfaces : Option (Finset Surface)
  contract : ContractBasis
  parts : List WorkPart
deriving DecidableEq

def PlanRequest.canonical (request : PlanRequest) : CanonicalFacts :=
  ⟨request.kind, request.surfaces.decided, request.contract, request.parts⟩

end Rivect
