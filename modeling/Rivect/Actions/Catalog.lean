import Rivect.Learning.Definition

/-! # What a selection requires

The catalog of `src/actions.rs`, the need of each capability under the request facts and the
learned definition, and the plan rows that a selection writes.
-/

namespace Rivect.Actions

open Learning

/-- How this build runs a catalog row. -/
inductive Implementation where
  | localLeg
  | purpose
  | localAndPurpose
  | unavailable
deriving DecidableEq

def catalog : List (String × Implementation) :=
  [(RESOLVE_DECISION, .localLeg), (INSPECT_SYSTEM, .localLeg), (TEST_ASSUMPTION, .localLeg),
    (PREPARE_ENVIRONMENT, .localLeg), (FRAME_GOAL, .localLeg), (CHALLENGE_DIRECTION, .purpose),
    (DESIGN_CONTRACTS, .purpose), (PLAN_WORK, .localLeg), (ASSESS_PLAN, .localAndPurpose)]

def definition (id : String) : Option Implementation := catalog.lookup id

inductive RouteBlock where
  | notInBuild
  | unavailable
deriving DecidableEq

inductive Route where
  | localLeg (handler : String)
  | equivalent (handler : String)
  | purpose (handler : String)
  | blocked (block : RouteBlock)
deriving DecidableEq

inductive SkipReason where
  | notNeeded
  | alreadySatisfied
  | needsInformation
  | unsupported
deriving DecidableEq

inductive Need where
  | required
  | unresolved
  | skip (reason : SkipReason)
deriving DecidableEq

structure SelectedObligation where
  capability : String
  applicability : ObligationApplicability
  route : Route
deriving DecidableEq

/-- A capability with its need and the handler allowed in its place. -/
structure Weighed where
  capability : String
  need : Need
  equivalent : Option String
deriving DecidableEq

/-! ## Needs -/

def Need.when (holds : Bool) : Need := if holds then .required else .skip .notNeeded

section

variable (request : PlanRequest)

def isApproved : Bool := request.contract = .approved

/-- Whether a decided scan names a risky surface. -/
def risky : Option Bool :=
  request.surfaces.decided.map fun surfaces => decide (∃ s ∈ surfaces, s.isRisk)

def frameNeed : Need := if isApproved request then .skip .alreadySatisfied else .required

def riskNeed : Need :=
  if isApproved request then .skip .alreadySatisfied
  else
    match risky request with
    | none => .unresolved
    | some risk => .when risk

def isCoordinated : Bool :=
  1 < request.parts.length || request.parts.any fun part => !part.dependsOn.isEmpty

def planNeed : Need :=
  match risky request with
  | none => .unresolved
  | some risk =>
    .when (request.kind = .planOnly || isCoordinated request || (risk && !isApproved request))

def inspectNeed : Need :=
  if request.surfaces.decided.isSome then .skip .alreadySatisfied else .required

def securityNeed : Need :=
  match request.surfaces.decided with
  | none => .unresolved
  | some surfaces => .when (decide (∃ s ∈ surfaces, s.triggersSecurity))

def edits : Bool := request.kind = .change || request.kind = .deliver

def readinessEquivalent : Option String :=
  if request.kind = .planOnly then some ASSESS_PLAN else none

/-- The needs that the request facts alone decide. -/
def factNeeds : List Weighed :=
  [⟨FRAME_GOAL, frameNeed request, none⟩,
    ⟨CHALLENGE_DIRECTION, riskNeed request, none⟩,
    ⟨DESIGN_CONTRACTS, riskNeed request, none⟩,
    ⟨PLAN_WORK, planNeed request, none⟩,
    ⟨ASSESS_PLAN, planNeed request, none⟩,
    ⟨INSPECT_SYSTEM, inspectNeed request, none⟩,
    ⟨ASSESS_SECURITY, securityNeed request, none⟩,
    ⟨AUDIT_TESTS, .when (edits request), none⟩,
    ⟨IMPLEMENT_CHANGE, .when (edits request), none⟩,
    ⟨DELIVER_CHANGE, .when (request.kind = .deliver), none⟩,
    ⟨REVIEW_CHANGE, .when (request.kind = .audit), none⟩,
    ⟨DIAGNOSE_ISSUE, .when (request.kind = .diagnose), none⟩,
    ⟨ASSESS_READINESS, .required, readinessEquivalent request⟩]

end

/-- Only a decided need is overridable. -/
def Weighed.override (learned : LearningDefinition) (facts : ConditionFacts) (row : Weighed) :
    Weighed :=
  if row.need = .unresolved then row
  else
    match learned.applicability row.capability facts with
    | some .require => { row with need := .required }
    | some .decline => { row with need := .skip .notNeeded }
    | none => row

def needs (request : PlanRequest) (learned : LearningDefinition) : List Weighed :=
  (factNeeds request).map
    (Weighed.override learned (.forSelection request.kind request.surfaces.decided))

/-! ## Rows -/

def isLocal (id : String) : Bool :=
  definition id = some .localLeg || definition id = some .localAndPurpose

def route (capability : String) (equivalent : Option String) : Route :=
  if isLocal capability then .localLeg capability
  else if definition capability = some .purpose then .purpose capability
  else
    match equivalent.filter isLocal with
    | some handler => .equivalent handler
    | none =>
      if (definition capability).isSome then .blocked .unavailable else .blocked .notInBuild

def Weighed.obligation (row : Weighed) : Option SelectedObligation :=
  match row.need with
  | .required => some ⟨row.capability, .required, route row.capability row.equivalent⟩
  | .unresolved => some ⟨row.capability, .unresolved, route row.capability row.equivalent⟩
  | .skip _ => none

/-- Every obligation the facts and the learned conditions require. -/
def obligations (request : PlanRequest) (learned : LearningDefinition) :
    List SelectedObligation :=
  (needs request learned).filterMap Weighed.obligation

def declineReason (id : String) (needs : List Weighed) : SkipReason :=
  match needs.find? (·.capability = id) with
  | some ⟨_, .skip reason, _⟩ => reason
  | _ => if (definition id).isSome then .notNeeded else .unsupported

def Route.handler : Route → Option String
  | .localLeg handler | .equivalent handler | .purpose handler => some handler
  | .blocked _ => none

/-- What a route of its own waits on. -/
def Route.blocker : Route → Option ErrorCode
  | .localLeg _ | .equivalent _ => none
  | .purpose _ | .blocked _ => some .capabilityUnavailable

def rowWrite (row : SelectedObligation) : PlanRowWrite :=
  let reason : Option ErrorCode :=
    if row.applicability = .unresolved then some .dependencyBlocked else row.route.blocker
  { capability := row.capability
    applicability := row.applicability
    stage := row.capability ∈ PLAN_STAGES
    handler := row.route.handler
    blocker := reason.map fun reason => planBlocker reason row.capability }

structure Selection where
  revision : ℕ
  factsDigest : String
  obligations : List SelectedObligation
  declined : List (String × SkipReason)
deriving DecidableEq

/-- Records the one selection that the facts require; `digest` is the hex SHA-256 of the
canonical JSON of the facts. -/
def select (digest : CanonicalFacts → String) (learned : LearningDefinition) (s : TaskStore)
    (sessionId : SessionId) (request : PlanRequest) (shortlist : List String) :
    Except StoreError (TaskStore × Selection) := do
  let weighed := needs request learned
  let selected := obligations request learned
  let declined := (shortlist.filter fun id => !selected.any (·.capability = id)).map fun id =>
    (id, declineReason id weighed)
  let (s, record) ← s.recordPlanSelection sessionId request.taskId
    ⟨digest request.canonical, request.kind, selected.map rowWrite⟩
  .ok (s, ⟨record.revision, record.factsDigest, selected, declined⟩)

end Rivect.Actions
