import Rivect.Policy.Egress
import Rivect.Policy.Paths

/-! # The verdict on an effect

The deny rules of a policy and the verdict that they and the permission mode give one request.
-/

namespace Rivect.EffectPolicy

inductive PermissionMode where
  | manual
  | acceptEdits
  | readOnly
  | auto
  | preapprovedOnly
  | yolo
deriving DecidableEq

inductive EffectClass where
  | read
  | write
  | exec
  | egress
  | model
  | control
deriving DecidableEq

structure AdmissionContext where
  mode : PermissionMode
  inGrantScope : Bool
  budgetRemaining : Bool
  inTrustedScope : Bool
  hasCheckpoint : Bool
  previouslyApproved : Bool
  withinDeclaredBounds : Bool
  dryRun : Bool
deriving DecidableEq

inductive ModeDecision where
  | allow
  | ask
  | deny
deriving DecidableEq

structure Grant where
  grantId : ℕ
  scopeRoot : Text
  classes : List EffectClass
  revoked : Bool
deriving DecidableEq

/-- The grants by their number, and the deny rules in the order of their enrollment. -/
structure Policy where
  grants : List Grant
  denies : List CanonicalPath
  rawDenies : List Text
  next : ℕ
deriving DecidableEq

section

variable (unicode : Unicode)

def caseEq (left right : Text) : Bool := unicode.caseFold left = unicode.caseFold right

def sameComponents (left right : CanonicalPath) : Bool :=
  left.components.length = right.components.length &&
    (left.components.zip right.components).all fun pair => caseEq unicode pair.1 pair.2

/-- Whether the request is the denied path or lies below it; a rule with a collapsed tail covers
only what lies below. -/
def coversIdentity (denied request : CanonicalPath) : Bool :=
  if request.components.length < denied.components.length then false
  else if (denied.components.zip request.components).all fun pair => caseEq unicode pair.1 pair.2
  then
    if denied.collapsedMissingTail then denied.components.length < request.components.length
    else true
  else false

namespace Policy

def fresh : Policy := ⟨[], [], [], 0⟩

def grantClasses (policy : Policy) (scopeRoot : Text) (classes : List EffectClass) : Policy :=
  { policy with
    next := policy.next + 1
    grants := policy.grants ++ [⟨policy.next + 1, scopeRoot, classes, false⟩] }

def revoke (policy : Policy) (grantId : ℕ) : Policy :=
  { policy with
    grants := policy.grants.map fun grant =>
      if grant.grantId = grantId then { grant with revoked := true } else grant }

/-- The first rule with the same components takes a spelling that did not collapse; without one
the rule is new. -/
def enroll (identity : CanonicalPath) : List CanonicalPath → List CanonicalPath
  | [] => [identity]
  | rule :: rules =>
    if sameComponents unicode rule identity then
      (if identity.collapsedMissingTail then rule else identity) :: rules
    else rule :: enroll identity rules

def enrollDeny (policy : Policy) (fs : Snapshot) (path : Text) : Except PolicyError Policy := do
  let identity ← canonicalizePath unicode fs path
  .ok { policy with denies := enroll unicode identity policy.denies }

def enrollDenyTarget (policy : Policy) (raw : Text) : Policy :=
  if raw ∈ policy.rawDenies then policy
  else { policy with rawDenies := policy.rawDenies ++ [raw] }

def revokeDeny (policy : Policy) (fs : Snapshot) (path : Text) : Except PolicyError Policy := do
  let identity ← canonicalizePath unicode fs path
  .ok { policy with
    denies := policy.denies.filter fun rule => !sameComponents unicode rule identity }

/-- Fails closed on path errors. -/
def covers (policy : Policy) (fs : Snapshot) (path : Text) : Bool :=
  match canonicalizePath unicode fs path with
  | .ok request => policy.denies.any fun rule => coversIdentity unicode rule request
  | .error _ => true

/-- Enrolled-deny consult for one request target, routed by effect class. -/
def targetDenied (policy : Policy) (fs : Snapshot) (target : Text) (effectClass : EffectClass) :
    Bool :=
  if effectClass = .egress then
    if isUtf8 target then
      let raw := preprocessEgressTarget target
      egressDenied policy.rawDenies raw ||
        match egressFilesystemShape raw with
        | .absolute path => policy.covers unicode fs path
        | .unresolvable => true
        | .notFilesystem => false
    else false
  else policy.covers unicode fs target

/-- The mode matrix, once no deny rule applies. -/
def modeDecision (ctx : AdmissionContext) (effectClass : EffectClass) : ModeDecision :=
  match ctx.mode, effectClass with
  | .manual, .read => if ctx.inGrantScope then .allow else .ask
  | .manual, _ => .ask
  | .acceptEdits, .read => .allow
  | .acceptEdits, .write => if ctx.inTrustedScope && ctx.hasCheckpoint then .allow else .ask
  | .acceptEdits, _ => .ask
  | .readOnly, .read => .allow
  | .readOnly, _ => .deny
  | .auto, .read => if ctx.inGrantScope then .allow else .ask
  | .auto, .write => if ctx.inGrantScope && ctx.budgetRemaining then .allow else .ask
  | .auto, .exec | .auto, .egress => if ctx.withinDeclaredBounds then .allow else .ask
  | .auto, _ => .ask
  | .preapprovedOnly, _ => if ctx.previouslyApproved then .allow else .deny
  | .yolo, _ => .allow

/-- Mode verdict for one request; an enrolled deny outranks every mode. -/
def decide (policy : Policy) (fs : Snapshot) (path : Text) (effectClass : EffectClass)
    (ctx : AdmissionContext) : ModeDecision :=
  if policy.targetDenied unicode fs path effectClass then .deny
  else modeDecision ctx effectClass

end Policy

/-- The calls that change a policy. -/
inductive PolicyCall where
  | grantClasses (scopeRoot : Text) (classes : List EffectClass)
  | revoke (grantId : ℕ)
  | enrollDeny (fs : Snapshot) (path : Text)
  | enrollDenyTarget (raw : Text)
  | revokeDeny (fs : Snapshot) (path : Text)

/-- A refused call leaves the policy as it is. -/
def Policy.perform (policy : Policy) : PolicyCall → Policy
  | .grantClasses scopeRoot classes => policy.grantClasses scopeRoot classes
  | .revoke grantId => policy.revoke grantId
  | .enrollDeny fs path => (policy.enrollDeny unicode fs path).toOption.getD policy
  | .enrollDenyTarget raw => policy.enrollDenyTarget raw
  | .revokeDeny fs path => (policy.revokeDeny unicode fs path).toOption.getD policy

def Policy.after (policy : Policy) (calls : List PolicyCall) : Policy :=
  calls.foldl (Policy.perform unicode) policy

end

end Rivect.EffectPolicy
