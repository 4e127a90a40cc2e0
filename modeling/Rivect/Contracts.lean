import Mathlib.Data.List.Basic

/-! # Contract types

The runtime's public types, as far as the modelled functions read them. Ids are the nominal
strings of the source.
-/

namespace Rivect

structure SessionId where
  val : String
deriving DecidableEq

structure TaskId where
  val : String
deriving DecidableEq

structure QuestionId where
  val : String
deriving DecidableEq

structure OptionId where
  val : String
deriving DecidableEq

structure ActionId where
  val : String
deriving DecidableEq

/-- The longest accepted text. -/
def TEXT_MAX_BYTES : ℕ := 65536

inductive ErrorCode where
  | invalidInput
  | unsupportedVersion
  | unknownMethod
  | notFound
  | conflict
  | staleIntent
  | alreadyTerminal
  | denied
  | capabilityUnavailable
  | dependencyBlocked
  | outcomeUnknown
  | contextOverflow
  | budgetExhausted
  | storageUnavailable
  | outputLimit
  | internalError
  | cancelled
deriving DecidableEq

inductive Lifecycle where
  | running
  | waiting
  | paused
  | blocked
  | completed
  | cancelled
deriving DecidableEq

namespace Lifecycle

/-- The text a lifecycle column holds. -/
def asStr : Lifecycle → String
  | .running => "running"
  | .waiting => "waiting"
  | .paused => "paused"
  | .blocked => "blocked"
  | .completed => "completed"
  | .cancelled => "cancelled"

def isTerminal : Lifecycle → Bool
  | .completed | .cancelled => true
  | .running | .waiting | .paused | .blocked => false

end Lifecycle

inductive ObligationApplicability where
  | required
  | notApplicable
  | unresolved
deriving DecidableEq

inductive ObligationExecution where
  | pending
  | satisfied
  | failed
  | stale
deriving DecidableEq

inductive AttemptState where
  | planned
  | admitted
  | running
  | confirmed
  | rejected
  | cancelRequested
  | unknown
deriving DecidableEq

inductive ResumeCondition where
  | decision (questionId : QuestionId) (revision : ℕ)
  | noReadyAction
  | dependency (actionId : ActionId)
  | reconciliation (actionId : ActionId)
deriving DecidableEq

structure Blocker where
  reason : ErrorCode
  owner : String
  condition : ResumeCondition
deriving DecidableEq

inductive Availability where
  | enabled
  | disabled (reason : String)
deriving DecidableEq

structure QuestionOption where
  optionId : OptionId
  label : String
  consequences : String
  availability : Availability
deriving DecidableEq

structure Question where
  questionId : QuestionId
  questionRevision : ℕ
  taskId : TaskId
  intentRevision : ℕ
  prompt : String
  options : List QuestionOption
  recommendedOptionId : OptionId
  recommendationBasis : String
deriving DecidableEq

inductive AnswerSelection where
  | option (optionId : OptionId)
  | custom (text : String)
deriving DecidableEq

/-- The members of the JSON objects the store journals as event deltas; a digest names the text
it was taken of. The objects of an `index` name a record, its validity and its digest, those of a
`ledger` a scope and what it spent. -/
inductive Value where
  | string (s : String)
  | number (n : ℕ)
  | digest (text : String)
  | null
  | index (entries : List (String × String × String))
  | ledger (entries : List (String × ℕ))
deriving DecidableEq

structure Event where
  eventId : String
  aggregateId : String
  aggregateRevision : ℕ
  cursor : ℕ
  sessionId : SessionId
  taskId : Option TaskId
  eventType : String
  delta : List (String × Value)
  origin : String
deriving DecidableEq

end Rivect
