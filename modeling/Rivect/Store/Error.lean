import Mathlib.Data.List.Basic

/-! # The store's errors

`StoreError` of `src/state.rs` and the causes that the modelled calls raise. A failed
statement, whatever SQLite reports, is `storage`; only a row that breaks a unique index of the
events is told apart from the rest, as `eventExists`.
-/

namespace Rivect

inductive Missing where
  | session (id : String)
  | task (id : String)
  | question (id : String)
  | attempt (id : String)
  | evidence (id : String)
  | budgetScope (id : String)
  | reservation (id : String)
  | settlement (id : String)
  | workBudget (id : String)
  | obligation
  | delta (id : String)
deriving DecidableEq

inductive ConflictCause where
  | duplicateCommand (commandId : String)
  | questionOnLifecycle (lifecycle : String)
  | pendingQuestionExists
  | questionNotPending
  | questionRevision (expected current : ℕ)
  | terminalCannotReopen
  | taskRevision (expected current : ℕ)
  | taskAlreadyTerminal
  | completionOpen (unsatisfied unresolved unknown : ℕ)
  | completionStale (stale : ℕ)
  | budgetScopeExists (scope : String)
  | budgetExhausted (scope : String) (spent reserved bound limit : ℕ)
  | reservationAlreadyRecorded (reservationId : String)
  | reservationNotReserved (reservationId state : String)
  | chargeReservedBelowBound (scope : String) (reserved bound : ℕ)
  | settlementAlreadyRecorded (attemptId : String)
  | settlementNotDispatched (attemptId state : String)
  | workBudgetExists (taskId state : String)
  | workBudgetStopped (taskId : String)
  | workSendBoundReached (taskId : String) (settledSends sendBound : ℕ)
  | planSelectionMissing
  | planSelectionStale (revision : ℕ)
  | planRowMissing (capability : String)
  | planRowHandler (capability handler : String)
  | planRowUnresolved (capability : String)
  | planNotAssessable (revision : ℕ)
  | compactionNotShorter (before folded : ℕ)
  | cursorGeneration (expected current : ℕ)
deriving DecidableEq

inductive InvalidCause where
  | emptyGoal
  | unknownOption (optionId questionId : String)
  | disabledOption (optionId reason : String)
  | emptyCustomAnswer
  | attemptTaskMismatch (attemptId ownerTask expected : String)
  | missingReadMarker (attemptId : String)
  | budgetUnitsOutOfRange (units : ℕ)
  | workBudgetBoundOutOfRange (field : String) (value : ℕ)
  | emptyBudgetScopes
  | confirmedExceedsBound (confirmed bound : ℕ)
  | settlementMissingTotal (attemptId exactness : String)
  | eventCursorOutOfRange
  | cursorOffsetOutOfRange
deriving DecidableEq

inductive DeltaScope where
  | instruction
  | applicability
deriving DecidableEq

inductive DeltaState where
  | inactive
  | active
  | rolledBack
deriving DecidableEq

/-- The refusals of a learned delta. -/
inductive DeltaError where
  | emptyBody (deltaId : String)
  | tooLarge (deltaId : String) (size limit : ℕ)
  | credentialReference (deltaId : String)
  | emptyPurpose (deltaId : String)
  | outOfScope (deltaId : String) (scope : DeltaScope) (fact : String)
  | unknownCapability (deltaId capability : String)
  | unconditional (deltaId : String)
  | missingEvidence (deltaId : String)
  | alreadyRecorded (deltaId : String)
  | tooManyCases (deltaId : String) (count limit : ℕ)
  | duplicateCase (deltaId kind : String)
  | selfControl (deltaId : String)
  | unknownControl (deltaId control : String)
  | corpusMissing (deltaId kind : String) (version : ℕ)
  | corpusRejected (deltaId kind expected observed : String)
  | activationRefused (deltaId : String) (state : DeltaState) (version expected : ℕ)
  | rollbackRefused (deltaId : String) (state : DeltaState) (version expected : ℕ)
  | compositionExceeded (deltaId : String) (size limit : ℕ)
deriving DecidableEq

/-- The class of a refusal on the wire. -/
def DeltaError.code : DeltaError → String
  | .alreadyRecorded _ | .activationRefused .. | .rollbackRefused .. | .corpusMissing ..
  | .corpusRejected .. | .compositionExceeded .. => "conflict"
  | _ => "invalid_input"

inductive StoreError where
  | notFound (missing : Missing)
  | conflict (cause : ConflictCause)
  | staleIntent (expected current : ℕ)
  | alreadyTerminal
  | invalidInput (cause : InvalidCause)
  | storage
  | closed
  | eventExists
  | delta (cause : DeltaError)
deriving DecidableEq

end Rivect
