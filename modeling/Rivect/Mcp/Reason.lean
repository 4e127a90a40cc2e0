import Mathlib.Data.List.Basic

/-! # Reasons and seams

Every reason a call can be settled with belongs to one seam, and the seam's fingerprint goes with
it into the record.
-/

namespace Rivect.Mcp

inductive McpSeam where
  | preSend
  | framing
  | protocol
  | timeout
  | signal
  | cleanup
deriving DecidableEq

/-- The one map from seams to fingerprints. -/
def mcpBoundaryIds : List (String × McpSeam) :=
  [("MCP-1", .preSend), ("MCP-2", .framing), ("MCP-3", .protocol), ("MCP-4", .timeout),
    ("MCP-5", .signal), ("MCP-6", .cleanup)]

def mcpUnmappedBoundaryId : String := "MCP-0"

def boundaryId (seam : McpSeam) : String :=
  ((mcpBoundaryIds.find? (·.2 = seam)).map Prod.fst).getD mcpUnmappedBoundaryId

inductive McpReason where
  | artifactUnavailable
  | claimUnavailable
  | credentialRefused
  | cancellationUnreadable
  | admissionWithdrawn
  | cancelled
  | destinationRefused
  | unreconciledOperation
  | malformedFrame
  | requestNotEncodable
  | requestOverBound
  | frameOverBound
  | answersOverBound
  | answerNamesAnotherRequest
  | answerCarriesNoResult
  | readUnavailable
  | readFailed
  | undeclaredMethod
  | protocolError
  | spawnFailed
  | missingProtocolVersion
  | unsupportedProtocolVersion
  | unknownResultType
  | continuationWithoutHandle
  | continuationHandleUnbounded
  | timeout
  | writeTimeout
  | signalDeath
  | peerClosed
  | readerClosed
  | stdinClosed
  | stdinUnavailable
  | writeClosed
  | writeFailed
  | cleanupIncomplete
deriving DecidableEq

namespace McpReason

def asStr : McpReason → String
  | artifactUnavailable => "artifact_unavailable"
  | claimUnavailable => "claim_unavailable"
  | credentialRefused => "credential_refused"
  | cancellationUnreadable => "cancellation_unreadable"
  | admissionWithdrawn => "admission_withdrawn"
  | cancelled => "cancelled"
  | destinationRefused => "destination_refused"
  | unreconciledOperation => "unreconciled_operation"
  | malformedFrame => "malformed_frame"
  | requestNotEncodable => "request_not_encodable"
  | requestOverBound => "request_over_bound"
  | frameOverBound => "frame_over_bound"
  | answersOverBound => "answers_over_bound"
  | answerNamesAnotherRequest => "answer_names_another_request"
  | answerCarriesNoResult => "answer_carries_no_result"
  | readUnavailable => "read_unavailable"
  | readFailed => "read_failed"
  | undeclaredMethod => "undeclared_method"
  | protocolError => "protocol_error"
  | spawnFailed => "spawn_failed"
  | missingProtocolVersion => "missing_protocol_version"
  | unsupportedProtocolVersion => "unsupported_protocol_version"
  | unknownResultType => "unknown_result_type"
  | continuationWithoutHandle => "continuation_without_handle"
  | continuationHandleUnbounded => "continuation_handle_unbounded"
  | timeout => "timeout"
  | writeTimeout => "write_timeout"
  | signalDeath => "signal_death"
  | peerClosed => "peer_closed"
  | readerClosed => "reader_closed"
  | stdinClosed => "stdin_closed"
  | stdinUnavailable => "stdin_unavailable"
  | writeClosed => "write_closed"
  | writeFailed => "write_failed"
  | cleanupIncomplete => "cleanup_incomplete"

/-- The seam a reason is retained at. -/
def seam : McpReason → McpSeam
  | artifactUnavailable | claimUnavailable | credentialRefused | cancellationUnreadable
  | admissionWithdrawn | cancelled | destinationRefused | unreconciledOperation => .preSend
  | malformedFrame | requestNotEncodable | requestOverBound | frameOverBound | answersOverBound
  | answerNamesAnotherRequest | answerCarriesNoResult | readUnavailable | readFailed => .framing
  | undeclaredMethod | protocolError | spawnFailed | missingProtocolVersion
  | unsupportedProtocolVersion | unknownResultType | continuationWithoutHandle
  | continuationHandleUnbounded => .protocol
  | timeout | writeTimeout => .timeout
  | signalDeath | peerClosed | readerClosed | stdinClosed | stdinUnavailable | writeClosed
  | writeFailed => .signal
  | cleanupIncomplete => .cleanup

end McpReason

inductive McpState where
  | succeeded
  | failed
  | outcomeUnknown
  | inputRequired
deriving DecidableEq

namespace McpState

/-- A pending call is not settled; its continuation handle carries it. -/
def isTerminal : McpState → Bool
  | succeeded | failed | outcomeUnknown => true
  | inputRequired => false

end McpState

end Rivect.Mcp
