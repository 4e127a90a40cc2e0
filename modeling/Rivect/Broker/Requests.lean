import Rivect.Config.Assign
import Rivect.Ledger.Model

/-! # Requests and their outcomes

The manifest that `src/model.rs` freezes for one attempt, the ways in which a provider refuses it,
and which of them may still have applied remotely.
-/

namespace Rivect.Broker

open Config

structure Connection where
  kind : ConnKind
  endpoint : String
  credentialRef : Option String
  region : Option String
  profile : Option String
deriving DecidableEq

structure Profile where
  credentialRef : Option String
deriving DecidableEq

/-! ## Dialects and contracts -/

inductive Dialect where
  | responses
  | gemini
  | chatCompletions
  | messages
  | ollamaChat
  | converse
  | cursorAgent
  | devinAgent
  | gitlabWorkflow
deriving DecidableEq

/-- The connection ids that record a dialect. -/
def recordedDialects : Dialect → List String
  | .responses => ["openai", "abliteration", "meta", "ollama", "custom-responses", "openrouter",
      "sakana", "xai", "xai-oauth", "openai-codex", "openai-codex-device", "bedrock-mantle"]
  | .gemini => ["google"]
  | .chatCompletions => ["gitlab-duo", "github-copilot", "opencode-go", "opencode-zen",
      "custom-chat-completions", "aiand", "aimlapi", "alibaba-coding-plan", "alibaba-token-plan",
      "coreweave", "deepinfra", "deepseek", "firepass", "fireworks", "gmi-cloud", "groq",
      "huggingface", "kilo", "litellm", "llama.cpp", "lm-studio", "minimax-code",
      "minimax-code-cn", "mistral", "moonshot", "nanogpt", "novita", "nvidia", "qianfan",
      "qwen-portal", "siliconflow", "siliconflow-cn", "synthetic", "together", "venice", "vllm",
      "wafer-serverless", "xiaomi", "xiaomi-token-plan-ams", "xiaomi-token-plan-cn",
      "xiaomi-token-plan-sgp", "yolo-auto", "zenmux", "zhipu-coding-plan"]
  | .messages => ["anthropic", "minimax", "umans", "cloudflare-ai-gateway", "custom-messages",
      "vercel-ai-gateway"]
  | .ollamaChat => ["ollama-cloud"]
  | .converse => ["amazon-bedrock"]
  | .cursorAgent => ["cursor"]
  | .devinAgent => ["devin"]
  | .gitlabWorkflow => ["gitlab-duo-agent"]

def dialectFor (connection : String) : Option Dialect :=
  [.responses, .gemini, .chatCompletions, .messages, .ollamaChat, .converse, .cursorAgent,
    .devinAgent, .gitlabWorkflow].find? fun dialect => connection ∈ recordedDialects dialect

def isCodexConnection (connection : String) : Bool :=
  connection = "openai-codex" || connection = "openai-codex-device"

/-- Only the contract of the two Codex ids refuses a blind retry. -/
def refusesBlindRetry (connection : String) : Bool := isCodexConnection connection

def sameRecordedContract (left right : String) : Bool :=
  isCodexConnection left && isCodexConnection right

def blindRetryRefused (source target : String) : Bool :=
  refusesBlindRetry source && sameRecordedContract source target

/-! ## Provider errors -/

inductive TransportCause where
  | deadline
  | request (timeout builder connect : Bool)
  | read (timedOut : Bool)
  | status (code : ℕ)
deriving DecidableEq

inductive TransportClass where
  | deadlineExpired
  | timeout
  | requestFailure
  | readFailure
  | httpStatus (code : ℕ)
deriving DecidableEq

def TransportCause.class : TransportCause → TransportClass
  | .deadline => .deadlineExpired
  | .request true _ _ => .timeout
  | .request false _ _ => .requestFailure
  | .read true => .timeout
  | .read false => .readFailure
  | .status code => .httpStatus code

inductive ProviderError where
  | unknownConnection (connection : String)
  | liveGrantRequired (kind : ConnKind)
  | storeUnavailable
  | storeAmbiguous
  | credentialUnresolved (connection : String)
  | localProfileDeclared (connection : String)
  | credentialProfileMismatch (connection : String)
  | credentialOutsideNamespace
  | credentialOccupied
  | credentialAbsent
  | credentialMalformed (connection : String)
  | unsupportedCredentialClass (connection : String)
  | credentialBaseMismatch (connection : String)
  | dialectMismatch (connection : String)
  | dialectUnserved (connection : String) (dialect : Dialect)
  | unpinnedModel (connection : String)
  | regionMismatch (connection : String)
  | endpointRequired (connection : String)
  | transport (connection : String) (cause : TransportCause)
  | providerFailed (connection : String)
  | unknownTerminal (connection : String)
  | streamViolation (connection : String)
  | incompatibleOutput (connection : String)
  | unsupportedParameter (connection : String)
  | unsendableRequest (connection : String)
  | reasoningProvenance (connection : String)
  | retried (wireRetries : ℕ) (source : ProviderError)
deriving DecidableEq

namespace ProviderError

/-- The retries that a failed send crossed, and its own class. -/
def settle : ProviderError → ℕ × ProviderError
  | .retried wireRetries source => (wireRetries, source)
  | error => (0, error)

/-- The failure of a send, marked where a retry crossed the wire. -/
def marked (error : ProviderError) : ProviderError :=
  if 0 < error.settle.1 then .retried error.settle.1 error.settle.2 else error.settle.2

end ProviderError

/-- An entered send that ended so may still have applied. -/
def providerOutcomeUnknown : ProviderError → Bool
  | .retried .. => true
  | .transport _ cause =>
    match cause.class with
    | .deadlineExpired | .timeout | .readFailure => true
    | .httpStatus code =>
      500 ≤ code || (300 ≤ code && code < 400) || code = 408 || code = 425
    | .requestFailure =>
      match cause with
      | .request _ builder connect => !(builder || connect)
      | _ => true
  | .providerFailed _ | .unknownTerminal _ | .streamViolation _ | .incompatibleOutput _
  | .reasoningProvenance _ => true
  | .unknownConnection _ | .liveGrantRequired _ | .storeUnavailable | .storeAmbiguous
  | .credentialUnresolved _ | .localProfileDeclared _ | .credentialProfileMismatch _
  | .credentialOutsideNamespace | .credentialOccupied | .credentialAbsent
  | .credentialMalformed _ | .credentialBaseMismatch _ | .dialectMismatch _
  | .dialectUnserved .. | .unpinnedModel _ | .regionMismatch _ | .endpointRequired _
  | .unsupportedCredentialClass _ | .unsupportedParameter _ | .unsendableRequest _ => false

structure ToolCall where
  tool : String
  path : Option String
deriving DecidableEq

structure ProviderReply where
  text : String
  toolCalls : List ToolCall
  usage : UsageDelta
  wireRetries : ℕ
deriving DecidableEq

/-! ## The manifest -/

inductive EpochMutationReason where
  | systemChange
  | toolsChange
  | modelSwitch
deriving DecidableEq

def EpochMutationReason.asStr : EpochMutationReason → String
  | .systemChange => "system change"
  | .toolsChange => "tools change"
  | .modelSwitch => "model switch"

structure EpochCost where
  reason : EpochMutationReason
  replacedPart : String
  expectedRewriteBytes : ℕ
deriving DecidableEq

inductive InputOrigin where
  | human
  | tool
deriving DecidableEq

structure RequestManifest where
  attemptId : String
  purpose : String
  world : String
  model : ModelAssign
  effort : EffortAssign
  instructions : String
  tools : List String
  outputReserve : ℕ
  inputs : String
  inputsDigest : String
  epochId : String
  mutationReason : Option String
  epochCost : Option EpochCost
  inputOrigin : InputOrigin
  costBound : ℕ
deriving DecidableEq

def OUTPUT_RESERVE_BYTES : ℕ := 16 * 1024

def MODEL_WIRE_MAX_BYTES : ℕ := 1024 * 1024

def BUDGET_UNIT_INPUT_BYTES : ℕ := 4096

def modelWireId : ModelAssign → String
  | .inherit => "inherit"
  | .auto none => "auto"
  | .auto (some names) => "auto:" ++ "+".intercalate names
  | .fixed model => "fixed:" ++ model.connection ++ "/" ++ model.modelId

def wireComposition (instructions : String) (model : ModelAssign) (tools : List String)
    (outputReserve : ℕ) (inputs : String) : String :=
  instructions ++ "\nmodel: " ++ modelWireId model ++ "\ntools: " ++ ", ".intercalate tools ++
    "\noutput-reserve: " ++ toString outputReserve ++ "\n\n" ++ inputs

def sentCostBound (inputs : String) : ℕ :=
  1 + (inputs.utf8ByteSize + BUDGET_UNIT_INPUT_BYTES - 1) / BUDGET_UNIT_INPUT_BYTES

/-- The manifest as it crosses: an auto assignment narrows to the connection it is routed to. -/
def RequestManifest.narrowed (manifest : RequestManifest) (connection : String) :
    RequestManifest :=
  match manifest.model with
  | .auto _ => { manifest with model := .auto (some [connection]) }
  | _ => manifest

/-! ## Refusals -/

inductive LedgerError where
  | store (source : StoreError)
  | budgetExhausted (scope : String)
deriving DecidableEq

inductive RejectionCause where
  | unknownConnection
  | liveGrantRequired (kind : ConnKind)
  | notEntitled
  | notPurposeEligible
  | notOffered
  | dialectMismatch
  | dialectUnserved (dialect : Dialect)
  | sendFailed (source : ProviderError)
  | blindRetryRefused
deriving DecidableEq

structure CandidateRejection where
  connection : String
  cause : RejectionCause
deriving DecidableEq

inductive ModelError where
  | config (source : ConfigError)
  | provider (source : ProviderError)
  | instructions (detail : String)
  | requestTooLarge (limit actual : ℕ)
  | worldMismatch (frozen current : String)
  | noEligibleCandidate (purpose : String) (rejected : List CandidateRejection)
  | eligibilityStale (attemptId connection : String) (frozen current : ℕ)
  | noAdmission (attemptId : String)
  | admissionMismatch (attemptId : String)
  | attemptAlreadyAccounted (attemptId : String)
  | attemptCancelled (attemptId : String)
  | budgetExhausted (scope : String)
  | ledger (source : LedgerError)
  | manualFallbackPending (attemptId purpose : String)
  | noPendingChoice (attemptId : String)
  | manualChoiceRejected (attemptId connection : String) (cause : RejectionCause)
  | fallbackExhausted (attemptId purpose : String) (rejected : List CandidateRejection)
      (attempted : List String) (source : ProviderError)
deriving DecidableEq

/-- A budget refusal keeps its own class, however the ledger carries it. -/
def ledgerRefusal : LedgerError → ModelError
  | .budgetExhausted scope => .budgetExhausted scope
  | .store (.conflict (.budgetExhausted scope _ _ _ _)) => .budgetExhausted scope
  | other => .ledger other

inductive SendFailure where
  | provider (source : ProviderError)
  | ledger (source : LedgerError)
deriving DecidableEq

end Rivect.Broker
