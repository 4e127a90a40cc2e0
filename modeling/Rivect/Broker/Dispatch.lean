import Mathlib.Data.Finset.Dedup
import Rivect.Broker.Requests

/-! # The broker

`Broker` of `src/model.rs`: it admits manifests, sends each at most once between the two calls of a
ledger, and answers a failed send by the fallback that was frozen with it. What surrounds a call is
a parameter of it: the fresh attempt ids, the adapter and what ledger and provider answer to each
attempt.
-/

namespace Rivect.Broker

open Config

structure EpochState where
  prefixDigest : String
  modelDigest : String
  instructionsDigest : String
  toolsDigest : String
deriving DecidableEq

/-- The rights of the account, if any surface narrowed them, and the version of that snapshot. -/
structure Entitlements where
  version : ℕ
  rights : Option (Finset String)

def Entitlements.allows (entitlements : Entitlements) (connection : String) : Bool :=
  match entitlements.rights with
  | none => true
  | some rights => connection ∈ rights

structure AdmissionRecord where
  purpose : String
  connection : String
  modelId : Option String
  modelSource : String
  rankingBasis : Option String
  snapshotVersion : ℕ
  manifest : RequestManifest
  fallback : FallbackAssign
  fallbackSource : String

structure AccountingRecord where
  attemptId : String
  purpose : String
  connection : String
  costBound : ℕ
  usage : UsageDelta
deriving DecidableEq

structure PendingFallback where
  attemptId : String
  purpose : String
  candidates : List String
  unknownOutcome : Bool
deriving DecidableEq

structure ProfileBinding where
  connection : String
  profile : Option String
deriving DecidableEq

/-- The part of a config that the candidate re-check reads, each table in the order of its keys. -/
structure ConfigView where
  connections : List (String × Connection)
  profiles : List (String × Profile)
  purposes : List (String × PurposeDef)

structure ResolvedPurpose where
  model : ModelAssign
  modelSource : String
  effort : EffortAssign
  effortSource : String
  fallback : FallbackAssign
  fallbackSource : String

structure RankingChoice where
  connection : String
  modelId : Option String
  effort : Option EffortLevel
  basis : Option String

/-- What a prepare brings: its wire parts and the ranking that its config and its facts decide. -/
structure PrepareRequest where
  purpose : String
  world : String
  inputs : String
  origin : InputOrigin
  instructions : Except ModelError String
  tools : List String
  view : ConfigView
  ranked : Except ModelError (ResolvedPurpose × RankingChoice)

/-- What becomes of one attempt at the send boundary. -/
inductive SendAnswer where
  | refused (error : LedgerError)
  | failed (error : ProviderError) (finished : Except LedgerError Unit)
  | replied (reply : ProviderReply) (finished : Except LedgerError Unit)

/-- What surrounds one call. -/
structure Surroundings where
  ids : ℕ → String
  serves : String → Connection → Bool
  resolves : List (String × Connection) → List (String × Profile) → String → Bool
  answer : String → SendAnswer

/-- A manifest that was handed to the provider. -/
structure Sent where
  manifest : RequestManifest
  context : SendContext
  answer : SendAnswer

end Broker

structure Broker where
  epochs : String → Option Broker.EpochState
  entitlements : Broker.Entitlements
  admissions : String → Option Broker.AdmissionRecord
  accounting : String → Option Broker.AccountingRecord
  view : Broker.ConfigView
  cancelled : List String
  pending : String → Option Broker.PendingFallback
  paused : String → Option (List String)
  boundProfile : Option Broker.ProfileBinding

namespace Broker

open Lib Config Function

def new : Broker :=
  ⟨fun _ => none, ⟨0, none⟩, fun _ => none, fun _ => none, ⟨[], [], []⟩, [], fun _ => none,
    fun _ => none, none⟩

/-! ## The candidate re-check -/

def offlineUsable (env : Surroundings) (view : ConfigView) (connection : String) : Bool :=
  match view.connections.lookup connection with
  | none => false
  | some entry =>
    match entry.kind with
    | .local => true
    | .apiKey => env.resolves view.connections view.profiles connection
    | .subscription => false

def purposeEntitled (purpose : Option PurposeDef) (connection : String) : Bool :=
  match purpose.bind PurposeDef.eligible with
  | none => true
  | some eligible => connection ∈ eligible

def entitlementRejection (entitlements : Entitlements) (purpose : Option PurposeDef)
    (connection : String) : Option RejectionCause :=
  if entitlements.allows connection = false then some .notEntitled
  else if purposeEntitled purpose connection = false then some .notPurposeEligible
  else none

/-- Why a candidate may not be sent to now. -/
def candidateRejection (broker : Broker) (env : Surroundings) (purpose connection : String) :
    Option RejectionCause :=
  match broker.view.connections.lookup connection with
  | none => some .unknownConnection
  | some entry =>
    if offlineUsable env broker.view connection = false then some (.liveGrantRequired entry.kind)
    else if env.serves connection entry = false then
      some ((dialectFor connection).elim .dialectMismatch .dialectUnserved)
    else entitlementRejection broker.entitlements (broker.view.purposes.lookup purpose) connection

def eligibleCandidates (broker : Broker) (env : Surroundings) (purpose : String) : List String :=
  (broker.view.connections.map Prod.fst).filter fun name =>
    (broker.candidateRejection env purpose name).isNone

/-! ## Context epochs -/

def changedPart (previous current : EpochState) : Option EpochMutationReason :=
  if previous.instructionsDigest ≠ current.instructionsDigest then some .systemChange
  else if previous.modelDigest ≠ current.modelDigest then some .modelSwitch
  else if previous.toolsDigest ≠ current.toolsDigest then some .toolsChange
  else none

def epochCost (reason : EpochMutationReason) (instructions : String) (model : ModelAssign)
    (tools : List String) : EpochCost :=
  let instructionsLine := instructions.utf8ByteSize + 1
  let modelLine := ("model: " ++ modelWireId model ++ "\n").utf8ByteSize
  let toolsLine := ("tools: " ++ ", ".intercalate tools ++ "\n").utf8ByteSize
  let reserve := ("output-reserve: " ++ toString OUTPUT_RESERVE_BYTES).utf8ByteSize
  match reason with
  | .systemChange =>
    ⟨reason, "instructions", instructionsLine + modelLine + toolsLine + reserve⟩
  | .modelSwitch => ⟨reason, "model", modelLine + toolsLine + reserve⟩
  | .toolsChange => ⟨reason, "tools", toolsLine + reserve⟩

/-- The epoch of a prefix under a digest, and what opening it costs. -/
def contextEpoch (broker : Broker) (digest : String → String) (purpose : String)
    (model : ModelAssign) (instructions : String) (tools : List String) :
    Broker × String × Option EpochCost :=
  let tail := ", ".intercalate tools
  let prefixDigest := digest ("purpose:" ++ purpose ++ "\nmodel:" ++ modelWireId model ++
    "\ninstructions:" ++ instructions ++ "\ntools:" ++ tail)
  let parts : EpochState :=
    ⟨prefixDigest, digest (modelWireId model), digest instructions, digest tail⟩
  let cost :=
    match broker.epochs purpose with
    | none => none
    | some previous =>
      if previous.prefixDigest = prefixDigest then none
      else (changedPart previous parts).map fun reason => epochCost reason instructions model tools
  ({ broker with epochs := update broker.epochs purpose (some parts) },
    "epoch-" ++ String.ofList (prefixDigest.toList.take 16), cost)

/-! ## Preparing -/

def freezeManifest (broker : Broker) (digest : String → String) (attemptId : String)
    (request : PrepareRequest) (instructions : String) (resolved : ResolvedPurpose)
    (choice : RankingChoice) : Except ModelError (Broker × RequestManifest) := do
  let model := (choice.modelId.map fun modelId =>
    ModelAssign.fixed ⟨choice.connection, modelId⟩).getD resolved.model
  let effort := (choice.effort.map EffortAssign.fixed).getD resolved.effort
  let accounted := (wireComposition instructions model request.tools OUTPUT_RESERVE_BYTES
    request.inputs).utf8ByteSize + OUTPUT_RESERVE_BYTES
  require (accounted ≤ MODEL_WIRE_MAX_BYTES) (.requestTooLarge MODEL_WIRE_MAX_BYTES accounted)
  let (opened, epochId, cost) :=
    broker.contextEpoch digest request.purpose model instructions request.tools
  let manifest : RequestManifest :=
    { attemptId := attemptId
      purpose := request.purpose
      world := request.world
      model := model
      effort := effort
      instructions := instructions
      tools := request.tools
      outputReserve := OUTPUT_RESERVE_BYTES
      inputs := request.inputs
      inputsDigest := digest request.inputs
      epochId := epochId
      mutationReason := cost.map fun cost => cost.reason.asStr
      epochCost := cost
      inputOrigin := request.origin
      costBound := sentCostBound request.inputs }
  let admission : AdmissionRecord :=
    ⟨request.purpose, choice.connection, choice.modelId, resolved.modelSource, choice.basis,
      broker.entitlements.version, manifest, resolved.fallback, resolved.fallbackSource⟩
  .ok ({ opened with
    view := request.view
    admissions := update broker.admissions attemptId (some admission)
    boundProfile := some ⟨choice.connection,
      (request.view.connections.lookup choice.connection).bind Connection.profile⟩ }, manifest)

/-- A prepare that is refused leaves the broker as it was. -/
def prepare (broker : Broker) (digest : String → String) (env : Surroundings)
    (request : PrepareRequest) : Broker × Except ModelError RequestManifest :=
  match (do
      let instructions ← request.instructions
      let ranked ← request.ranked
      broker.freezeManifest digest (env.ids 0) request instructions ranked.1 ranked.2) with
  | .ok (prepared, manifest) => (prepared, .ok manifest)
  | .error refusal => (broker, .error refusal)

/-! ## Sending -/

def clearAttempt (broker : Broker) (attemptId : String) : Broker :=
  { broker with
    admissions := update broker.admissions attemptId none
    pending := update broker.pending attemptId none
    paused := update broker.paused attemptId none }

structure SendDone where
  broker : Broker
  sent : List Sent
  answer : Except SendFailure ProviderReply

/-- One send: the checks before it, the ledger around it and the accounting after it. -/
def completeSend (broker : Broker) (env : Surroundings) (manifest : RequestManifest)
    (connection : String) (parentAttemptId : Option String) : SendDone :=
  match broker.view.connections.lookup connection with
  | none => ⟨broker, [], .error (.provider (.unknownConnection connection))⟩
  | some entry =>
    if env.serves connection entry = false then
      ⟨broker, [], .error (.provider ((dialectFor connection).elim (.dialectMismatch connection)
        (.dialectUnserved connection)))⟩
    else
      let manifest := manifest.narrowed connection
      let context : SendContext :=
        ⟨manifest.purpose, connection, parentAttemptId,
          (broker.admissions manifest.attemptId).bind AdmissionRecord.rankingBasis⟩
      match env.answer manifest.attemptId with
      | .refused error => ⟨broker, [], .error (.ledger error)⟩
      | .failed error finished =>
        let sent := [⟨manifest, context, .failed error finished⟩]
        match finished with
        | .error refusal => ⟨broker, sent, .error (.ledger refusal)⟩
        | .ok _ => ⟨broker, sent, .error (.provider error.marked)⟩
      | .replied reply finished =>
        let sent := [⟨manifest, context, .replied reply finished⟩]
        match finished with
        | .error refusal => ⟨broker, sent, .error (.ledger refusal)⟩
        | .ok _ =>
          let accounted := { broker with
            accounting := update broker.accounting manifest.attemptId
              (some ⟨manifest.attemptId, manifest.purpose, connection, manifest.costBound,
                reply.usage⟩) }
          ⟨accounted.clearAttempt manifest.attemptId, sent, .ok reply⟩

/-! ## Substitutes -/

/-- A substitute's manifest, the broker that admits it and the epoch that it displaced. -/
def mintSubstitute (broker : Broker) (digest : String → String) (attemptId : String)
    (admission : AdmissionRecord) (model : ModelAssign) (connection leg : String) :
    Broker × RequestManifest × Option EpochState :=
  let displaced := broker.epochs admission.purpose
  let (opened, epochId, cost) := broker.contextEpoch digest admission.purpose model
    admission.manifest.instructions admission.manifest.tools
  let modelId := match model with
    | .fixed fixed => some fixed.modelId
    | _ => none
  let substitute : RequestManifest := { admission.manifest with
    attemptId := attemptId
    model := model
    epochId := epochId
    mutationReason := cost.map fun cost => cost.reason.asStr
    epochCost := cost }
  let minted : AdmissionRecord :=
    ⟨admission.purpose, connection, modelId, admission.fallbackSource ++ "." ++ leg, none,
      broker.entitlements.version, substitute, .off, admission.fallbackSource⟩
  ({ opened with admissions := update broker.admissions attemptId (some minted) }, substitute,
    displaced)

/-- The minted attempt leaves, and the epoch that it displaced is back. -/
def abandonSubstitute (broker : Broker) (attemptId purpose : String)
    (displaced : Option EpochState) : Broker :=
  { broker with
    admissions := update broker.admissions attemptId none
    epochs := update broker.epochs purpose displaced }

structure Done where
  broker : Broker
  sent : List Sent
  answer : Except ModelError ProviderReply

/-- What was sent before joins what a later part of the call does. -/
def Done.after (done : Done) (sent : List Sent) : Done := { done with sent := sent ++ done.sent }

/-- The walk of an auto chain. -/
def walkChain (digest : String → String) (env : Surroundings) (attemptId : String)
    (admission : AdmissionRecord) (source : ProviderError) :
    List FixedModel → ℕ → Broker → List CandidateRejection → List String → Done
  | [], _, broker, rejected, attempted =>
    ⟨broker, [],
      .error (.fallbackExhausted attemptId admission.purpose rejected attempted source)⟩
  | entry :: rest, minted, broker, rejected, attempted =>
    if (admission.connection :: attempted).any (blindRetryRefused · entry.connection) then
      walkChain digest env attemptId admission source rest minted broker
        (rejected ++ [⟨entry.connection, .blindRetryRefused⟩]) attempted
    else
      match broker.candidateRejection env admission.purpose entry.connection with
      | some cause =>
        walkChain digest env attemptId admission source rest minted broker
          (rejected ++ [⟨entry.connection, cause⟩]) attempted
      | none =>
        let (admitted, substitute, displaced) := broker.mintSubstitute digest (env.ids minted)
          admission (.fixed entry) entry.connection "fallback"
        let tried := admitted.completeSend env substitute entry.connection (some attemptId)
        match tried.answer with
        | .ok reply =>
          ⟨{ tried.broker with admissions := update tried.broker.admissions attemptId none },
            tried.sent, .ok reply⟩
        | .error (.ledger refusal) =>
          ⟨tried.broker.abandonSubstitute substitute.attemptId admission.purpose displaced,
            tried.sent, .error (ledgerRefusal refusal)⟩
        | .error (.provider failure) =>
          let abandoned :=
            tried.broker.abandonSubstitute substitute.attemptId admission.purpose displaced
          if providerOutcomeUnknown failure then
            ⟨abandoned, tried.sent, .error (.provider failure.settle.2)⟩
          else
            (walkChain digest env attemptId admission source rest (minted + 1) abandoned
              (rejected ++ [⟨entry.connection, .sendFailed failure⟩])
              (attempted ++ [entry.connection])).after tried.sent

/-- The candidates that a manual pause may offer. -/
def offered (broker : Broker) (env : Surroundings) (admission : AdmissionRecord) : List String :=
  (broker.eligibleCandidates env admission.purpose).filter fun name =>
    name ≠ admission.connection && !blindRetryRefused admission.connection name

/-- Why each other connection is not among them. -/
def unoffered (broker : Broker) (env : Surroundings) (admission : AdmissionRecord) :
    List CandidateRejection :=
  ((broker.view.connections.map Prod.fst).filter (· ≠ admission.connection)).filterMap fun name =>
    if blindRetryRefused admission.connection name then some ⟨name, .blindRetryRefused⟩
    else (broker.candidateRejection env admission.purpose name).map fun cause => ⟨name, cause⟩

def fallbackOrFail (broker : Broker) (digest : String → String) (env : Surroundings)
    (attemptId : String) (admission : AdmissionRecord) (source : ProviderError) : Done :=
  match admission.fallback with
  | .off => ⟨broker, [], .error (.provider source.settle.2)⟩
  | .manual =>
    let candidates := broker.offered env admission
    if candidates = [] then
      ⟨broker, [], .error (.fallbackExhausted attemptId admission.purpose
        (broker.unoffered env admission) [] source.settle.2)⟩
    else
      ⟨{ broker with
          paused := update broker.paused attemptId (some candidates)
          pending := update broker.pending attemptId
            (some ⟨attemptId, admission.purpose, candidates, providerOutcomeUnknown source⟩) },
        [], .error (.manualFallbackPending attemptId admission.purpose)⟩
  | .auto chain =>
    if providerOutcomeUnknown source then ⟨broker, [], .error (.provider source.settle.2)⟩
    else walkChain digest env attemptId admission source chain 0 broker [] []

/-! ## The calls -/

/-- The checks of a dispatch before its send, and the admission that passes them. -/
def authorise (broker : Broker) (world : String) (manifest : RequestManifest) :
    Except ModelError AdmissionRecord := do
  require (manifest.world = world) (.worldMismatch manifest.world world)
  require ((broker.accounting manifest.attemptId).isNone)
    (.attemptAlreadyAccounted manifest.attemptId)
  require (manifest.attemptId ∉ broker.cancelled) (.attemptCancelled manifest.attemptId)
  let admission ← found (broker.admissions manifest.attemptId) (.noAdmission manifest.attemptId)
  require (admission.manifest = manifest) (.admissionMismatch manifest.attemptId)
  require (broker.entitlements.version = admission.snapshotVersion ∧
      broker.entitlements.allows admission.connection = true)
    (.eligibilityStale manifest.attemptId admission.connection admission.snapshotVersion
      broker.entitlements.version)
  .ok admission

def dispatch (broker : Broker) (digest : String → String) (env : Surroundings) (world : String)
    (manifest : RequestManifest) : Done :=
  match broker.authorise world manifest with
  | .error refusal => ⟨broker, [], .error refusal⟩
  | .ok admission =>
    let done := broker.completeSend env manifest admission.connection none
    match done.answer with
    | .ok reply => ⟨done.broker, done.sent, .ok reply⟩
    | .error (.ledger refusal) => ⟨done.broker, done.sent, .error (ledgerRefusal refusal)⟩
    | .error (.provider source) =>
      (done.broker.fallbackOrFail digest env manifest.attemptId admission source).after done.sent

/-- The checks of a human pick, and the admission that passes them. -/
def authoriseChoice (broker : Broker) (env : Surroundings) (world attemptId connection : String) :
    Except ModelError AdmissionRecord := do
  let admission ← found (broker.admissions attemptId)
    (if attemptId ∈ broker.cancelled then .attemptCancelled attemptId
      else if (broker.accounting attemptId).isSome then .attemptAlreadyAccounted attemptId
      else .noAdmission attemptId)
  let served ← found (broker.paused attemptId) (.noPendingChoice attemptId)
  require (admission.manifest.world = world) (.worldMismatch admission.manifest.world world)
  require (blindRetryRefused admission.connection connection = false)
    (.manualChoiceRejected attemptId connection .blindRetryRefused)
  require (connection ∈ served) (.manualChoiceRejected attemptId connection .notOffered)
  match broker.candidateRejection env admission.purpose connection with
  | some cause => .error (.manualChoiceRejected attemptId connection cause)
  | none => .ok admission

/-- A fixed pin keeps its model id on the picked connection. -/
def pickedModel (manifest : RequestManifest) (connection : String) : ModelAssign :=
  match manifest.model with
  | .fixed fixed => .fixed ⟨connection, fixed.modelId⟩
  | _ => .auto (some [connection])

def dispatchFallbackChoice (broker : Broker) (digest : String → String) (env : Surroundings)
    (world attemptId connection : String) : Done :=
  match broker.authoriseChoice env world attemptId connection with
  | .error refusal => ⟨broker, [], .error refusal⟩
  | .ok admission =>
    let (admitted, substitute, displaced) := broker.mintSubstitute digest (env.ids 0) admission
      (pickedModel admission.manifest connection) connection "manual"
    let tried := admitted.completeSend env substitute connection (some attemptId)
    match tried.answer with
    | .ok reply => ⟨tried.broker.clearAttempt attemptId, tried.sent, .ok reply⟩
    | .error (.ledger refusal) =>
      ⟨tried.broker.abandonSubstitute substitute.attemptId admission.purpose displaced, tried.sent,
        .error (ledgerRefusal refusal)⟩
    | .error (.provider failure) =>
      ⟨tried.broker.abandonSubstitute substitute.attemptId admission.purpose displaced, tried.sent,
        .error (.provider failure.settle.2)⟩

/-- A spent or unknown attempt is not cancelled. -/
def cancelAttempt (broker : Broker) (attemptId : String) : Broker × Bool :=
  if (broker.accounting attemptId).isSome then (broker, false)
  else if (broker.admissions attemptId).isNone then (broker, false)
  else
    ({ broker.clearAttempt attemptId with cancelled := attemptId :: broker.cancelled }, true)

def takePendingChoice (broker : Broker) (attemptId : String) : Broker × Option PendingFallback :=
  ({ broker with pending := update broker.pending attemptId none }, broker.pending attemptId)

def setConfig (broker : Broker) (view : ConfigView) : Broker := { broker with view := view }

def setAccountRights (broker : Broker) (rights : List String) : Broker :=
  if broker.entitlements.rights = some rights.toFinset then broker
  else { broker with entitlements := ⟨broker.entitlements.version + 1, some rights.toFinset⟩ }

/-- The calls on one broker. -/
inductive BrokerCall where
  | prepare (request : PrepareRequest)
  | dispatch (world : String) (manifest : RequestManifest)
  | choose (world attemptId connection : String)
  | cancel (attemptId : String)
  | take (attemptId : String)
  | setConfig (view : ConfigView)
  | setRights (rights : List String)

/-- What a call leaves, and what it handed to the provider. -/
def perform (digest : String → String) (broker : Broker) (env : Surroundings) :
    BrokerCall → Broker × List Sent
  | .prepare request => ((broker.prepare digest env request).1, [])
  | .dispatch world manifest =>
    let done := broker.dispatch digest env world manifest
    (done.broker, done.sent)
  | .choose world attemptId connection =>
    let done := broker.dispatchFallbackChoice digest env world attemptId connection
    (done.broker, done.sent)
  | .cancel attemptId => ((broker.cancelAttempt attemptId).1, [])
  | .take attemptId => ((broker.takePendingChoice attemptId).1, [])
  | .setConfig view => (broker.setConfig view, [])
  | .setRights rights => (broker.setAccountRights rights, [])

end Broker

end Rivect
