import Rivect.Broker.WireBound

/-! # Context epochs and the wire prefix

A prepare replays an epoch where a digest of one text stands, and the provider replays what it
cached where the bytes of another stand. Both texts join the same parts without escaping them, so
an epoch is exact where the two agree on the manifests compared.
-/

namespace Rivect.Broker

open Lib Config Function List Option

/-! ## Where two lists part -/

section Rewritten

variable {α : Type*} [DecidableEq α]

/-- What the second list holds from its first difference to the first on. -/
def rewritten : List α → List α → List α
  | a :: as, b :: bs => if a = b then rewritten as bs else b :: bs
  | _, bs => bs

theorem rewritten_append (common as bs : List α) :
    rewritten (common ++ as) (common ++ bs) = rewritten as bs := by
  induction common with
  | nil => rfl
  | cons a common ih =>
    rw [cons_append, cons_append, rewritten, if_pos rfl, ih]

theorem length_rewritten_le (as bs : List α) : (rewritten as bs).length ≤ bs.length := by
  induction as, bs using rewritten.induct with
  | case1 as b bs ih =>
    rw [rewritten, if_pos rfl]
    exact ih.trans (Nat.le_succ _)
  | case2 a as b bs hne => rw [rewritten, if_neg hne]
  | case3 as bs hcons =>
    cases as with
    | nil => exact le_rfl
    | cons a as =>
      cases bs with
      | nil => exact le_rfl
      | cons b bs => exact absurd rfl (hcons a as b bs rfl)

end Rewritten

def bytesOf (text : String) : List UInt8 := text.toByteArray.data.toList

theorem bytesOf_append (s t : String) : bytesOf (s ++ t) = bytesOf s ++ bytesOf t := by
  unfold bytesOf
  rw [String.toByteArray_append, ByteArray.data_append, Array.toList_append]

theorem length_bytesOf (text : String) : (bytesOf text).length = text.utf8ByteSize := rfl

/-! ## The two texts -/

namespace RequestManifest

def toolsText (manifest : RequestManifest) : String := ", ".intercalate manifest.tools

/-- The text that the epoch digests. -/
def epochText (manifest : RequestManifest) : String :=
  "purpose:" ++ manifest.purpose ++ "\nmodel:" ++ modelWireId manifest.model ++
    "\ninstructions:" ++ manifest.instructions ++ "\ntools:" ++ manifest.toolsText

def modelLine (manifest : RequestManifest) : String :=
  "model: " ++ modelWireId manifest.model ++ "\n"

def toolsLine (manifest : RequestManifest) : String := "tools: " ++ manifest.toolsText ++ "\n"

/-- The lines of the wire text ahead of the output reserve. -/
def wirePrefix (manifest : RequestManifest) : String :=
  manifest.instructions ++ "\n" ++ manifest.modelLine ++ manifest.toolsLine

theorem bytesOf_wirePrefix (manifest : RequestManifest) :
    bytesOf manifest.wirePrefix = bytesOf (manifest.instructions ++ "\n") ++
      (bytesOf manifest.modelLine ++ bytesOf manifest.toolsLine) := by
  unfold wirePrefix
  rw [bytesOf_append, bytesOf_append _ manifest.modelLine, append_assoc]

/-- What the broker records of the epoch of a manifest. -/
def epochState (digest : String → String) (manifest : RequestManifest) : EpochState :=
  ⟨digest manifest.epochText, digest (modelWireId manifest.model), digest manifest.instructions,
    digest manifest.toolsText⟩

def epochOf (digest : String → String) (manifest : RequestManifest) : String :=
  "epoch-" ++ String.ofList ((digest manifest.epochText).toList.take 16)

end RequestManifest

/-! ## Exact replay -/

/-- The earliest part in wire order that two manifests differ in. -/
def earliestChange (previous manifest : RequestManifest) : Option EpochMutationReason :=
  if previous.instructions ≠ manifest.instructions then some .systemChange
  else if modelWireId previous.model ≠ modelWireId manifest.model then some .modelSwitch
  else if previous.toolsText ≠ manifest.toolsText then some .toolsChange
  else none

/-- What a prepared manifest says of its predecessor is what the wire says. -/
structure Exact (previous manifest : RequestManifest) : Prop where
  replays : manifest.mutationReason = none ∧ manifest.epochId = previous.epochId ↔
    manifest.wirePrefix = previous.wirePrefix
  mutates : manifest.wirePrefix ≠ previous.wirePrefix → ∃ cost,
    earliestChange previous manifest = some cost.reason ∧
      manifest.mutationReason = some cost.reason.asStr ∧ manifest.epochCost = some cost ∧
      (rewritten (bytesOf previous.wirePrefix) (bytesOf manifest.wirePrefix)).length ≤
        cost.expectedRewriteBytes

/-- No two texts that a comparison digests collide, nor the first digits of two epoch texts. -/
structure CollisionFree (digest : String → String) (previous manifest : RequestManifest) :
    Prop where
  text : digest previous.epochText = digest manifest.epochText →
    previous.epochText = manifest.epochText
  digits : (digest previous.epochText).toList.take 16 =
    (digest manifest.epochText).toList.take 16 → previous.epochText = manifest.epochText
  model : digest (modelWireId previous.model) = digest (modelWireId manifest.model) →
    modelWireId previous.model = modelWireId manifest.model
  instructions : digest previous.instructions = digest manifest.instructions →
    previous.instructions = manifest.instructions
  tools : digest previous.toolsText = digest manifest.toolsText →
    previous.toolsText = manifest.toolsText

variable {digest : String → String} {previous manifest : RequestManifest}

theorem changedPart_epochState (h : CollisionFree digest previous manifest) :
    changedPart (previous.epochState digest) (manifest.epochState digest) =
      earliestChange previous manifest := by
  have hinstructions : digest previous.instructions = digest manifest.instructions ↔
      previous.instructions = manifest.instructions := ⟨h.instructions, congrArg digest⟩
  have hmodel : digest (modelWireId previous.model) = digest (modelWireId manifest.model) ↔
      modelWireId previous.model = modelWireId manifest.model := ⟨h.model, congrArg digest⟩
  have htools : digest previous.toolsText = digest manifest.toolsText ↔
      previous.toolsText = manifest.toolsText := ⟨h.tools, congrArg digest⟩
  unfold changedPart earliestChange RequestManifest.epochState
  simp only [ne_eq, hinstructions, hmodel, htools]

theorem epochText_of_unchanged (hpurpose : manifest.purpose = previous.purpose)
    (h : earliestChange previous manifest = none) :
    manifest.epochText = previous.epochText := by
  unfold earliestChange at h
  split at h
  · cases h
  rename_i hinstructions
  split at h
  · cases h
  rename_i hmodel
  split at h
  · cases h
  rename_i htools
  unfold RequestManifest.epochText
  rw [hpurpose, ← not_not.mp hinstructions, ← not_not.mp hmodel, ← not_not.mp htools]

/-- The recorded cost covers what the wire rewrites from the first change on. -/
theorem rewritten_le_cost {reason : EpochMutationReason}
    (h : earliestChange previous manifest = some reason) :
    (rewritten (bytesOf previous.wirePrefix) (bytesOf manifest.wirePrefix)).length ≤
      (epochCost reason manifest.instructions manifest.model
        manifest.tools).expectedRewriteBytes := by
  have hmodelLine : manifest.modelLine.utf8ByteSize =
      ("model: " ++ modelWireId manifest.model ++ "\n").utf8ByteSize := rfl
  have htoolsLine : manifest.toolsLine.utf8ByteSize =
      ("tools: " ++ ", ".intercalate manifest.tools ++ "\n").utf8ByteSize := rfl
  have hinstructionsLine : (manifest.instructions ++ "\n").utf8ByteSize =
      manifest.instructions.utf8ByteSize + 1 := String.utf8ByteSize_append
  rw [previous.bytesOf_wirePrefix, manifest.bytesOf_wirePrefix]
  unfold earliestChange at h
  split at h
  · cases h
    refine (length_rewritten_le _ _).trans ?_
    simp only [length_append, length_bytesOf]
    dsimp only [epochCost]
    omega
  rename_i hinstructions
  rw [not_not.mp hinstructions, rewritten_append]
  split at h
  · cases h
    refine (length_rewritten_le _ _).trans ?_
    simp only [length_append, length_bytesOf]
    dsimp only [epochCost]
    omega
  rename_i hmodel
  have hline : previous.modelLine = manifest.modelLine := by
    unfold RequestManifest.modelLine
    rw [not_not.mp hmodel]
  rw [hline, rewritten_append]
  split at h
  · cases h
    refine (length_rewritten_le _ _).trans ?_
    rw [length_bytesOf]
    dsimp only [epochCost]
    omega
  · cases h

/-! ## One prepare -/

/-- What a prepare says beside the record of its predecessor. -/
structure Follows (digest : String → String) (previous manifest : RequestManifest) : Prop where
  purpose : manifest.purpose = previous.purpose
  replaced : previous.epochId = previous.epochOf digest
  epochId : manifest.epochId = manifest.epochOf digest
  epochCost : manifest.epochCost =
    if (previous.epochState digest).prefixDigest = (manifest.epochState digest).prefixDigest
    then none
    else (changedPart (previous.epochState digest) (manifest.epochState digest)).map fun reason =>
      Broker.epochCost reason manifest.instructions manifest.model manifest.tools
  mutation : manifest.mutationReason = manifest.epochCost.map fun cost => cost.reason.asStr

theorem epochId_eq_iff (h : Follows digest previous manifest)
    (hfree : CollisionFree digest previous manifest) :
    manifest.epochId = previous.epochId ↔ manifest.epochText = previous.epochText := by
  rw [h.epochId, h.replaced]
  constructor
  · intro hsame
    unfold RequestManifest.epochOf at hsame
    have hlist := congrArg String.toList hsame
    simp only [String.toList_append, String.toList_ofList, append_cancel_left_eq] at hlist
    exact (hfree.digits hlist.symm).symm
  · intro hsame
    unfold RequestManifest.epochOf
    rw [hsame]

theorem exact_iff_agree (h : Follows digest previous manifest)
    (hfree : CollisionFree digest previous manifest) :
    Exact previous manifest ↔
      (manifest.epochText = previous.epochText ↔ manifest.wirePrefix = previous.wirePrefix) := by
  have hid := epochId_eq_iff h hfree
  have hcost := h.epochCost
  rw [changedPart_epochState hfree] at hcost
  by_cases htext : manifest.epochText = previous.epochText
  · have hdigest : (previous.epochState digest).prefixDigest =
        (manifest.epochState digest).prefixDigest := congrArg digest htext.symm
    rw [if_pos hdigest] at hcost
    have hsilent : manifest.mutationReason = none := by
      rw [h.mutation, hcost]
      rfl
    constructor
    · rintro ⟨hreplays, -⟩
      exact iff_of_true htext (hreplays.mp ⟨hsilent, hid.mpr htext⟩)
    · intro hagree
      have hwire := hagree.mp htext
      exact ⟨iff_of_true ⟨hsilent, hid.mpr htext⟩ hwire, fun hne => absurd hwire hne⟩
  · have hdigest : (previous.epochState digest).prefixDigest ≠
        (manifest.epochState digest).prefixDigest := fun hsame => htext (hfree.text hsame).symm
    rw [if_neg hdigest] at hcost
    cases hchange : earliestChange previous manifest with
    | none => exact absurd (epochText_of_unchanged h.purpose hchange) htext
    | some reason =>
      rw [hchange] at hcost
      have hreason : (Broker.epochCost reason manifest.instructions manifest.model
          manifest.tools).reason = reason := by cases reason <;> rfl
      have hmutation : manifest.mutationReason = some reason.asStr := by
        rw [h.mutation, hcost, map_some, map_some, hreason]
      constructor
      · rintro ⟨hreplays, -⟩
        refine iff_of_false htext fun hwire => ?_
        exact htext (hid.mp (hreplays.mpr hwire).2)
      · intro hagree
        have hwire : manifest.wirePrefix ≠ previous.wirePrefix := fun hsame =>
          htext (hagree.mpr hsame)
        refine ⟨iff_of_false (fun hsilent => ?_) hwire, fun _ => ⟨_, ?_, ?_, hcost, ?_⟩⟩
        · cases hmutation.symm.trans hsilent.1
        · rw [hreason, hchange]
        · rw [hreason, hmutation]
        · exact rewritten_le_cost hchange

/-! ## What moves an epoch -/

theorem contextEpoch_epochState (broker : Broker) (manifest : RequestManifest) :
    broker.contextEpoch digest manifest.purpose manifest.model manifest.instructions
        manifest.tools =
      ({ broker with
          epochs := update broker.epochs manifest.purpose (some (manifest.epochState digest)) },
        manifest.epochOf digest,
        (broker.contextEpoch digest manifest.purpose manifest.model manifest.instructions
          manifest.tools).2.2) := rfl

/-- The provider replied to it and the ledger closed it. -/
def Sent.settled (e : Sent) : Bool :=
  match e.answer with
  | .replied _ (.ok _) => true
  | _ => false

theorem Sent.settled_iff (e : Sent) : e.settled = true ↔ e.Settled := by
  unfold Sent.settled Sent.Settled
  split
  · rename_i reply _ hanswer
    exact iff_of_true rfl ⟨reply, hanswer⟩
  · rename_i hother
    refine iff_of_false nofun ?_
    rintro ⟨reply, hanswer⟩
    exact hother reply () hanswer

/-- The manifest of the substitute that settled, if one of the sends is that. -/
def substituted (sent : List Sent) : Option RequestManifest :=
  (sent.find? fun e => e.parent.isSome && e.settled).map Sent.manifest

/-- What the sends for one purpose made of its epoch. -/
inductive Moves (digest : String → String) (epochs : String → Option EpochState)
    (purpose : String) (sent : List Sent) (after : String → Option EpochState) : Prop
  | keeps (hnone : substituted sent = none) (hepochs : after = epochs)
  | opens {manifest : RequestManifest} (hsome : substituted sent = some manifest)
      (hpurpose : manifest.purpose = purpose) (hid : manifest.epochId = manifest.epochOf digest)
      (hepochs : after = update epochs purpose (some (manifest.epochState digest)))

theorem substituted_append {sent rest : List Sent} (h : substituted sent = none) :
    substituted (sent ++ rest) = substituted rest := by
  unfold substituted at h ⊢
  rw [find?_append, map_eq_none_iff.mp h, none_or]

theorem substituted_of_open {sent : List Sent} (h : ∀ e ∈ sent, ¬ e.Settled) :
    substituted sent = none := by
  unfold substituted
  rw [map_eq_none_iff, find?_eq_none]
  intro e he hsettled
  exact h e he (e.settled_iff.mp (Bool.and_eq_true_iff.mp hsettled).2)

theorem substituted_of_own {sent : List Sent} (h : ∀ e ∈ sent, e.parent = none) :
    substituted sent = none := by
  unfold substituted
  rw [map_eq_none_iff, find?_eq_none]
  intro e he hsettled
  rw [h e he] at hsettled
  cases hsettled

variable {env : Surroundings} {broker : Broker} {attemptId : String}
  {admission : AdmissionRecord}

theorem completeSend_epochs (broker : Broker) (env : Surroundings) (manifest : RequestManifest)
    (connection : String) (parent : Option String) :
    (broker.completeSend env manifest connection parent).broker.epochs = broker.epochs ∧
      (∀ failure, (broker.completeSend env manifest connection parent).answer = .error failure →
        ∀ e ∈ (broker.completeSend env manifest connection parent).sent, ¬ e.Settled) ∧
      ∀ reply, (broker.completeSend env manifest connection parent).answer = .ok reply →
        ∃ e, (broker.completeSend env manifest connection parent).sent = [e] ∧ e.Settled ∧
          e.manifest = manifest.narrowed connection ∧ e.parent = parent := by
  have htries := tries_completeSend broker env manifest connection parent
  generalize broker.completeSend env manifest connection parent = tried at htries ⊢
  cases htries with
  | unserved => exact ⟨rfl, fun _ _ _ he => absurd he not_mem_nil, nofun⟩
  | refused => exact ⟨rfl, fun _ _ _ he => absurd he not_mem_nil, nofun⟩
  | failed sent failure _ _ _ _ _ _ hopen =>
    refine ⟨rfl, fun _ _ e he => ?_, nofun⟩
    rwa [mem_singleton.mp he]
  | settled sent record reply _ hmanifest _ hparent _ hsettled =>
    exact ⟨rfl, nofun, fun _ _ => ⟨sent, rfl, hsettled, hmanifest, hparent⟩⟩

theorem substituted_singleton {e : Sent} (hsettled : e.Settled)
    (hparent : e.parent = some attemptId) : substituted [e] = some e.manifest := by
  unfold substituted
  rw [find?_cons_of_pos (by rw [hparent, e.settled_iff.mpr hsettled]; rfl)]
  rfl

section Minting

variable {id connection leg : String} {model : ModelAssign}

theorem narrowed_of_model {manifest : RequestManifest}
    (h : narrowedModel manifest.model connection = manifest.model) :
    manifest.narrowed connection = manifest := by
  unfold RequestManifest.narrowed
  unfold narrowedModel at h
  split
  · rename_i pool hmodel
    rw [hmodel] at h
    dsimp only at h
    rw [h, ← hmodel]
  · rfl

/-- What a mint says of epochs. -/
structure Mints (digest : String → String) (broker : Broker) (purpose : String)
    (model : ModelAssign) (admitted : Broker) (substitute : RequestManifest)
    (displaced : Option EpochState) : Prop where
  epochs : admitted.epochs = update broker.epochs purpose (some (substitute.epochState digest))
  epochId : substitute.epochId = substitute.epochOf digest
  model : substitute.model = model
  displaced : displaced = broker.epochs purpose
  purpose : substitute.purpose = purpose

theorem mints_of_mintSubstitute {admitted : Broker} {substitute : RequestManifest}
    {displaced : Option EpochState} (htitle : admission.manifest.purpose = admission.purpose)
    (hmint : broker.mintSubstitute digest id admission model connection leg =
      (admitted, substitute, displaced)) :
    Mints digest broker admission.purpose model admitted substitute displaced := by
  unfold mintSubstitute at hmint
  rw [← htitle] at hmint ⊢
  cases hmint
  exact ⟨rfl, rfl, rfl, rfl, rfl⟩

variable {purpose : String} {admitted : Broker} {substitute : RequestManifest}
  {displaced : Option EpochState}

theorem Mints.opens (hmints : Mints digest broker purpose model admitted substitute displaced)
    (hmodel : narrowedModel model connection = model) {reply : ProviderReply}
    (hok : (admitted.completeSend env substitute connection (some attemptId)).answer = .ok reply) :
    Moves digest broker.epochs purpose
      (admitted.completeSend env substitute connection (some attemptId)).sent
      (admitted.completeSend env substitute connection (some attemptId)).broker.epochs := by
  obtain ⟨hepochs, -, hreplied⟩ := completeSend_epochs admitted env substitute connection
    (some attemptId)
  obtain ⟨e, hsent, hsettled, hmanifest, hparent⟩ := hreplied reply hok
  rw [narrowed_of_model (by rw [hmints.model, hmodel])] at hmanifest
  refine .opens (hsent ▸ substituted_singleton hsettled hparent) ?_ ?_ ?_
  · rw [hmanifest]
    exact hmints.purpose
  · rw [hmanifest, hmints.epochId]
  · rw [hepochs, hmints.epochs, hmanifest]

theorem Mints.keeps (hmints : Mints digest broker purpose model admitted substitute displaced)
    {failure : SendFailure}
    (hfailed : (admitted.completeSend env substitute connection (some attemptId)).answer =
      .error failure) :
    substituted (admitted.completeSend env substitute connection (some attemptId)).sent = none ∧
      ((admitted.completeSend env substitute connection
        (some attemptId)).broker.abandonSubstitute substitute.attemptId purpose displaced).epochs =
        broker.epochs := by
  obtain ⟨hepochs, hopen, -⟩ := completeSend_epochs admitted env substitute connection
    (some attemptId)
  refine ⟨substituted_of_open (hopen failure hfailed), ?_⟩
  unfold abandonSubstitute
  rw [hepochs, hmints.epochs, hmints.displaced, update_idem, update_eq_self]

end Minting

theorem Moves.after {epochs after : String → Option EpochState} {purpose : String}
    {sent rest : List Sent} (hnone : substituted sent = none)
    (h : Moves digest epochs purpose rest after) :
    Moves digest epochs purpose (sent ++ rest) after := by
  cases h with
  | keeps hrest hepochs => exact .keeps ((substituted_append hnone).trans hrest) hepochs
  | opens hsome hpurpose hid hepochs =>
    exact .opens ((substituted_append hnone).trans hsome) hpurpose hid hepochs

theorem moves_walkChain (source : ProviderError)
    (htitle : admission.manifest.purpose = admission.purpose)
    {epochs : String → Option EpochState} (chain : List FixedModel) (minted : ℕ)
    (broker : Broker) (hepochs : broker.epochs = epochs) (rejected : List CandidateRejection)
    (attempted : List String) :
    Moves digest epochs admission.purpose
      (walkChain digest env attemptId admission source chain minted broker rejected attempted).sent
      (walkChain digest env attemptId admission source chain minted broker rejected
        attempted).broker.epochs := by
  induction chain generalizing minted broker rejected attempted with
  | nil => exact .keeps rfl hepochs
  | cons entry rest ih =>
    unfold walkChain
    split
    · exact ih minted broker hepochs _ _
    split
    · exact ih minted broker hepochs _ _
    generalize hmint : broker.mintSubstitute digest (env.ids minted) admission (.fixed entry)
      entry.connection "fallback" = mint
    obtain ⟨admitted, substitute, displaced⟩ := mint
    have hmints := mints_of_mintSubstitute htitle hmint
    dsimp only
    split
    · rename_i reply hok
      rw [← hepochs]
      exact hmints.opens rfl hok
    · rename_i refusal hfailed
      obtain ⟨hnone, hkept⟩ := hmints.keeps hfailed
      exact .keeps hnone (hkept.trans hepochs)
    · rename_i failure hfailed
      obtain ⟨hnone, hkept⟩ := hmints.keeps hfailed
      split
      · exact .keeps hnone (hkept.trans hepochs)
      · exact .after hnone (ih (minted + 1) _ (hkept.trans hepochs) _ _)

theorem moves_fallbackOrFail (source : ProviderError)
    (htitle : admission.manifest.purpose = admission.purpose)
    {epochs : String → Option EpochState} (broker : Broker) (hepochs : broker.epochs = epochs) :
    Moves digest epochs admission.purpose
      (broker.fallbackOrFail digest env attemptId admission source).sent
      (broker.fallbackOrFail digest env attemptId admission source).broker.epochs := by
  unfold fallbackOrFail
  split
  · exact .keeps rfl hepochs
  · dsimp only
    split <;> exact .keeps rfl hepochs
  · split
    · exact .keeps rfl hepochs
    · exact moves_walkChain source htitle _ 0 broker hepochs [] []

theorem moves_dispatch (broker : Broker) (world : String) (manifest : RequestManifest)
    (htitled : ∀ id admission, broker.admissions id = some admission →
      admission.manifest.purpose = admission.purpose) :
    ∃ purpose, Moves digest broker.epochs purpose (broker.dispatch digest env world manifest).sent
      (broker.dispatch digest env world manifest).broker.epochs := by
  unfold dispatch
  cases hok : broker.authorise world manifest with
  | error refusal => exact ⟨manifest.purpose, .keeps rfl rfl⟩
  | ok admission =>
    have htitle := htitled _ _ (authorise_ok hok).admitted
    obtain ⟨hepochs, -, -⟩ := completeSend_epochs broker env manifest admission.connection none
    have hown : substituted (broker.completeSend env manifest admission.connection none).sent =
        none := substituted_of_own fun e he => (completeSend_wire he).2
    refine ⟨admission.purpose, ?_⟩
    dsimp only
    split
    · exact .keeps hown hepochs
    · exact .keeps hown hepochs
    · exact .after hown (moves_fallbackOrFail _ htitle _ hepochs)

theorem moves_choice (broker : Broker) (world attemptId connection : String)
    (htitled : ∀ id admission, broker.admissions id = some admission →
      admission.manifest.purpose = admission.purpose) :
    ∃ purpose, Moves digest broker.epochs purpose
      (broker.dispatchFallbackChoice digest env world attemptId connection).sent
      (broker.dispatchFallbackChoice digest env world attemptId connection).broker.epochs := by
  unfold dispatchFallbackChoice
  cases hok : broker.authoriseChoice env world attemptId connection with
  | error refusal => exact ⟨attemptId, .keeps rfl rfl⟩
  | ok admission =>
    have htitle := htitled _ _ (authoriseChoice_ok hok).admitted
    refine ⟨admission.purpose, ?_⟩
    dsimp only
    generalize hmint : broker.mintSubstitute digest (env.ids 0) admission
      (pickedModel admission.manifest connection) connection "manual" = mint
    obtain ⟨admitted, substitute, displaced⟩ := mint
    have hmints := mints_of_mintSubstitute htitle hmint
    split
    · rename_i reply hreplied
      exact hmints.opens (narrowed_pickedModel _ _) hreplied
    · rename_i refusal hfailed
      obtain ⟨hnone, hkept⟩ := hmints.keeps hfailed
      exact .keeps hnone hkept
    · rename_i failure hfailed
      obtain ⟨hnone, hkept⟩ := hmints.keeps hfailed
      exact .keeps hnone hkept

/-! ## Histories -/

/-- The manifest that a call leaves as its purpose's last: the one prepared, or the substitute that
was sent. -/
def marked (digest : String → String) (broker : Broker) (env : Surroundings) :
    BrokerCall → Option RequestManifest
  | .prepare request => (broker.prepare digest env request).2.toOption
  | call => substituted (broker.perform digest env call).2

/-- A run of the broker beside the last manifest of each purpose. -/
structure History where
  trace : Trace
  last : String → Option RequestManifest

namespace History

def start : History := ⟨Trace.start, fun _ => none⟩

def record (last : String → Option RequestManifest) :
    Option RequestManifest → String → Option RequestManifest
  | some manifest => update last manifest.purpose (some manifest)
  | none => last

def next (digest : String → String) (h : History) (env : Surroundings) (call : BrokerCall) :
    History :=
  ⟨h.trace.next digest env call, record h.last (marked digest h.trace.broker env call)⟩

def Step (digest : String → String) (h : History) (call : Surroundings × BrokerCall)
    (h' : History) : Prop :=
  h.trace.Lawful call.1 ∧ h' = h.next digest call.1 call.2

/-- The broker's epochs are those of the last manifests. -/
structure Recorded (digest : String → String) (h : History) : Prop where
  titled : ∀ id admission, h.trace.broker.admissions id = some admission →
    admission.manifest.purpose = admission.purpose
  epochs : ∀ purpose, h.trace.broker.epochs purpose =
    (h.last purpose).map (RequestManifest.epochState digest)
  last : ∀ purpose manifest, h.last purpose = some manifest →
    manifest.purpose = purpose ∧ manifest.epochId = manifest.epochOf digest

variable {h : History}

theorem Recorded.marks {epochs after : String → Option EpochState}
    {last : String → Option RequestManifest}
    (hepochs : ∀ purpose, epochs purpose = (last purpose).map (RequestManifest.epochState digest))
    (hafter : after = update epochs manifest.purpose (some (manifest.epochState digest)))
    (purpose : String) :
    after purpose =
      (update last manifest.purpose (some manifest) purpose).map
        (RequestManifest.epochState digest) := by
  rw [hafter]
  by_cases hsame : purpose = manifest.purpose
  · rw [hsame, update_self, update_self]
    rfl
  · rw [update_of_ne hsame, update_of_ne hsame, hepochs]

theorem last_record {last : String → Option RequestManifest} {mark : Option RequestManifest}
    (hlast : ∀ purpose manifest, last purpose = some manifest →
      manifest.purpose = purpose ∧ manifest.epochId = manifest.epochOf digest)
    (hmark : ∀ manifest, mark = some manifest → manifest.epochId = manifest.epochOf digest)
    (purpose : String) (manifest : RequestManifest)
    (hsome : record last mark purpose = some manifest) :
    manifest.purpose = purpose ∧ manifest.epochId = manifest.epochOf digest := by
  cases mark with
  | none => exact hlast purpose manifest hsome
  | some other =>
    change update last other.purpose (some other) purpose = some manifest at hsome
    by_cases hsame : purpose = other.purpose
    · rw [hsame, update_self] at hsome
      obtain rfl := some.inj hsome
      exact ⟨hsame.symm, hmark other rfl⟩
    · rw [update_of_ne hsame] at hsome
      exact hlast purpose manifest hsome

theorem unmarked (manifest : RequestManifest)
    (hsome : (none : Option RequestManifest) = some manifest) :
    manifest.epochId = manifest.epochOf digest := by
  cases hsome

theorem marks_of_moves {epochs after : String → Option EpochState} {purpose : String}
    {sent : List Sent} {last : String → Option RequestManifest}
    (hmoves : Moves digest epochs purpose sent after)
    (hepochs : ∀ purpose, epochs purpose = (last purpose).map (RequestManifest.epochState digest)) :
    (∀ purpose, after purpose =
        (record last (substituted sent) purpose).map (RequestManifest.epochState digest)) ∧
      ∀ manifest, substituted sent = some manifest →
        manifest.epochId = manifest.epochOf digest := by
  cases hmoves with
  | keeps hnone hkept =>
    rw [hnone, hkept]
    exact ⟨hepochs, unmarked⟩
  | @opens manifest hsome hpurpose hid hopened =>
    rw [hsome]
    refine ⟨Recorded.marks hepochs (hpurpose ▸ hopened), fun other hother => ?_⟩
    obtain rfl := some.inj hother
    exact hid

theorem marks_of_call (hrecorded : h.Recorded digest) (call : BrokerCall) :
    (∀ purpose, (h.trace.broker.perform digest env call).1.epochs purpose =
        (record h.last (marked digest h.trace.broker env call) purpose).map
          (RequestManifest.epochState digest)) ∧
      ∀ manifest, marked digest h.trace.broker env call = some manifest →
        manifest.epochId = manifest.epochOf digest := by
  cases call with
  | prepare request =>
    change (∀ purpose, (h.trace.broker.prepare digest env request).1.epochs purpose =
        (record h.last (h.trace.broker.prepare digest env request).2.toOption purpose).map _) ∧
      ∀ manifest, (h.trace.broker.prepare digest env request).2.toOption = some manifest → _
    rcases prepare_freezes h.trace.broker digest env request with
      ⟨hsame, refusal, hrefused⟩ | ⟨admission, hok, hfreezes⟩
    · rw [hsame, hrefused]
      exact ⟨hrecorded.epochs, unmarked⟩
    · rw [hok]
      have hepochs := hfreezes.epochs
      have hid := hfreezes.epochId
      rw [← hfreezes.purpose, contextEpoch_epochState] at hepochs hid
      refine ⟨Recorded.marks hrecorded.epochs hepochs, fun manifest hsome => ?_⟩
      obtain rfl := some.inj hsome
      exact hid
  | dispatch world manifest =>
    obtain ⟨_, hmoves⟩ := moves_dispatch h.trace.broker world manifest hrecorded.titled
    exact marks_of_moves hmoves hrecorded.epochs
  | choose world attemptId connection =>
    obtain ⟨_, hmoves⟩ := moves_choice h.trace.broker world attemptId connection hrecorded.titled
    exact marks_of_moves hmoves hrecorded.epochs
  | cancel attemptId =>
    refine ⟨fun purpose => ?_, unmarked⟩
    change (h.trace.broker.cancelAttempt attemptId).1.epochs purpose = _
    unfold cancelAttempt
    split
    · exact hrecorded.epochs purpose
    split <;> exact hrecorded.epochs purpose
  | take => exact ⟨hrecorded.epochs, unmarked⟩
  | setConfig => exact ⟨hrecorded.epochs, unmarked⟩
  | setRights rights =>
    refine ⟨fun purpose => ?_, unmarked⟩
    change (h.trace.broker.setAccountRights rights).epochs purpose = _
    unfold setAccountRights
    split <;> exact hrecorded.epochs purpose

theorem recorded_start : start.Recorded digest where
  titled _ _ h := by cases h
  epochs _ := rfl
  last _ _ h := by cases h

theorem recorded_of_run {calls : List (Surroundings × BrokerCall)}
    (hrun : Run (Step digest) start calls h) : h.Recorded digest := by
  refine hrun.invariant (fun h call h' hrecorded hstep => ?_) recorded_start
  obtain ⟨hlaw, rfl⟩ := hstep
  obtain ⟨hepochs, hmark⟩ := marks_of_call hrecorded call.2
  refine ⟨fun id admission hadmitted => ?_, hepochs, last_record hrecorded.last hmark⟩
  rcases admissions_of_perform hlaw.ids hlaw.free hadmitted with hold | ⟨_, _, hfreezes⟩
  · exact hrecorded.titled id admission hold
  · rw [hfreezes.purpose, hfreezes.title]

/-! ## Exactness over histories -/

theorem follows_of_prepare (hrecorded : h.Recorded digest) {request : PrepareRequest}
    (hok : (h.trace.broker.prepare digest env request).2 = .ok manifest)
    (hlast : h.last request.purpose = some previous) : Follows digest previous manifest := by
  rcases prepare_freezes h.trace.broker digest env request with
    ⟨-, refusal, hrefused⟩ | ⟨admission, hfrozen, hfreezes⟩
  · cases hrefused.symm.trans hok
  obtain rfl := Except.ok.inj (hfrozen.symm.trans hok)
  obtain ⟨hpurpose, hreplaced⟩ := hrecorded.last _ _ hlast
  have hid := hfreezes.epochId
  have hcost := hfreezes.epochCost
  have hprevious : h.trace.broker.epochs admission.manifest.purpose =
      some (previous.epochState digest) := by
    rw [hfreezes.purpose, hrecorded.epochs, hlast]
    rfl
  rw [← hfreezes.purpose, contextEpoch_epochState] at hid
  rw [← hfreezes.purpose] at hcost
  refine ⟨hfreezes.purpose.trans hpurpose.symm, hreplaced, hid, ?_, hfreezes.mutation⟩
  rw [hcost]
  unfold contextEpoch
  rw [hprevious]
  rfl

/-- In every reachable history a prepare is exact of the last manifest of its purpose exactly where
the text that is digested changed just when the wire prefix did. -/
theorem exact_iff {calls : List (Surroundings × BrokerCall)}
    (hrun : Run (Step digest) start calls h) {request : PrepareRequest}
    (hok : (h.trace.broker.prepare digest env request).2 = .ok manifest)
    (hlast : h.last request.purpose = some previous)
    (hfree : CollisionFree digest previous manifest) :
    Exact previous manifest ↔
      (manifest.epochText = previous.epochText ↔ manifest.wirePrefix = previous.wirePrefix) :=
  exact_iff_agree (follows_of_prepare (recorded_of_run hrun) hok hlast) hfree

/-! ## Two histories -/

/-- The SHA-256 of the texts that the prepares below digest. -/
def sha256 (text : String) : String :=
  (List.lookup text [
    ("", "e3b0c44298fc1c149afbf4c8996fb92427ae41e4649b934ca495991b7852b855"),
    ("fixed:local/model", "bc0b3735a1aead2d910e50456bd89529a5c06252faaf44a88833588ccbf99433"),
    ("a\ntools:b", "c40a39cd3776604e57a64c8b238c88c33ced3f556b19fcb5af9f034e6c2dd591"),
    ("a", "ca978112ca1bbdcafac231b39a23dc4da786eff8147c4e72b9807785afee48bb"),
    ("c", "2e7d2c03a9507ae265ecf5b5356885a53393a2029d241394997265a1a25aefc6"),
    ("b\ntools:c", "da68f46ba768997032a305655f3539cc1fc691769aaf1ceb6c218d96360aac3e"),
    ("purpose:plan\nmodel:fixed:local/model\ninstructions:a\ntools:b\ntools:c",
      "5059c089dd80add47a30982944096d9e7af1ae80631fe92e0eb77f4e491b6baa"),
    ("be brief", "b0d336336bae9756708102764ccc977778d8c408df38d7050d69f9e4d22c9a43"),
    ("read_file", "c9f8123bd2726fc2414267256101446c45647b4754b1bad58feaf205125b4c96"),
    ("read_file, search", "f44e79572201175910754f67a366b197c79e9fc99b342eaf231d91b23693744c"),
    ("purpose:plan\nmodel:fixed:local/model\ninstructions:be brief\ntools:read_file",
      "38be7478a514ef48a91dda3dd7468c23d71d5b579e20833458be579b71d62bb3"),
    ("purpose:plan\nmodel:fixed:local/model\ninstructions:be brief\ntools:read_file, search",
      "51f995e50e2dada8e2791229249b8c84059f2e13e0f64506ae1d39f127637f95")]).getD ""

def asked (instructions : String) (tools : List String) : PrepareRequest :=
  ⟨"plan", "world", "", .human, .ok instructions, tools, Trace.localView,
    .ok (⟨.fixed ⟨"local", "model"⟩, "", .auto, "", .off, ""⟩, ⟨"local", none, none, none⟩)⟩

def prepared (request : PrepareRequest) : History :=
  start.next sha256 (Trace.lettered 'a' Trace.replied) (.prepare request)

theorem run_prepared (request : PrepareRequest) :
    Run (Step sha256) start [(Trace.lettered 'a' Trace.replied, .prepare request)]
      (prepared request) :=
  .single ⟨Trace.lawful_start 'a' Trace.replied, rfl⟩

/-- What a prepare of these histories freezes. -/
def asking (attemptId instructions : String) (tools : List String) (epochId : String)
    (cost : Option EpochCost) : RequestManifest :=
  ⟨attemptId, "plan", "world", .fixed ⟨"local", "model"⟩, .auto, instructions, tools,
    OUTPUT_RESERVE_BYTES, "", sha256 "", epochId, cost.map fun cost => cost.reason.asStr, cost,
    .human, 1⟩

theorem exact_iff_search : Exact (asking "a" "be brief" ["read_file"] "epoch-38be7478a514ef48" none)
    (asking "b" "be brief" ["read_file", "search"] "epoch-51f995e50e2dada8"
      (some ⟨.toolsChange, "tools", 46⟩)) := by
  have hok : ((prepared (asked "be brief" ["read_file"])).trace.broker.prepare sha256
      (Trace.lettered 'b' Trace.replied) (asked "be brief" ["read_file", "search"])).2 =
      .ok (asking "b" "be brief" ["read_file", "search"] "epoch-51f995e50e2dada8"
        (some ⟨.toolsChange, "tools", 46⟩)) := by decide +kernel
  have hlast : (prepared (asked "be brief" ["read_file"])).last "plan" =
      some (asking "a" "be brief" ["read_file"] "epoch-38be7478a514ef48" none) := by
    decide +kernel
  refine (exact_iff (run_prepared _) hok hlast ?_).mpr (by decide +kernel)
  exact ⟨by decide +kernel, by decide +kernel, fun _ => rfl, fun _ => rfl, by decide +kernel⟩

/-- Instructions that end in a line of tools digest as fewer instructions with more tools do. -/
theorem unseen_change : ¬ ∀ (digest : String → String) (calls : List (Surroundings × BrokerCall))
    (h : History) (env : Surroundings) (request : PrepareRequest)
    (previous manifest : RequestManifest), Run (Step digest) start calls h →
    (h.trace.broker.prepare digest env request).2 = .ok manifest →
    h.last request.purpose = some previous → CollisionFree digest previous manifest →
    Exact previous manifest := by
  intro h
  have hok : ((prepared (asked "a\ntools:b" ["c"])).trace.broker.prepare sha256
      (Trace.lettered 'b' Trace.replied) (asked "a" ["b\ntools:c"])).2 =
      .ok (asking "b" "a" ["b\ntools:c"] "epoch-5059c089dd80add4" none) := by decide +kernel
  have hlast : (prepared (asked "a\ntools:b" ["c"])).last "plan" =
      some (asking "a" "a\ntools:b" ["c"] "epoch-5059c089dd80add4" none) := by decide +kernel
  have htext : (asking "a" "a\ntools:b" ["c"] "epoch-5059c089dd80add4" none).epochText =
      (asking "b" "a" ["b\ntools:c"] "epoch-5059c089dd80add4" none).epochText := by decide +kernel
  have hexact := h sha256 _ _ _ _ _ _ (run_prepared (asked "a\ntools:b" ["c"])) hok hlast
    ⟨fun _ => htext, fun _ => htext, fun _ => rfl, by decide +kernel, by decide +kernel⟩
  have hwire := hexact.replays.mp ⟨rfl, rfl⟩
  revert hwire
  decide +kernel

end History

end Rivect.Broker
