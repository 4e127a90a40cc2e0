import Rivect.Broker.Accounting

/-! # What a manifest is on the wire

The text that a manifest composes to, its size, and what a prepare freezes of it.
-/

namespace Rivect.Broker

open Lib Config Function

namespace RequestManifest

def wireBytes (manifest : RequestManifest) : String :=
  wireComposition manifest.instructions manifest.model manifest.tools manifest.outputReserve
    manifest.inputs

/-- What the size gate of a prepare accounts. -/
def accounted (manifest : RequestManifest) : ℕ :=
  manifest.wireBytes.utf8ByteSize + OUTPUT_RESERVE_BYTES

def Fits (manifest : RequestManifest) : Prop := manifest.accounted ≤ MODEL_WIRE_MAX_BYTES

/-- The bytes that the gate left. -/
def room (manifest : RequestManifest) : ℕ := MODEL_WIRE_MAX_BYTES - manifest.accounted

theorem size_wireBytes (manifest : RequestManifest) :
    manifest.wireBytes.utf8ByteSize =
      manifest.instructions.utf8ByteSize + "\nmodel: ".utf8ByteSize +
        (modelWireId manifest.model).utf8ByteSize + "\ntools: ".utf8ByteSize +
        (", ".intercalate manifest.tools).utf8ByteSize + "\noutput-reserve: ".utf8ByteSize +
        (toString manifest.outputReserve).utf8ByteSize + "\n\n".utf8ByteSize +
        manifest.inputs.utf8ByteSize := by
  unfold wireBytes wireComposition
  simp only [String.utf8ByteSize_append]

end RequestManifest

theorem SameTask.accounted {manifest other : RequestManifest} (h : SameTask manifest other) :
    manifest.accounted + (modelWireId other.model).utf8ByteSize =
      other.accounted + (modelWireId manifest.model).utf8ByteSize := by
  unfold RequestManifest.accounted
  rw [manifest.size_wireBytes, other.size_wireBytes, h.instructions, h.tools, h.outputReserve,
    h.inputs]
  omega

/-- A manifest that fits still fits under another model exactly where the model's name has room. -/
theorem SameTask.fits_iff {manifest other : RequestManifest} (h : SameTask manifest other)
    (hfits : other.Fits) :
    manifest.Fits ↔ (modelWireId manifest.model).utf8ByteSize ≤
      (modelWireId other.model).utf8ByteSize + other.room := by
  have haccounted := h.accounted
  unfold RequestManifest.Fits at hfits ⊢
  unfold RequestManifest.room
  omega

/-- An auto assignment, narrowed to the connection it is routed to. -/
def narrowedModel (model : ModelAssign) (connection : String) : ModelAssign :=
  match model with
  | .auto _ => .auto (some [connection])
  | _ => model

theorem narrowed_model (manifest : RequestManifest) (connection : String) :
    (manifest.narrowed connection).model = narrowedModel manifest.model connection := by
  unfold RequestManifest.narrowed narrowedModel
  cases h : manifest.model <;> simp [h]

theorem SameTask.refl (manifest : RequestManifest) : SameTask manifest manifest :=
  ⟨rfl, rfl, rfl, rfl, rfl, rfl, rfl, rfl, rfl, rfl⟩

/-! ## What a prepare freezes -/

/-- A prepare that is accepted. -/
structure Freezes (broker after : Broker) (digest : String → String) (request : PrepareRequest)
    (attemptId : String) (admission : AdmissionRecord) : Prop where
  fits : admission.manifest.Fits
  reserve : admission.manifest.outputReserve = OUTPUT_RESERVE_BYTES
  purpose : admission.manifest.purpose = request.purpose
  title : admission.purpose = request.purpose
  id : admission.manifest.attemptId = attemptId
  admissions : after.admissions = update broker.admissions attemptId (some admission)
  epochs : after.epochs = (broker.contextEpoch digest request.purpose admission.manifest.model
    admission.manifest.instructions admission.manifest.tools).1.epochs
  epochId : admission.manifest.epochId = (broker.contextEpoch digest request.purpose
    admission.manifest.model admission.manifest.instructions admission.manifest.tools).2.1
  epochCost : admission.manifest.epochCost = (broker.contextEpoch digest request.purpose
    admission.manifest.model admission.manifest.instructions admission.manifest.tools).2.2
  mutation : admission.manifest.mutationReason =
    admission.manifest.epochCost.map fun cost => cost.reason.asStr

theorem freezeManifest_freezes {broker prepared : Broker} {digest : String → String}
    {attemptId : String} {request : PrepareRequest} {instructions : String}
    {resolved : ResolvedPurpose} {choice : RankingChoice} {manifest : RequestManifest}
    (h : broker.freezeManifest digest attemptId request instructions resolved choice =
      .ok (prepared, manifest)) :
    ∃ admission, admission.manifest = manifest ∧
      Freezes broker prepared digest request attemptId admission := by
  unfold freezeManifest at h
  extract_lets model effort accounted at h
  obtain ⟨_, hfits, h⟩ := bind_eq_ok h
  have hfits := require_eq_ok hfits
  generalize hopened : broker.contextEpoch digest request.purpose model instructions request.tools
    = opened at h
  obtain ⟨opened, epochId, cost⟩ := opened
  dsimp only at h
  cases h
  refine ⟨⟨request.purpose, choice.connection, choice.modelId, resolved.modelSource, choice.basis,
    broker.entitlements.version, _, resolved.fallback, resolved.fallbackSource⟩, rfl, ?_⟩
  refine { admissions := rfl, fits := ?_, reserve := rfl, purpose := rfl, title := rfl, id := rfl,
           epochs := ?_, epochId := ?_, epochCost := ?_, mutation := rfl }
  · exact hfits
  · exact hopened ▸ rfl
  · exact hopened ▸ rfl
  · exact hopened ▸ rfl

theorem prepare_of_freeze {broker prepared : Broker} {digest : String → String}
    {env : Surroundings} {request : PrepareRequest} {instructions : String}
    {ranked : ResolvedPurpose × RankingChoice} {manifest : RequestManifest}
    (hinstructions : request.instructions = .ok instructions)
    (hranked : request.ranked = .ok ranked)
    (hfreeze : broker.freezeManifest digest (env.ids 0) request instructions ranked.1 ranked.2 =
      .ok (prepared, manifest)) :
    broker.prepare digest env request = (prepared, .ok manifest) := by
  unfold Broker.prepare
  rw [hinstructions, ok_bind, hranked, ok_bind, hfreeze]

theorem prepare_freezes (broker : Broker) (digest : String → String) (env : Surroundings)
    (request : PrepareRequest) :
    (broker.prepare digest env request).1 = broker ∧
        (∃ refusal, (broker.prepare digest env request).2 = .error refusal) ∨
      ∃ admission, (broker.prepare digest env request).2 = .ok admission.manifest ∧
        Freezes broker (broker.prepare digest env request).1 digest request (env.ids 0)
          admission := by
  unfold Broker.prepare
  split
  · rename_i prepared manifest hprepared
    obtain ⟨instructions, -, hprepared⟩ := bind_eq_ok hprepared
    obtain ⟨ranked, -, hprepared⟩ := bind_eq_ok hprepared
    obtain ⟨admission, rfl, hfreezes⟩ := freezeManifest_freezes hprepared
    exact .inr ⟨admission, rfl, hfreezes⟩
  · exact .inl ⟨rfl, _, rfl⟩

/-! ## What the tables hold -/

/-- The admission that a call leaves was there before it, or is the one of its prepare. -/
theorem admissions_of_perform {digest : String → String} {env : Surroundings} {broker : Broker}
    {admission : AdmissionRecord} {call : BrokerCall} (hids : Injective env.ids)
    (hfree : ∀ n, broker.Free (env.ids n)) {id : String}
    (hafter : (broker.perform digest env call).1.admissions id = some admission) :
    broker.admissions id = some admission ∨ ∃ request after,
      Freezes broker after digest request id admission := by
  have hcleared : ∀ {attemptId : String},
      update broker.admissions attemptId none id = some admission →
      broker.admissions id = some admission := by
    intro attemptId hsome
    by_cases hsame : id = attemptId
    · rw [hsame, update_self] at hsome
      cases hsome
    · rwa [update_of_ne hsame] at hsome
  have hsent : ∀ {attemptId : String} {admitted : AdmissionRecord} {done : Done},
      Sends digest broker env attemptId admitted done → done.broker.admissions id = some admission →
      broker.admissions id = some admission := by
    intro attemptId admitted done hsends hsome
    rcases hsends.concludes with ⟨-, -, hsame⟩ | ⟨-, _, _, -, -, -, hspends⟩
    · rwa [hsame.admissions] at hsome
    · rw [hspends.admissions] at hsome
      exact hcleared hsome
  cases call with
  | prepare request =>
    change (broker.prepare digest env request).1.admissions id = _ at hafter
    rcases prepare_freezes broker digest env request with ⟨hsame, -⟩ | ⟨frozen, -, hfreezes⟩
    · rw [hsame] at hafter
      exact .inl hafter
    · rw [hfreezes.admissions] at hafter
      by_cases hsame : id = env.ids 0
      · rw [hsame, update_self] at hafter
        obtain rfl := Option.some.inj hafter
        exact .inr ⟨request, _, hsame ▸ hfreezes⟩
      · rw [update_of_ne hsame] at hafter
        exact .inl hafter
  | dispatch world manifest =>
    change (broker.dispatch digest env world manifest).broker.admissions id = _ at hafter
    cases hok : broker.authorise world manifest with
    | error refusal =>
      unfold dispatch at hafter
      rw [hok] at hafter
      exact .inl hafter
    | ok admitted =>
      refine .inl (hsent (sends_dispatch hok hids hfree fun n hsame => ?_) hafter)
      have hnone := (hfree n).admissions
      rw [hsame, (authorise_ok hok).admitted] at hnone
      cases hnone
  | choose world attemptId connection =>
    change (broker.dispatchFallbackChoice digest env world attemptId
      connection).broker.admissions id = _ at hafter
    cases hok : broker.authoriseChoice env world attemptId connection with
    | error refusal =>
      unfold dispatchFallbackChoice at hafter
      rw [hok] at hafter
      exact .inl hafter
    | ok admitted => exact .inl (hsent (sends_dispatchFallbackChoice hok hids hfree) hafter)
  | cancel attemptId =>
    change (broker.cancelAttempt attemptId).1.admissions id = _ at hafter
    unfold cancelAttempt at hafter
    split at hafter
    · exact .inl hafter
    split at hafter
    · exact .inl hafter
    · exact .inl (hcleared hafter)
  | take => exact .inl hafter
  | setConfig => exact .inl hafter
  | setRights rights =>
    change (broker.setAccountRights rights).admissions id = _ at hafter
    unfold setAccountRights at hafter
    split at hafter <;> exact .inl hafter

end Rivect.Broker
