import Rivect.Broker.Outcomes
import Rivect.Broker.Wire
import Rivect.Ledger.Resolution

/-! # The accounted bound of what is sent

A prepare accounts the text of the manifest that it freezes. What reaches the provider is that
manifest under the model it was routed to, so it keeps to the bound exactly where the name of that
model has room.
-/

namespace Rivect.Broker

open Lib Config Function List

variable {digest : String → String} {env : Surroundings} {broker : Broker} {attemptId : String}
  {admission : AdmissionRecord}

/-! ## Routes -/

/-- The models of a chain, as its substitutes carry them. -/
def chainModels : FallbackAssign → List ModelAssign
  | .auto chain => chain.map .fixed
  | _ => []

/-- The models that a call may send an attempt under. -/
def AdmissionRecord.routes (admission : AdmissionRecord) : BrokerCall → List ModelAssign
  | .dispatch _ _ =>
    narrowedModel admission.manifest.model admission.connection :: chainModels admission.fallback
  | .choose _ _ connection => [pickedModel admission.manifest connection]
  | _ => []

/-- The attempt that a sending call names. -/
def BrokerCall.attempt : BrokerCall → Option String
  | .dispatch _ manifest => some manifest.attemptId
  | .choose _ attemptId _ => some attemptId
  | _ => none

theorem completeSend_wire {manifest : RequestManifest} {connection : String}
    {parent : Option String} {e : Sent}
    (he : e ∈ (broker.completeSend env manifest connection parent).sent) :
    e.manifest = manifest.narrowed connection ∧ e.parent = parent := by
  have htries := tries_completeSend broker env manifest connection parent
  generalize broker.completeSend env manifest connection parent = tried at htries he
  cases htries with
  | unserved => cases he
  | refused => cases he
  | failed sent failure _ hmanifest _ hparent =>
    rw [mem_singleton.mp he]
    exact ⟨hmanifest, hparent⟩
  | settled sent record reply _ hmanifest _ hparent =>
    rw [mem_singleton.mp he]
    exact ⟨hmanifest, hparent⟩

/-- A substitute's send carries the parts of the attempt under the model it was minted with. -/
theorem mintSubstitute_wire {id connection leg : String} {model : ModelAssign}
    {parent : Option String} {e : Sent}
    (he : e ∈ ((broker.mintSubstitute digest id admission model connection leg).1.completeSend env
      (broker.mintSubstitute digest id admission model connection leg).2.1 connection
        parent).sent) :
    SameTask e.manifest admission.manifest ∧ e.parent = parent ∧
      e.manifest.model = narrowedModel model connection := by
  obtain ⟨hmanifest, hparent⟩ := completeSend_wire he
  have htask : SameTask (broker.mintSubstitute digest id admission model connection leg).2.1
      admission.manifest := ⟨rfl, rfl, rfl, rfl, rfl, rfl, rfl, rfl, rfl, rfl⟩
  refine ⟨?_, hparent, ?_⟩
  · rw [hmanifest]
    exact sameTask_narrowed htask connection
  · rw [hmanifest, narrowed_model]
    rfl

/-- What a send of one attempt hands over. -/
structure Carries (admission : AdmissionRecord) (attemptId : String) (routes : List ModelAssign)
    (e : Sent) : Prop where
  task : SameTask e.manifest admission.manifest
  attempt : e.For attemptId
  route : e.manifest.model ∈ routes

theorem walkChain_carries (source : ProviderError) (chain : List FixedModel) (minted : ℕ)
    (broker : Broker) (rejected : List CandidateRejection) (attempted : List String) :
    ∀ e ∈ (walkChain digest env attemptId admission source chain minted broker rejected
      attempted).sent, Carries admission attemptId (chain.map .fixed) e := by
  induction chain generalizing minted broker rejected attempted with
  | nil => exact fun _ he => absurd he not_mem_nil
  | cons entry rest ih =>
    have hrest : ∀ minted broker rejected attempted,
        ∀ e ∈ (walkChain digest env attemptId admission source rest minted broker rejected
          attempted).sent,
        Carries admission attemptId ((entry :: rest).map .fixed) e := by
      intro minted broker rejected attempted e he
      obtain ⟨htask, hattempt, hroute⟩ := ih minted broker rejected attempted e he
      exact ⟨htask, hattempt, mem_cons_of_mem _ hroute⟩
    intro e he
    unfold walkChain at he
    split at he
    · exact hrest _ _ _ _ e he
    split at he
    · exact hrest _ _ _ _ e he
    have hown : ∀ e ∈ ((broker.mintSubstitute digest (env.ids minted) admission (.fixed entry)
        entry.connection "fallback").1.completeSend env (broker.mintSubstitute digest
          (env.ids minted) admission (.fixed entry) entry.connection "fallback").2.1
          entry.connection (some attemptId)).sent,
        Carries admission attemptId ((entry :: rest).map .fixed) e := by
      intro e he
      obtain ⟨htask, hparent, hmodel⟩ := mintSubstitute_wire he
      exact ⟨htask, .inr hparent, hmodel ▸ mem_cons_self⟩
    dsimp only at he
    split at he
    · exact hown e he
    · exact hown e he
    · split at he
      · exact hown e he
      · rcases mem_append.mp he with he | he
        · exact hown e he
        · exact hrest _ _ _ _ e he

theorem fallbackOrFail_carries {source : ProviderError} {e : Sent}
    (he : e ∈ (broker.fallbackOrFail digest env attemptId admission source).sent) :
    Carries admission attemptId (chainModels admission.fallback) e := by
  unfold fallbackOrFail at he
  split at he
  · cases he
  · dsimp only at he
    split at he <;> cases he
  · rename_i chain hauto
    rw [hauto]
    split at he
    · cases he
    · exact walkChain_carries source chain 0 broker [] [] e he

theorem dispatch_carries {world : String} {manifest : RequestManifest}
    (hok : broker.authorise world manifest = .ok admission) {e : Sent}
    (he : e ∈ (broker.dispatch digest env world manifest).sent) :
    Carries admission manifest.attemptId (admission.routes (.dispatch world manifest)) e := by
  have hauthorised := authorise_ok hok
  have hprimary : ∀ e ∈ (broker.completeSend env manifest admission.connection none).sent,
      Carries admission manifest.attemptId (admission.routes (.dispatch world manifest)) e := by
    intro e he
    obtain ⟨hmanifest, -⟩ := completeSend_wire he
    refine ⟨?_, .inl ?_, ?_⟩
    · rw [hmanifest, hauthorised.manifest]
      exact sameTask_narrowed (.refl manifest) _
    · rw [Sent.attemptId, hmanifest, narrowed_attemptId]
    · rw [hmanifest, narrowed_model, ← hauthorised.manifest]
      exact mem_cons_self
  unfold dispatch at he
  rw [hok] at he
  dsimp only at he
  split at he
  · exact hprimary e he
  · exact hprimary e he
  · rcases mem_append.mp he with he | he
    · exact hprimary e he
    · obtain ⟨htask, hattempt, hroute⟩ := fallbackOrFail_carries he
      exact ⟨htask, hattempt, mem_cons_of_mem _ hroute⟩

theorem narrowed_pickedModel (manifest : RequestManifest) (connection : String) :
    narrowedModel (pickedModel manifest connection) connection =
      pickedModel manifest connection := by
  unfold pickedModel
  split <;> rfl

theorem choice_carries {world connection : String}
    (hok : broker.authoriseChoice env world attemptId connection = .ok admission) {e : Sent}
    (he : e ∈ (broker.dispatchFallbackChoice digest env world attemptId connection).sent) :
    Carries admission attemptId (admission.routes (.choose world attemptId connection)) e := by
  unfold dispatchFallbackChoice at he
  rw [hok] at he
  dsimp only at he
  have hown : ∀ e ∈ ((broker.mintSubstitute digest (env.ids 0) admission
      (pickedModel admission.manifest connection) connection "manual").1.completeSend env
        (broker.mintSubstitute digest (env.ids 0) admission
          (pickedModel admission.manifest connection) connection "manual").2.1 connection
          (some attemptId)).sent,
      Carries admission attemptId (admission.routes (.choose world attemptId connection)) e := by
    intro e he
    obtain ⟨htask, hparent, hmodel⟩ := mintSubstitute_wire he
    rw [narrowed_pickedModel] at hmodel
    exact ⟨htask, .inr hparent, hmodel ▸ mem_cons_self⟩
  split at he <;> exact hown e he

/-- Every send of a call is for one admitted attempt, under a model the call may route it to. -/
theorem perform_carries {call : BrokerCall} {e : Sent}
    (he : e ∈ (broker.perform digest env call).2) :
    ∃ id admission, call.attempt = some id ∧ broker.admissions id = some admission ∧
      Carries admission id (admission.routes call) e := by
  cases call with
  | dispatch world manifest =>
    change e ∈ (broker.dispatch digest env world manifest).sent at he
    cases hok : broker.authorise world manifest with
    | error refusal =>
      unfold dispatch at he
      rw [hok] at he
      cases he
    | ok admission =>
      exact ⟨_, admission, rfl, (authorise_ok hok).admitted, dispatch_carries hok he⟩
  | choose world attemptId connection =>
    change e ∈ (broker.dispatchFallbackChoice digest env world attemptId connection).sent at he
    cases hok : broker.authoriseChoice env world attemptId connection with
    | error refusal =>
      unfold dispatchFallbackChoice at he
      rw [hok] at he
      cases he
    | ok admission =>
      exact ⟨_, admission, rfl, (authoriseChoice_ok hok).admitted, choice_carries hok he⟩
  | prepare => cases he
  | cancel => cases he
  | take => cases he
  | setConfig => cases he
  | setRights => cases he

/-! ## Runs -/

namespace Trace

variable {t : Trace} {calls : List (Surroundings × BrokerCall)}

/-- Every admitted manifest passed the gate. -/
def Fitting (t : Trace) : Prop :=
  ∀ id admission, t.broker.admissions id = some admission → admission.manifest.Fits

theorem fitting_of_run (hrun : Run (Step digest) start calls t) : t.Fitting := by
  refine hrun.invariant (I := Fitting) (fun t call t' h hstep => ?_) ?_
  · obtain ⟨hlaw, rfl⟩ := hstep
    intro id admission hadmitted
    rcases admissions_of_perform hlaw.ids hlaw.free hadmitted with hold | ⟨_, _, hfreezes⟩
    · exact h id admission hold
    · exact hfreezes.fits
  · intro id admission hadmitted
    cases hadmitted

/-- What was accounted bounds the send: its size, its parts and its cost. -/
structure Bounded (t : Trace) (e : Sent) : Prop where
  fits : e.manifest.Fits
  task : ∃ id admission, e.For id ∧ t.broker.admissions id = some admission ∧
    e.manifest.inputs = admission.manifest.inputs ∧
    e.manifest.instructions = admission.manifest.instructions ∧
    e.manifest.tools = admission.manifest.tools ∧
    e.manifest.costBound = admission.manifest.costBound
  reserved : ∀ (ledger after : Ledger) (scopes : List String) (ticket : SendTicket), ledger.Sound →
    ledger.beginSend scopes e.context ⟨e.attemptId, e.manifest.costBound⟩ = .ok (after, ticket) →
    ticket.costBound = e.manifest.costBound ∧ ∀ scope ∈ ledger.openScopes scopes,
      (⟨e.attemptId, scope, e.manifest.costBound, .reserved, none⟩ : BudgetReservation) ∈
        after.reservations

/-- The name of a model has room where that of the frozen one was accounted. -/
def HasRoom (admission : AdmissionRecord) (model : ModelAssign) : Prop :=
  (modelWireId model).utf8ByteSize ≤
    (modelWireId admission.manifest.model).utf8ByteSize + admission.manifest.room

/-- Every model that the call may send an attempt under has room. -/
def Roomy (t : Trace) (call : BrokerCall) : Prop :=
  ∀ id admission, call.attempt = some id → t.broker.admissions id = some admission →
    ∀ model ∈ admission.routes call, HasRoom admission model

/-- At every send of the calls of a run. -/
def EachSend (digest : String → String) (calls : List (Surroundings × BrokerCall))
    (P : Trace → BrokerCall → Sent → Prop) : Prop :=
  ∀ pre call post before after, calls = pre ++ call :: post →
    Run (Step digest) start pre before → Step digest before call after →
    ∀ e ∈ (before.broker.perform digest call.1 call.2).2, P before call.2 e

/-- The attempt of the call was frozen with room for the model that the send names. -/
def Routed (t : Trace) (call : BrokerCall) (e : Sent) : Prop :=
  ∃ id admission, call.attempt = some id ∧ t.broker.admissions id = some admission ∧
    HasRoom admission e.manifest.model

theorem bounded_iff_routed {call : BrokerCall} (hfitting : t.Fitting) {e : Sent}
    (he : e ∈ (t.broker.perform digest env call).2) : Bounded t e ↔ Routed t call e := by
  obtain ⟨id, admission, hcall, hadmitted, htask, hattempt, hroute⟩ := perform_carries he
  have hiff := htask.fits_iff (hfitting id admission hadmitted)
  constructor
  · intro hbounded
    exact ⟨id, admission, hcall, hadmitted, hiff.mp hbounded.fits⟩
  · rintro ⟨id', admission', hcall', hadmitted', hroom⟩
    obtain rfl := Option.mem_unique hcall hcall'
    obtain rfl := Option.mem_unique hadmitted hadmitted'
    refine ⟨hiff.mpr hroom, ⟨id, admission, hattempt, hadmitted, htask.inputs, htask.instructions,
      htask.tools, htask.costBound⟩, ?_⟩
    intro ledger after scopes ticket hsound hbegun
    exact Ledger.beginSend_reserves hsound hbegun

theorem routed_of_roomy {call : BrokerCall} (hroomy : t.Roomy call) {e : Sent}
    (he : e ∈ (t.broker.perform digest env call).2) : Routed t call e := by
  obtain ⟨id, admission, hcall, hadmitted, -, -, hroute⟩ := perform_carries he
  exact ⟨id, admission, hcall, hadmitted, hroomy id admission hcall hadmitted _ hroute⟩

/-- Over every run, a send keeps to what was accounted exactly where the attempt was frozen with
room for the model it is routed to; so a run whose calls find room keeps to it throughout. -/
theorem bounded_iff (calls : List (Surroundings × BrokerCall)) :
    (EachSend digest calls (fun t _ => Bounded t) ↔ EachSend digest calls Routed) ∧
      ((∀ pre call post before, calls = pre ++ call :: post → Run (Step digest) start pre before →
        before.Roomy call.2) → EachSend digest calls fun t _ => Bounded t) := by
  have hiff : EachSend digest calls (fun t _ => Bounded t) ↔ EachSend digest calls Routed := by
    constructor
    · intro h pre call post before after hcalls hpre hstep e he
      exact (bounded_iff_routed (fitting_of_run hpre) he).mp
        (h pre call post before after hcalls hpre hstep e he)
    · intro h pre call post before after hcalls hpre hstep e he
      exact (bounded_iff_routed (fitting_of_run hpre) he).mpr
        (h pre call post before after hcalls hpre hstep e he)
  refine ⟨hiff, fun hroomy => hiff.mpr ?_⟩
  intro pre call post before after hcalls hpre hstep e he
  exact routed_of_roomy (hroomy pre call post before hcalls hpre) he

/-! ## A request that fills the bound -/

def brimming (inputs : String) : PrepareRequest :=
  ⟨"plan", "world", inputs, .human, .ok "", [], localView,
    .ok (⟨.auto none, "", .auto, "", .off, ""⟩, ⟨"local", none, none, none⟩)⟩

/-- As many bytes as a manifest without instructions and tools leaves its inputs. -/
def filling : String := String.ofList (List.replicate 1032148 'x')

theorem size_replicate (n : ℕ) (c : Char) :
    (String.ofList (List.replicate n c)).utf8ByteSize = n * c.utf8Size := by
  induction n with
  | zero => simp
  | succ n ih =>
    have happend : String.ofList (List.replicate (n + 1) c) =
        String.ofList (List.replicate n c) ++ String.ofList [c] := by
      rw [← String.ofList_append, ← replicate_succ']
    rw [happend, String.utf8ByteSize_append, ih, Nat.succ_mul]
    simp

theorem size_filling : filling.utf8ByteSize = 1032148 := by
  unfold filling
  rw [size_replicate]
  decide

/-- What a first prepare of an auto assignment freezes. -/
def frozenAuto (inputs epochId : String) : RequestManifest :=
  ⟨"a", "plan", "world", .auto none, .auto, "", [], OUTPUT_RESERVE_BYTES, inputs, inputs, epochId,
    none, none, .human, sentCostBound inputs⟩

def admittedAuto (inputs epochId : String) : AdmissionRecord :=
  ⟨"plan", "local", none, "", none, 0, frozenAuto inputs epochId, .off, ""⟩

theorem accounted_frozenAuto (inputs epochId : String) :
    (frozenAuto inputs epochId).accounted = 16428 + inputs.utf8ByteSize := by
  have hhead : "".utf8ByteSize + "\nmodel: ".utf8ByteSize + "auto".utf8ByteSize +
      "\ntools: ".utf8ByteSize + (", ".intercalate []).utf8ByteSize +
      "\noutput-reserve: ".utf8ByteSize + (toString OUTPUT_RESERVE_BYTES).utf8ByteSize +
      "\n\n".utf8ByteSize = 44 := by decide +kernel
  have hreserve : OUTPUT_RESERVE_BYTES = 16384 := rfl
  unfold RequestManifest.accounted
  rw [RequestManifest.size_wireBytes]
  dsimp only [frozenAuto, modelWireId]
  rw [hhead, hreserve]
  omega

theorem prepare_brimming {inputs : String} (hfits : ∀ epochId, (frozenAuto inputs epochId).Fits) :
    ∃ epochs bound epochId, preparedFirst (brimming inputs) =
      ⟨{ new with
          epochs := epochs
          view := localView
          admissions := update new.admissions "a" (some (admittedAuto inputs epochId))
          boundProfile := bound }, []⟩ := by
  have hfreeze : ∃ epochs bound epochId, new.freezeManifest id "a" (brimming inputs) ""
      ⟨.auto none, "", .auto, "", .off, ""⟩ ⟨"local", none, none, none⟩ =
      .ok ({ new with
          epochs := epochs
          view := localView
          admissions := update new.admissions "a" (some (admittedAuto inputs epochId))
          boundProfile := bound }, frozenAuto inputs epochId) := by
    unfold freezeManifest
    extract_lets model effort accounted
    rw [require_pos (show accounted ≤ MODEL_WIRE_MAX_BYTES from hfits "")]
    exact ⟨_, _, _, rfl⟩
  obtain ⟨epochs, bound, epochId, hfreeze⟩ := hfreeze
  refine ⟨epochs, bound, epochId, ?_⟩
  have hprepare : new.prepare id (lettered 'a' replied) (brimming inputs) =
      ({ new with
          epochs := epochs
          view := localView
          admissions := update new.admissions "a" (some (admittedAuto inputs epochId))
          boundProfile := bound }, .ok (frozenAuto inputs epochId)) :=
    prepare_of_freeze rfl rfl hfreeze
  unfold preparedFirst Trace.next perform
  dsimp only [start]
  rw [hprepare]
  rfl

theorem authorise_brimming {inputs : String}
    (hfits : ∀ epochId, (frozenAuto inputs epochId).Fits) :
    ∃ epochId, (preparedFirst (brimming inputs)).broker.authorise "world"
        (frozenAuto inputs epochId) = .ok (admittedAuto inputs epochId) ∧
      (preparedFirst (brimming inputs)).broker.view = localView := by
  obtain ⟨epochs, bound, epochId, hprepared⟩ := prepare_brimming hfits
  refine ⟨epochId, ?_, by rw [hprepared]⟩
  rw [hprepared]
  have hadmitted : update new.admissions "a" (some (admittedAuto inputs epochId))
      (frozenAuto inputs epochId).attemptId = some (admittedAuto inputs epochId) :=
    update_self _ _ _
  unfold authorise
  dsimp only
  rw [hadmitted, require_pos (by rfl), require_pos (by rfl), require_pos (by simp [new])]
  simp only [ok_bind, found_some]
  rw [require_pos (by rfl), require_pos ⟨by rfl, by rfl⟩]
  rfl

/-- A request that fills the bound exactly is sent under a longer name than the one accounted. -/
theorem oversends_of_size {inputs : String} (hsize : inputs.utf8ByteSize = 1032148) :
    ¬ ∀ (digest : String → String) (calls : List (Surroundings × BrokerCall)),
      EachSend digest calls fun t _ => Bounded t := by
  intro h
  have haccounted : ∀ epochId, (frozenAuto inputs epochId).accounted = MODEL_WIRE_MAX_BYTES := by
    intro epochId
    rw [accounted_frozenAuto, hsize]
    rfl
  have hfits : ∀ epochId, (frozenAuto inputs epochId).Fits := by
    intro epochId
    unfold RequestManifest.Fits
    rw [haccounted]
  obtain ⟨epochId, hauthorise, hview⟩ := authorise_brimming hfits
  have hserved : (preparedFirst (brimming inputs)).broker.Servable (lettered 'b' replied)
      "local" := by
    unfold Servable
    rw [hview]
    exact ⟨_, rfl, rfl⟩
  have hsent : ((preparedFirst (brimming inputs)).broker.dispatch id (lettered 'b' replied) "world"
      (frozenAuto inputs epochId)).sent ≠ [] :=
    (dispatch_sent hauthorise).mpr (.inl ⟨hserved, nofun⟩)
  obtain ⟨e, he⟩ := exists_mem_of_ne_nil _ hsent
  have hperform : e ∈ ((preparedFirst (brimming inputs)).broker.perform id (lettered 'b' replied)
      (.dispatch "world" (frozenAuto inputs epochId))).2 := by
    dsimp only [perform]
    exact he
  have hbounded : Bounded (preparedFirst (brimming inputs)) e :=
    h id _ [(lettered 'a' replied, .prepare (brimming inputs))]
      (lettered 'b' replied, .dispatch "world" (frozenAuto inputs epochId)) []
      (preparedFirst (brimming inputs)) _ rfl (.single ⟨lawful_start 'a' replied, rfl⟩)
      ⟨lawful_prepared (brimming inputs) (by decide) replied, rfl⟩ e hperform
  obtain ⟨htask, -, hroute⟩ := dispatch_carries hauthorise he
  have hroom := (htask.fits_iff (hfits epochId)).mp hbounded.fits
  have hmodel : e.manifest.model = .auto (some ["local"]) := mem_singleton.mp hroute
  have hnone : (frozenAuto inputs epochId).room = 0 := by
    unfold RequestManifest.room
    rw [haccounted, Nat.sub_self]
  rw [hmodel] at hroom
  change "auto:local".utf8ByteSize ≤
    "auto".utf8ByteSize + (frozenAuto inputs epochId).room at hroom
  rw [hnone] at hroom
  exact absurd hroom (by decide)

theorem brimming_oversends : ¬ ∀ (digest : String → String)
    (calls : List (Surroundings × BrokerCall)), EachSend digest calls fun t _ => Bounded t :=
  oversends_of_size size_filling

end Trace

end Rivect.Broker
