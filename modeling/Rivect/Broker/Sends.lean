import Rivect.Broker.Dispatch

/-! # What one call sends

A call on an attempt hands manifests to the provider one by one: its own, or those of substitutes
minted from it. Either the last of them is settled, accounted and spends the attempt, or the call
leaves what the broker has admitted and accounted as it was.
-/

namespace Rivect.Broker

open Lib Config List Function

namespace Sent

def attemptId (e : Sent) : String := e.manifest.attemptId

def connection (e : Sent) : String := e.context.connection

def parent (e : Sent) : Option String := e.context.parentAttemptId

/-- The ledger admitted it, the provider replied and the ledger closed it. -/
def Settled (e : Sent) : Prop := ∃ reply, e.answer = .replied reply (.ok ())

/-- The ledger let it through. -/
def Entered (e : Sent) : Prop := ∀ error, e.answer ≠ .refused error

theorem Settled.entered {e : Sent} (h : e.Settled) : e.Entered := by
  obtain ⟨reply, hanswer⟩ := h
  intro error
  rw [hanswer]
  exact nofun

/-- It may have applied, and nothing recorded that it did. -/
def uncertain (e : Sent) : Bool :=
  match e.answer with
  | .failed error _ => providerOutcomeUnknown error.marked
  | .replied _ (.error _) => true
  | _ => false

end Sent

end Broker

namespace Broker

open Lib Config List Function

/-- The connection is declared and the adapter serves it. -/
def Servable (broker : Broker) (env : Surroundings) (connection : String) : Prop :=
  ∃ entry, broker.view.connections.lookup connection = some entry ∧
    env.serves connection entry = true

/-! ## One send -/

/-- The broker that accounted an attempt. -/
def accounted (broker : Broker) (attemptId : String) (record : AccountingRecord) : Broker :=
  clearAttempt { broker with accounting := update broker.accounting attemptId (some record) }
    attemptId

/-- What sending one manifest comes to. -/
inductive Tries (broker : Broker) (env : Surroundings) (manifest : RequestManifest)
    (connection : String) (parent : Option String) : SendDone → Prop
  | unserved (source : ProviderError) (hserved : ¬ broker.Servable env connection)
      (hcertain : providerOutcomeUnknown source = false) :
      Tries broker env manifest connection parent ⟨broker, [], .error (.provider source)⟩
  | refused (error : LedgerError) (hserved : broker.Servable env connection)
      (hanswer : env.answer manifest.attemptId = .refused error) :
      Tries broker env manifest connection parent ⟨broker, [], .error (.ledger error)⟩
  | failed (sent : Sent) (failure : SendFailure) (hserved : broker.Servable env connection)
      (hmanifest : sent.manifest = manifest.narrowed connection)
      (hconnection : sent.connection = connection) (hparent : sent.parent = parent)
      (hanswer : sent.answer = env.answer manifest.attemptId) (hentered : sent.Entered)
      (hopen : ¬ sent.Settled)
      (hfailure : ∀ source, failure = .provider source →
        providerOutcomeUnknown source = sent.uncertain) :
      Tries broker env manifest connection parent ⟨broker, [sent], .error failure⟩
  | settled (sent : Sent) (record : AccountingRecord) (reply : ProviderReply)
      (hserved : broker.Servable env connection)
      (hmanifest : sent.manifest = manifest.narrowed connection)
      (hconnection : sent.connection = connection) (hparent : sent.parent = parent)
      (hanswer : sent.answer = env.answer manifest.attemptId) (hsettled : sent.Settled)
      (hrecord : record.attemptId = manifest.attemptId) :
      Tries broker env manifest connection parent
        ⟨broker.accounted manifest.attemptId record, [sent], .ok reply⟩

theorem narrowed_attemptId (manifest : RequestManifest) (connection : String) :
    (manifest.narrowed connection).attemptId = manifest.attemptId := by
  unfold RequestManifest.narrowed
  split <;> rfl

theorem tries_completeSend (broker : Broker) (env : Surroundings) (manifest : RequestManifest)
    (connection : String) (parent : Option String) :
    Tries broker env manifest connection parent
      (broker.completeSend env manifest connection parent) := by
  unfold completeSend
  split
  · rename_i hnone
    refine .unserved _ ?_ rfl
    rintro ⟨entry, hentry, -⟩
    rw [hnone] at hentry
    cases hentry
  · rename_i entry hentry
    split
    · rename_i hserves
      refine .unserved _ ?_ ?_
      · rintro ⟨other, hother, hserved⟩
        rw [hentry] at hother
        cases hother
        rw [hserves] at hserved
        cases hserved
      · cases dialectFor connection <;> rfl
    · rename_i hserves
      have hserved : broker.Servable env connection := ⟨entry, hentry, by simpa using hserves⟩
      have hid := narrowed_attemptId manifest connection
      dsimp only
      rw [hid]
      split
      · rename_i error hanswer
        exact .refused error hserved hanswer
      · rename_i error finished hanswer
        split
        · exact .failed _ _ hserved rfl rfl rfl hanswer.symm nofun (by rintro ⟨reply, ⟨⟩⟩) nofun
        · refine .failed _ _ hserved rfl rfl rfl hanswer.symm nofun (by rintro ⟨reply, ⟨⟩⟩) ?_
          rintro source ⟨rfl⟩
          rfl
      · rename_i reply finished hanswer
        split
        · exact .failed _ _ hserved rfl rfl rfl hanswer.symm nofun (by rintro ⟨_, ⟨⟩⟩) nofun
        · exact .settled _ _ reply hserved rfl rfl rfl hanswer.symm ⟨reply, rfl⟩ rfl

/-! ## Minting and abandoning -/

/-- The parts of a manifest that a substitute takes over byte for byte. -/
structure SameTask (manifest other : RequestManifest) : Prop where
  purpose : manifest.purpose = other.purpose
  world : manifest.world = other.world
  effort : manifest.effort = other.effort
  instructions : manifest.instructions = other.instructions
  tools : manifest.tools = other.tools
  outputReserve : manifest.outputReserve = other.outputReserve
  inputs : manifest.inputs = other.inputs
  inputsDigest : manifest.inputsDigest = other.inputsDigest
  inputOrigin : manifest.inputOrigin = other.inputOrigin
  costBound : manifest.costBound = other.costBound

theorem sameTask_narrowed {manifest other : RequestManifest} (h : SameTask manifest other)
    (connection : String) : SameTask (manifest.narrowed connection) other := by
  unfold RequestManifest.narrowed
  split
  · exact ⟨h.purpose, h.world, h.effort, h.instructions, h.tools, h.outputReserve, h.inputs,
      h.inputsDigest, h.inputOrigin, h.costBound⟩
  · exact h

/-- No table of the broker knows the attempt. -/
structure Free (broker : Broker) (attemptId : String) : Prop where
  admissions : broker.admissions attemptId = none
  pending : broker.pending attemptId = none
  paused : broker.paused attemptId = none

/-- The broker with one attempt and one epoch more. -/
def admitting (broker : Broker) (attemptId purpose : String) (minted : AdmissionRecord)
    (parts : EpochState) : Broker :=
  { broker with
    epochs := update broker.epochs purpose (some parts)
    admissions := update broker.admissions attemptId (some minted) }

theorem mintSubstitute_eq (broker : Broker) (digest : String → String) (attemptId : String)
    (admission : AdmissionRecord) (model : ModelAssign) (connection leg : String) :
    ∃ minted parts substitute,
      broker.mintSubstitute digest attemptId admission model connection leg =
        (broker.admitting attemptId admission.purpose minted parts, substitute,
          broker.epochs admission.purpose) ∧
      substitute.attemptId = attemptId ∧ SameTask substitute admission.manifest ∧
      (broker.contextEpoch digest admission.purpose model admission.manifest.instructions
        admission.manifest.tools).1.epochs =
          update broker.epochs admission.purpose (some parts) :=
  ⟨_, _, _, rfl, rfl, ⟨rfl, rfl, rfl, rfl, rfl, rfl, rfl, rfl, rfl, rfl⟩, rfl⟩

theorem abandon_admitting {broker : Broker} {attemptId : String} (hfree : broker.Free attemptId)
    (purpose : String) (minted : AdmissionRecord) (parts : EpochState) :
    (broker.admitting attemptId purpose minted parts).abandonSubstitute attemptId purpose
      (broker.epochs purpose) = broker := by
  have hadmissions : update broker.admissions attemptId none = broker.admissions := by
    rw [← hfree.admissions, update_eq_self]
  unfold abandonSubstitute admitting
  simp only [update_idem, update_eq_self, hadmissions]

/-- A substitute that settled is accounted, and its own admission is gone. -/
theorem accounted_admitting {broker : Broker} {attemptId : String} (hfree : broker.Free attemptId)
    (purpose : String) (minted : AdmissionRecord) (parts : EpochState)
    (record : AccountingRecord) :
    (broker.admitting attemptId purpose minted parts).accounted attemptId record =
      { broker with
        epochs := update broker.epochs purpose (some parts)
        accounting := update broker.accounting attemptId (some record) } := by
  have hadmissions : update broker.admissions attemptId none = broker.admissions := by
    rw [← hfree.admissions, update_eq_self]
  have hpending : update broker.pending attemptId none = broker.pending := by
    rw [← hfree.pending, update_eq_self]
  have hpaused : update broker.paused attemptId none = broker.paused := by
    rw [← hfree.paused, update_eq_self]
  unfold accounted clearAttempt admitting
  simp only [update_idem, hadmissions, hpending, hpaused]

/-! ## What a call comes to -/

/-- The attempt's own manifest. -/
structure Primary (admission : AdmissionRecord) (e : Sent) : Prop where
  manifest : e.manifest = admission.manifest.narrowed admission.connection
  connection : e.connection = admission.connection
  parent : e.parent = none

/-- A substitute that was minted from the attempt and passed the re-check. -/
structure Substitute (broker : Broker) (env : Surroundings) (attemptId : String)
    (admission : AdmissionRecord) (e : Sent) : Prop where
  task : SameTask e.manifest admission.manifest
  parent : e.parent = some attemptId
  minted : ∃ n, e.attemptId = env.ids n
  passes : broker.candidateRejection env admission.purpose e.connection = none
  contract : blindRetryRefused admission.connection e.connection = false

/-- Nothing that was admitted or accounted moved; a manual pause may have begun. -/
structure Unspent (broker broker' : Broker) (attemptId : String) (admission : AdmissionRecord) :
    Prop where
  epochs : broker'.epochs = broker.epochs
  admissions : broker'.admissions = broker.admissions
  accounting : broker'.accounting = broker.accounting
  cancelled : broker'.cancelled = broker.cancelled
  entitlements : broker'.entitlements = broker.entitlements
  pauses : (broker'.paused = broker.paused ∧ broker'.pending = broker.pending) ∨
    admission.fallback = .manual ∧ ∃ served choice,
      broker'.paused = update broker.paused attemptId (some served) ∧
      broker'.pending = update broker.pending attemptId (some choice)

theorem Unspent.refl (broker : Broker) (attemptId : String) (admission : AdmissionRecord) :
    Unspent broker broker attemptId admission := ⟨rfl, rfl, rfl, rfl, rfl, .inl ⟨rfl, rfl⟩⟩

/-- The send is accounted and the attempt is spent. -/
structure Spends (digest : String → String) (broker broker' : Broker) (attemptId : String) (admission : AdmissionRecord)
    (e : Sent) : Prop where
  epochs : broker'.epochs = broker.epochs ∨ ∃ model, broker'.epochs =
    (broker.contextEpoch digest admission.purpose model admission.manifest.instructions
      admission.manifest.tools).1.epochs
  admissions : broker'.admissions = update broker.admissions attemptId none
  accounting : ∃ record, record.attemptId = e.attemptId ∧
    broker'.accounting = update broker.accounting e.attemptId (some record)
  cancelled : broker'.cancelled = broker.cancelled
  entitlements : broker'.entitlements = broker.entitlements
  pauses : (broker'.paused = update broker.paused attemptId none ∧
      broker'.pending = update broker.pending attemptId none) ∨
    admission.fallback ≠ .manual ∧ broker'.paused = broker.paused ∧
      broker'.pending = broker.pending

/-- Either the call was refused and nothing was settled, or its last send was settled. -/
def Concludes (digest : String → String) (broker : Broker) (attemptId : String) (admission : AdmissionRecord)
    (done : Done) : Prop :=
  (∃ refusal, done.answer = .error refusal) ∧ (∀ e ∈ done.sent, ¬ e.Settled) ∧
      Unspent broker done.broker attemptId admission ∨
    (∃ reply, done.answer = .ok reply) ∧ ∃ front e, done.sent = front ++ [e] ∧
      (∀ e ∈ front, ¬ e.Settled) ∧ e.Settled ∧ Spends digest broker done.broker attemptId admission e

variable {digest : String → String} {broker broker' : Broker} {env : Surroundings}
  {attemptId connection world : String} {admission : AdmissionRecord} {manifest : RequestManifest}
  {minted : ℕ} {attempted : List String} {done : Done} {e : Sent}

/-- Sends before a conclusion that settled nothing do not change it. -/
theorem Concludes.after (h : Concludes digest broker attemptId admission done) {sent : List Sent}
    (hopen : ∀ e ∈ sent, ¬ e.Settled) :
    Concludes digest broker attemptId admission (done.after sent) := by
  rcases h with ⟨hrefused, hnone, hunspent⟩ | ⟨hreply, front, e, hsent, hfront, he, hspends⟩
  · refine .inl ⟨hrefused, ?_, hunspent⟩
    intro e he
    exact (mem_append.mp he).elim (hopen e) (hnone e)
  · refine .inr ⟨hreply, sent ++ front, e, ?_, ?_, he, hspends⟩
    · rw [append_assoc, ← hsent]
      rfl
    · intro x hx
      exact (mem_append.mp hx).elim (hopen x) (hfront x)

/-- What a call on an admitted attempt sends, in order. -/
structure Sends (digest : String → String) (broker : Broker) (env : Surroundings) (attemptId : String)
    (admission : AdmissionRecord) (done : Done) : Prop where
  each : ∀ e ∈ done.sent, Primary admission e ∨ Substitute broker env attemptId admission e
  answers : ∀ e ∈ done.sent, e.answer = env.answer e.attemptId ∧ e.Entered
  distinct : (done.sent.map Sent.attemptId).Nodup
  contract : done.sent.Pairwise fun first later =>
    blindRetryRefused first.connection later.connection = false
  concludes : Concludes digest broker attemptId admission done

/-! ## The walk of a chain -/

/-- What a walk sends: substitutes under ids that are still fresh, none on a contract tried. -/
structure Walks (digest : String → String) (broker : Broker) (env : Surroundings) (attemptId : String)
    (admission : AdmissionRecord) (minted : ℕ) (attempted : List String) (done : Done) : Prop where
  each : ∀ e ∈ done.sent, Substitute broker env attemptId admission e ∧
    (∃ n, minted ≤ n ∧ e.attemptId = env.ids n) ∧
    ∀ c ∈ attempted, blindRetryRefused c e.connection = false
  answers : ∀ e ∈ done.sent, e.answer = env.answer e.attemptId ∧ e.Entered
  distinct : (done.sent.map Sent.attemptId).Nodup
  contract : done.sent.Pairwise fun first later =>
    blindRetryRefused first.connection later.connection = false
  concludes : Concludes digest broker attemptId admission done

theorem Walks.silent (env : Surroundings)
    (minted : ℕ) (attempted : List String) (refusal : ModelError)
    (h : Unspent broker broker' attemptId admission) :
    Walks digest broker env attemptId admission minted attempted ⟨broker', [], .error refusal⟩ :=
  ⟨by simp, by simp, .nil, .nil, .inl ⟨⟨refusal, rfl⟩, by simp, h⟩⟩

/-- A send that fails, before a walk that goes on with its connection tried. -/
theorem Walks.failed (hids : Injective env.ids) (hid : e.attemptId = env.ids minted)
    (hsubstitute : Substitute broker env attemptId admission e)
    (hattempted : ∀ c ∈ attempted, blindRetryRefused c e.connection = false)
    (hanswer : e.answer = env.answer e.attemptId ∧ e.Entered) (hopen : ¬ e.Settled)
    (h : Walks digest broker env attemptId admission (minted + 1) (attempted ++ [e.connection]) done) :
    Walks digest broker env attemptId admission minted attempted (done.after [e]) := by
  have hsent : (done.after [e]).sent = e :: done.sent := rfl
  refine ⟨?_, ?_, ?_, ?_, ?_⟩
  · rw [hsent]
    intro x hx
    rcases mem_cons.mp hx with rfl | hx
    · exact ⟨hsubstitute, ⟨minted, le_rfl, hid⟩, hattempted⟩
    · obtain ⟨hx, ⟨n, hn, hxid⟩, hcontract⟩ := h.each x hx
      refine ⟨hx, ⟨n, (Nat.le_succ minted).trans hn, hxid⟩, ?_⟩
      exact fun c hc => hcontract c (mem_append_left _ hc)
  · rw [hsent]
    intro x hx
    rcases mem_cons.mp hx with rfl | hx
    · exact hanswer
    · exact h.answers x hx
  · rw [hsent, map_cons, nodup_cons]
    refine ⟨?_, h.distinct⟩
    intro hmem
    obtain ⟨x, hx, hxid⟩ := mem_map.mp hmem
    obtain ⟨-, ⟨n, hn, hxn⟩, -⟩ := h.each x hx
    have := hids (hxn.symm.trans (hxid.trans hid))
    omega
  · rw [hsent, pairwise_cons]
    refine ⟨?_, h.contract⟩
    exact fun x hx => (h.each x hx).2.2 e.connection (mem_append_right _ (by simp))
  · refine h.concludes.after ?_
    intro x hx
    rwa [mem_singleton.mp hx]

theorem Walks.settled (reply : ProviderReply) (hid : e.attemptId = env.ids minted)
    (hsubstitute : Substitute broker env attemptId admission e)
    (hattempted : ∀ c ∈ attempted, blindRetryRefused c e.connection = false)
    (hanswer : e.answer = env.answer e.attemptId) (hsettled : e.Settled)
    (hspends : Spends digest broker broker' attemptId admission e) :
    Walks digest broker env attemptId admission minted attempted ⟨broker', [e], .ok reply⟩ := by
  refine ⟨?_, ?_, by simp, by simp, ?_⟩
  · intro x hx
    rw [mem_singleton.mp hx]
    exact ⟨hsubstitute, ⟨minted, le_rfl, hid⟩, hattempted⟩
  · intro x hx
    rw [mem_singleton.mp hx]
    exact ⟨hanswer, hsettled.entered⟩
  · exact .inr ⟨⟨reply, rfl⟩, [], e, rfl, by simp, hsettled, hspends⟩

theorem Substitute.of_minted {substitute : RequestManifest}
    {sent : Sent} (hid : substitute.attemptId = env.ids minted)
    (htask : SameTask substitute admission.manifest)
    (hpasses : broker.candidateRejection env admission.purpose connection = none)
    (hcontract : blindRetryRefused admission.connection connection = false)
    (hmanifest : sent.manifest = substitute.narrowed connection)
    (hconnection : sent.connection = connection) (hparent : sent.parent = some attemptId) :
    sent.attemptId = env.ids minted ∧ Substitute broker env attemptId admission sent := by
  have hsentId : sent.attemptId = env.ids minted := by
    rw [Sent.attemptId, hmanifest, narrowed_attemptId, hid]
  refine ⟨hsentId, ?_, hparent, ⟨minted, hsentId⟩, ?_, ?_⟩
  · rw [hmanifest]
    exact sameTask_narrowed htask connection
  · rw [hconnection, hpasses]
  · rw [hconnection, hcontract]

theorem walks_walkChain (source : ProviderError)
    (hfallback : admission.fallback ≠ .manual) (hids : Injective env.ids)
    (hfree : ∀ n, broker.Free (env.ids n)) (chain : List FixedModel) (minted : ℕ)
    (rejected : List CandidateRejection) (attempted : List String) :
    Walks digest broker env attemptId admission minted attempted
      (walkChain digest env attemptId admission source chain minted broker rejected attempted) := by
  -- Induction on the chain that is left: ids minted and connections tried only grow along it.
  induction chain generalizing minted rejected attempted with
  | nil => exact .silent env minted attempted _ (.refl _ _ _)
  | cons entry rest ih =>
    unfold walkChain
    split
    · exact ih minted _ attempted
    · rename_i hcontract
      have hcontract : ∀ c ∈ admission.connection :: attempted,
          blindRetryRefused c entry.connection = false := by
        intro c hc
        by_contra hrefused
        exact hcontract (any_eq_true.mpr ⟨c, hc, by simpa using hrefused⟩)
      split
      · exact ih minted _ attempted
      · rename_i hpasses
        obtain ⟨record, parts, substitute, hmint, hid, htask, hepochs⟩ := mintSubstitute_eq broker digest
          (env.ids minted) admission (.fixed entry) entry.connection "fallback"
        rw [hmint]
        have habandon := abandon_admitting (hfree minted) admission.purpose record parts
        have htries := tries_completeSend
          (broker.admitting (env.ids minted) admission.purpose record parts) env substitute
          entry.connection (some attemptId)
        dsimp only
        rw [hid]
        generalize completeSend _ env substitute entry.connection (some attemptId) = tried at htries ⊢
        have hsubstitute := fun sent : Sent => @Substitute.of_minted broker env attemptId
          entry.connection admission minted substitute sent hid htask hpasses
          (hcontract _ mem_cons_self)
        cases htries with
        -- Nothing was sent, so what the rest of the walk sends is all.
        | unserved source' _ hcertain =>
          dsimp only
          rw [habandon, hcertain]
          have hrest := ih (minted + 1) (rejected ++ [⟨entry.connection, .sendFailed source'⟩])
            (attempted ++ [entry.connection])
          refine ⟨?_, hrest.answers, hrest.distinct, hrest.contract, hrest.concludes⟩
          intro e he
          obtain ⟨hsub, ⟨n, hn, hsentId⟩, htried⟩ := hrest.each e he
          exact ⟨hsub, ⟨n, (Nat.le_succ minted).trans hn, hsentId⟩,
            fun c hc => htried c (mem_append_left _ hc)⟩
        | refused error _ _ =>
          rw [habandon]
          exact .silent env minted attempted _ (.refl _ _ _)
        -- The send stays open; whether the walk goes on is for the kind of failure to say.
        | failed sent failure _ hmanifest hconnection hparent hanswer hentered hopen _ =>
          obtain ⟨hsentId, hsub⟩ := hsubstitute sent hmanifest hconnection hparent
          have hanswer : sent.answer = env.answer sent.attemptId ∧ sent.Entered :=
            ⟨by rw [hanswer, hsentId, hid], hentered⟩
          have htried : ∀ c ∈ attempted, blindRetryRefused c sent.connection = false := by
            rw [hconnection]
            exact fun c hc => hcontract c (mem_cons_of_mem _ hc)
          have hends : ∀ refusal, Walks digest broker env attemptId admission minted attempted
              ⟨broker, [sent], .error refusal⟩ := fun refusal =>
            (Walks.silent env (minted + 1) (attempted ++ [sent.connection]) refusal (.refl _ _ _)).failed
              hids
              hsentId hsub htried hanswer hopen
          cases failure with
          | ledger refusal =>
            rw [habandon]
            exact hends _
          | provider failure =>
            dsimp only
            rw [habandon]
            split
            · exact hends _
            · rw [← hconnection]
              exact (ih (minted + 1) _ _).failed hids hsentId hsub htried hanswer hopen
        | settled sent account reply _ hmanifest hconnection hparent hanswer hsettled hrecord =>
          obtain ⟨hsentId, hsub⟩ := hsubstitute sent hmanifest hconnection hparent
          rw [hid, accounted_admitting (hfree minted)]
          refine .settled reply hsentId hsub ?_ ?_ hsettled ?_
          · rw [hconnection]
            exact fun c hc => hcontract c (mem_cons_of_mem _ hc)
          · rw [hanswer, hsentId, hid]
          · refine ⟨.inr ⟨_, hepochs.symm⟩, rfl, ⟨account, ?_, ?_⟩, rfl, rfl,
              .inr ⟨hfallback, rfl, rfl⟩⟩
            · rw [hrecord, hid, hsentId]
            · rw [hsentId]

theorem walks_fallbackOrFail (source : ProviderError)
    (hids : Injective env.ids) (hfree : ∀ n, broker.Free (env.ids n)) :
    Walks digest broker env attemptId admission 0 []
      (broker.fallbackOrFail digest env attemptId admission source) := by
  unfold fallbackOrFail
  split
  · exact .silent env 0 [] _ (.refl _ _ _)
  · rename_i hmanual
    dsimp only
    split
    · exact .silent env 0 [] _ (.refl _ _ _)
    · exact .silent env 0 [] _ ⟨rfl, rfl, rfl, rfl, rfl, .inr ⟨hmanual, _, _, rfl, rfl⟩⟩
  · rename_i chain hauto
    split
    · exact .silent env 0 [] _ (.refl _ _ _)
    · have hfallback : admission.fallback ≠ .manual := by
        rw [hauto]
        exact nofun
      exact walks_walkChain source hfallback hids hfree chain 0 [] []

/-! ## The two calls that send -/

theorem Walks.sends (h : Walks digest broker env attemptId admission minted attempted done) :
    Sends digest broker env attemptId admission done :=
  ⟨fun e he => .inr (h.each e he).1, h.answers, h.distinct, h.contract, h.concludes⟩

theorem Walks.primary (hnew : ∀ n, env.ids n ≠ attemptId)
    (hid : e.attemptId = attemptId) (hprimary : Primary admission e)
    (hanswer : e.answer = env.answer e.attemptId ∧ e.Entered) (hopen : ¬ e.Settled)
    (h : Walks digest broker env attemptId admission 0 [] done) :
    Sends digest broker env attemptId admission (done.after [e]) := by
  have hsent : (done.after [e]).sent = e :: done.sent := rfl
  refine ⟨?_, ?_, ?_, ?_, ?_⟩
  · rw [hsent]
    intro x hx
    rcases mem_cons.mp hx with rfl | hx
    · exact .inl hprimary
    · exact .inr (h.each x hx).1
  · rw [hsent]
    intro x hx
    rcases mem_cons.mp hx with rfl | hx
    · exact hanswer
    · exact h.answers x hx
  · rw [hsent, map_cons, nodup_cons]
    refine ⟨?_, h.distinct⟩
    intro hmem
    obtain ⟨x, hx, hxid⟩ := mem_map.mp hmem
    obtain ⟨n, -, hxn⟩ := (h.each x hx).2.1
    exact hnew n (hxn.symm.trans (hxid.trans hid))
  · rw [hsent, pairwise_cons]
    refine ⟨?_, h.contract⟩
    intro x hx
    rw [hprimary.connection]
    exact (h.each x hx).1.contract
  · refine h.concludes.after ?_
    intro x hx
    rwa [mem_singleton.mp hx]

/-- What an admission must show before its manifest is sent. -/
structure Authorised (broker : Broker) (world : String) (manifest : RequestManifest)
    (admission : AdmissionRecord) : Prop where
  world : manifest.world = world
  open_ : broker.accounting manifest.attemptId = none
  live : manifest.attemptId ∉ broker.cancelled
  admitted : broker.admissions manifest.attemptId = some admission
  manifest : admission.manifest = manifest
  current : broker.entitlements.version = admission.snapshotVersion
  allowed : broker.entitlements.allows admission.connection = true

theorem authorise_ok (h : broker.authorise world manifest = .ok admission) :
    Authorised broker world manifest admission := by
  have hwithin : Within Fails (Authorised broker world manifest)
      (broker.authorise world manifest) := by
    apply Within.guard
    intro hworld
    apply Within.guard
    intro hopen
    apply Within.guard
    intro hlive
    apply Within.look
    intro admission hadmitted
    apply Within.guard
    intro hmanifest
    apply Within.guard
    rintro ⟨hcurrent, hallowed⟩
    exact ⟨hworld, Option.isNone_iff_eq_none.mp hopen, hlive, hadmitted, hmanifest, hcurrent,
      hallowed⟩
  exact hwithin.of_ok h

theorem sends_dispatch
    (hok : broker.authorise world manifest = .ok admission) (hids : Injective env.ids)
    (hfree : ∀ n, broker.Free (env.ids n)) (hnew : ∀ n, env.ids n ≠ manifest.attemptId) :
    Sends digest broker env manifest.attemptId admission (broker.dispatch digest env world manifest) := by
  have hauthorised := authorise_ok hok
  have htries := tries_completeSend broker env manifest admission.connection none
  have hprimary : ∀ sent : Sent, sent.manifest = manifest.narrowed admission.connection →
      sent.connection = admission.connection → sent.parent = none →
      sent.attemptId = manifest.attemptId ∧ Primary admission sent := by
    intro sent hmanifest hconnection hparent
    refine ⟨?_, ?_, hconnection, hparent⟩
    · rw [Sent.attemptId, hmanifest, narrowed_attemptId]
    · rw [hauthorised.manifest, hmanifest]
  unfold dispatch
  rw [hok]
  dsimp only
  generalize completeSend broker env manifest admission.connection none = tried at htries ⊢
  cases htries with
  | unserved source _ _ => exact (walks_fallbackOrFail source hids hfree).sends
  | refused error _ _ => exact (Walks.silent env 0 [] _ (.refl _ _ _)).sends
  | failed sent failure _ hmanifest hconnection hparent hanswer hentered hopen _ =>
    obtain ⟨hid, hsent⟩ := hprimary sent hmanifest hconnection hparent
    have hanswer : sent.answer = env.answer sent.attemptId ∧ sent.Entered :=
      ⟨by rw [hanswer, hid], hentered⟩
    cases failure with
    | ledger refusal =>
      exact (Walks.silent env 0 [] _ (.refl _ _ _)).primary hnew hid hsent hanswer hopen
    | provider source =>
      exact (walks_fallbackOrFail source hids hfree).primary hnew hid hsent hanswer hopen
  | settled sent account reply _ hmanifest hconnection hparent hanswer hsettled hrecord =>
    obtain ⟨hid, hsent⟩ := hprimary sent hmanifest hconnection hparent
    refine ⟨?_, ?_, ?_, ?_, ?_⟩
    · intro e he
      rw [mem_singleton.mp he]
      exact .inl hsent
    · intro e he
      rw [mem_singleton.mp he]
      exact ⟨by rw [hanswer, hid], hsettled.entered⟩
    · simp
    · simp
    · refine .inr ⟨⟨reply, rfl⟩, [], sent, rfl, by simp, hsettled, .inl rfl, rfl,
        ⟨account, ?_, ?_⟩, rfl, rfl, .inl ⟨rfl, rfl⟩⟩
      · rw [hrecord, hid]
      · rw [hid]
        rfl

/-- What a human pick must show before its substitute is sent. -/
structure Picked (broker : Broker) (env : Surroundings) (world attemptId connection : String)
    (admission : AdmissionRecord) : Prop where
  admitted : broker.admissions attemptId = some admission
  paused : ∃ served, broker.paused attemptId = some served ∧ connection ∈ served
  world : admission.manifest.world = world
  contract : blindRetryRefused admission.connection connection = false
  passes : broker.candidateRejection env admission.purpose connection = none

theorem authoriseChoice_ok
    (h : broker.authoriseChoice env world attemptId connection = .ok admission) :
    Picked broker env world attemptId connection admission := by
  have hwithin : Within Fails (Picked broker env world attemptId connection)
      (broker.authoriseChoice env world attemptId connection) := by
    apply Within.look
    intro admission hadmitted
    apply Within.look
    intro served hserved
    apply Within.guard
    intro hworld
    apply Within.guard
    intro hcontract
    apply Within.guard
    intro hoffered
    split
    · trivial
    · rename_i hpasses
      exact ⟨hadmitted, ⟨served, hserved, hoffered⟩, hworld, hcontract, hpasses⟩
  exact hwithin.of_ok h

theorem sends_dispatchFallbackChoice
    (hok : broker.authoriseChoice env world attemptId connection = .ok admission)
    (hids : Injective env.ids) (hfree : ∀ n, broker.Free (env.ids n)) :
    Sends digest broker env attemptId admission
      (broker.dispatchFallbackChoice digest env world attemptId connection) := by
  have hpicked := authoriseChoice_ok hok
  unfold dispatchFallbackChoice
  rw [hok]
  dsimp only
  obtain ⟨record, parts, substitute, hmint, hid, htask, hepochs⟩ := mintSubstitute_eq broker digest
    (env.ids 0) admission (pickedModel admission.manifest connection) connection "manual"
  rw [hmint]
  have habandon := abandon_admitting (hfree 0) admission.purpose record parts
  have htries := tries_completeSend
    (broker.admitting (env.ids 0) admission.purpose record parts) env substitute connection
    (some attemptId)
  rw [hid]
  generalize completeSend _ env substitute connection (some attemptId) = tried at htries ⊢
  have hsubstitute := fun sent : Sent => @Substitute.of_minted broker env attemptId connection
    admission 0 substitute sent hid htask hpicked.passes hpicked.contract
  cases htries with
  | unserved source' _ _ =>
    rw [habandon]
    exact (Walks.silent env 0 [] _ (.refl _ _ _)).sends
  | refused error _ _ =>
    rw [habandon]
    exact (Walks.silent env 0 [] _ (.refl _ _ _)).sends
  | failed sent failure _ hmanifest hconnection hparent hanswer hentered hopen _ =>
    obtain ⟨hsentId, hsub⟩ := hsubstitute sent hmanifest hconnection hparent
    have hanswer : sent.answer = env.answer sent.attemptId ∧ sent.Entered :=
      ⟨by rw [hanswer, hsentId, hid], hentered⟩
    have hends : ∀ refusal, Sends digest broker env attemptId admission
        ⟨broker, [sent], .error refusal⟩ := fun refusal =>
      ((Walks.silent env 1 [sent.connection] refusal (.refl _ _ _)).failed hids hsentId hsub
        (by simp) hanswer hopen : Walks digest broker env attemptId admission 0 [] _).sends
    cases failure with
    | ledger refusal =>
      rw [habandon]
      exact hends _
    | provider failure =>
      rw [habandon]
      exact hends _
  | settled sent account reply _ hmanifest hconnection hparent hanswer hsettled hrecord =>
    obtain ⟨hsentId, hsub⟩ := hsubstitute sent hmanifest hconnection hparent
    rw [hid, accounted_admitting (hfree 0)]
    -- A choice is a walk of its one connection, on which no other was tried.
    refine @Walks.sends digest broker env attemptId admission 0 [] _ ?_
    refine .settled reply hsentId hsub (forall_mem_nil _) ?_ hsettled ?_
    · rw [hanswer, hsentId, hid]
    · refine ⟨.inr ⟨_, hepochs.symm⟩, rfl, ⟨account, ?_, ?_⟩, rfl, rfl, .inl ⟨rfl, rfl⟩⟩
      · rw [hrecord, hid, hsentId]
      · rw [hsentId]
        rfl

end Broker

end Rivect
