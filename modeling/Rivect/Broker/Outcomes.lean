import Rivect.Broker.Accounting

/-! # Unknown outcomes

A send whose outcome is unknown ends the call that made it. The attempt stays admitted, and whether
a later dispatch of it sends again is decided anew: by the ledger where the attempt's own connection
is served, and by nothing but the chain where it is not.
-/

namespace Rivect.Broker

open Lib Config List Option

variable {digest : String → String} {env : Surroundings} {broker : Broker} {attemptId : String}
  {admission : AdmissionRecord}

/-- The ledger lets the attempt in. -/
def Surroundings.LetsIn (env : Surroundings) (attemptId : String) : Prop :=
  ∀ error, env.answer attemptId ≠ .refused error

/-- An entry of the chain that the walk may send to. -/
def Eligible (broker : Broker) (env : Surroundings) (admission : AdmissionRecord)
    (entry : FixedModel) : Prop :=
  blindRetryRefused admission.connection entry.connection = false ∧
    broker.candidateRejection env admission.purpose entry.connection = none

/-- A dispatch has a way to the provider: its own connection, or an entry of its chain where its own
connection is not served. -/
def Reaches (broker : Broker) (env : Surroundings) (admission : AdmissionRecord)
    (attemptId : String) : Prop :=
  (broker.Servable env admission.connection ∧ env.LetsIn attemptId) ∨
    ¬ broker.Servable env admission.connection ∧ env.LetsIn (env.ids 0) ∧
      ∃ chain, admission.fallback = .auto chain ∧
        ∃ entry ∈ chain, broker.Eligible env admission entry

theorem servable_of_passes {purpose connection : String}
    (h : broker.candidateRejection env purpose connection = none) :
    broker.Servable env connection := by
  unfold candidateRejection at h
  split at h
  · cases h
  · rename_i entry hentry
    split at h
    · cases h
    split at h
    · cases h
    · rename_i hserves
      exact ⟨entry, hentry, by simpa using hserves⟩

/-- The first eligible entry decides: it is sent, or the ledger's refusal of it ends the walk. -/
theorem walkChain_sent (source : ProviderError) (chain : List FixedModel)
    (rejected : List CandidateRejection) :
    (walkChain digest env attemptId admission source chain 0 broker rejected []).sent ≠ [] ↔
      env.LetsIn (env.ids 0) ∧ ∃ entry ∈ chain, broker.Eligible env admission entry := by
  induction chain generalizing rejected with
  | nil => exact iff_of_false (fun h => h rfl) (by rintro ⟨-, entry, hentry, -⟩; cases hentry)
  | cons entry rest ih =>
    have hskip : ¬ broker.Eligible env admission entry →
        ((∃ x ∈ entry :: rest, broker.Eligible env admission x) ↔
          ∃ x ∈ rest, broker.Eligible env admission x) := by
      intro hnot
      rw [exists_mem_cons_iff, or_iff_right hnot]
    unfold walkChain
    split
    · rename_i hrefused
      rw [ih, hskip]
      rintro ⟨hcontract, -⟩
      rw [any_cons, any_nil, Bool.or_false, hcontract] at hrefused
      cases hrefused
    · rename_i hcontract
      rw [any_cons, any_nil, Bool.or_false, Bool.not_eq_true] at hcontract
      split
      · rename_i cause hcause
        rw [ih, hskip]
        rintro ⟨-, hpasses⟩
        cases hcause.symm.trans hpasses
      · rename_i hpasses
        obtain ⟨record, parts, substitute, hmint, hid, -, -⟩ := mintSubstitute_eq broker digest
          (env.ids 0) admission (.fixed entry) entry.connection "fallback"
        rw [hmint]
        dsimp only
        have hserved : (broker.admitting (env.ids 0) admission.purpose record parts).Servable env
            entry.connection := servable_of_passes hpasses
        have htries := tries_completeSend
          (broker.admitting (env.ids 0) admission.purpose record parts) env substitute
          entry.connection (some attemptId)
        generalize completeSend _ env substitute entry.connection (some attemptId) = tried
          at htries ⊢
        have heligible : ∃ x ∈ entry :: rest, broker.Eligible env admission x :=
          ⟨entry, mem_cons_self, hcontract, hpasses⟩
        cases htries with
        | unserved source hunserved _ => exact absurd hserved hunserved
        | refused error _ hanswer =>
          exact iff_of_false (fun h => h rfl) fun h => h.1 error (hid ▸ hanswer)
        | failed sent failure _ _ _ _ hanswer hentered _ _ =>
          have hlets : env.LetsIn (env.ids 0) :=
            fun error h => hentered error (hanswer.trans (hid ▸ h))
          refine iff_of_true ?_ ⟨hlets, heligible⟩
          cases failure with
          | ledger refusal => exact cons_ne_nil _ _
          | provider failure =>
            dsimp only
            split
            · exact cons_ne_nil _ _
            · exact cons_ne_nil _ _
        | settled sent account reply _ _ _ _ hanswer hsettled _ =>
          have hlets : env.LetsIn (env.ids 0) :=
            fun error h => hsettled.entered error (hanswer.trans (hid ▸ h))
          exact iff_of_true (cons_ne_nil _ _) ⟨hlets, heligible⟩

theorem fallbackOrFail_sent {source : ProviderError}
    (hcertain : providerOutcomeUnknown source = false) :
    (broker.fallbackOrFail digest env attemptId admission source).sent ≠ [] ↔
      env.LetsIn (env.ids 0) ∧ ∃ chain, admission.fallback = .auto chain ∧
        ∃ entry ∈ chain, broker.Eligible env admission entry := by
  unfold fallbackOrFail
  cases hfallback : admission.fallback with
  | off =>
    exact iff_of_false (fun h => h rfl) (by rintro ⟨-, chain, hchain, -⟩; cases hchain)
  | manual =>
    refine iff_of_false (fun h => h ?_) (by rintro ⟨-, chain, hchain, -⟩; cases hchain)
    dsimp only
    split <;> rfl
  | auto chain =>
    dsimp only
    rw [hcertain, if_neg Bool.false_ne_true, walkChain_sent]
    constructor
    · rintro ⟨hlets, heligible⟩
      exact ⟨hlets, chain, rfl, heligible⟩
    · rintro ⟨hlets, _, ⟨rfl⟩, heligible⟩
      exact ⟨hlets, heligible⟩

/-- A dispatch that passes its checks sends something exactly where it has a way to the provider. -/
theorem dispatch_sent {world : String} {manifest : RequestManifest}
    (hok : broker.authorise world manifest = .ok admission) :
    (broker.dispatch digest env world manifest).sent ≠ [] ↔
      broker.Reaches env admission manifest.attemptId := by
  unfold dispatch
  rw [hok]
  dsimp only
  have htries := tries_completeSend broker env manifest admission.connection none
  generalize completeSend broker env manifest admission.connection none = tried at htries ⊢
  cases htries with
  | unserved source hserved hcertain =>
    refine (fallbackOrFail_sent hcertain).trans ?_
    constructor
    · rintro ⟨hlets, hchain⟩
      exact .inr ⟨hserved, hlets, hchain⟩
    · rintro (⟨hserves, -⟩ | ⟨-, hlets, hchain⟩)
      · exact absurd hserves hserved
      · exact ⟨hlets, hchain⟩
  | refused error hserved hanswer =>
    refine iff_of_false (fun h => h rfl) ?_
    rintro (⟨-, hlets⟩ | ⟨hunserved, -⟩)
    · exact hlets error hanswer
    · exact hunserved hserved
  | failed sent failure hserved _ _ _ hanswer hentered _ _ =>
    have hreaches : broker.Reaches env admission manifest.attemptId :=
      .inl ⟨hserved, fun error h => hentered error (hanswer.trans h)⟩
    refine iff_of_true ?_ hreaches
    cases failure with
    | ledger refusal => exact cons_ne_nil _ _
    | provider source => exact cons_ne_nil _ _
  | settled sent account reply hserved _ _ _ hanswer hsettled _ =>
    exact iff_of_true (cons_ne_nil _ _)
      (.inl ⟨hserved, fun error h => hsettled.entered error (hanswer.trans h)⟩)

/-! ## Runs -/

namespace Trace

variable {t : Trace} {call : Surroundings × BrokerCall}

/-- A send for the attempt may have applied, and nothing recorded that it did. -/
def Uncertain (t : Trace) (attemptId : String) : Prop :=
  ∃ e ∈ t.log, e.For attemptId ∧ e.uncertain = true

/-- A step that is no human pick for the attempt. -/
def AutoStep (digest : String → String) (attemptId : String) (t : Trace)
    (call : Surroundings × BrokerCall) (t' : Trace) : Prop :=
  Step digest t call t' ∧ ∀ world connection, call.2 ≠ .choose world attemptId connection

/-- What every call of a run takes, in the state that it is made in. -/
def Throughout (digest : String → String) (attemptId : String) (start : Trace)
    (calls : List (Surroundings × BrokerCall)) (P : Trace → Surroundings × BrokerCall → Prop) :
    Prop :=
  ∀ pre call post before after, calls = pre ++ call :: post →
    Run (AutoStep digest attemptId) start pre before →
    AutoStep digest attemptId before call after → P before call

/-- A call that sends nothing for an attempt with an unknown outcome, and never to a connection that
its own or an earlier one refuses a retry on. -/
structure Stops (digest : String → String) (attemptId : String) (t : Trace)
    (call : Surroundings × BrokerCall) : Prop where
  ends : t.Uncertain attemptId → ∀ world manifest, call.2 = .dispatch world manifest →
    manifest.attemptId = attemptId → (t.broker.perform digest call.1 call.2).2 = []
  contract : (t.broker.perform digest call.1 call.2).2.Pairwise fun first later =>
    blindRetryRefused first.connection later.connection = false
  primary : ∀ e ∈ (t.broker.perform digest call.1 call.2).2, ∀ id admission,
    e.parent = some id → t.broker.admissions id = some admission →
    blindRetryRefused admission.connection e.connection = false

/-- A dispatch that passes its checks has no way to the provider once an outcome is unknown. -/
def Barred (attemptId : String) (t : Trace) (call : Surroundings × BrokerCall) : Prop :=
  t.Uncertain attemptId → ∀ world manifest admission, call.2 = .dispatch world manifest →
    manifest.attemptId = attemptId → t.broker.authorise world manifest = .ok admission →
    ¬ t.broker.Reaches call.1 admission attemptId

/-- The two contract clauses of a call that sends for one admitted attempt. -/
theorem contract_of_sends {attemptId : String} {admission : AdmissionRecord} {done : Done}
    (hadmitted : t.broker.admissions attemptId = some admission)
    (hsends : Sends digest t.broker env attemptId admission done) :
    (done.sent.Pairwise fun first later =>
      blindRetryRefused first.connection later.connection = false) ∧
    ∀ e ∈ done.sent, ∀ id other, e.parent = some id → t.broker.admissions id = some other →
      blindRetryRefused other.connection e.connection = false := by
  refine ⟨hsends.contract, ?_⟩
  intro e he id other hparent hother
  rcases hsends.each e he with hprimary | hsubstitute
  · cases hprimary.parent.symm.trans hparent
  · obtain rfl := mem_unique hsubstitute.parent hparent
    obtain rfl := mem_unique hadmitted hother
    exact hsubstitute.contract

theorem contract_of_lawful (hlaw : t.Lawful call.1) :
    ((t.broker.perform digest call.1 call.2).2.Pairwise fun first later =>
      blindRetryRefused first.connection later.connection = false) ∧
    ∀ e ∈ (t.broker.perform digest call.1 call.2).2, ∀ id admission,
      e.parent = some id → t.broker.admissions id = some admission →
      blindRetryRefused admission.connection e.connection = false := by
  have hsilent : ∀ sent : List Sent, sent = [] → (sent.Pairwise fun first later =>
      blindRetryRefused first.connection later.connection = false) ∧
      ∀ e ∈ sent, ∀ id admission, e.parent = some id → t.broker.admissions id = some admission →
        blindRetryRefused admission.connection e.connection = false := by
    rintro _ rfl
    exact ⟨.nil, fun _ he => absurd he not_mem_nil⟩
  obtain ⟨env, call⟩ := call
  cases call with
  | dispatch world manifest =>
    cases hok : t.broker.authorise world manifest with
    | error refusal =>
      refine hsilent _ ?_
      change (t.broker.dispatch digest env world manifest).sent = []
      unfold dispatch
      rw [hok]
    | ok admission =>
      have hadmitted := (authorise_ok hok).admitted
      exact contract_of_sends hadmitted
        (sends_dispatch hok hlaw.ids hlaw.free (hlaw.ids_ne hadmitted))
  | choose world attemptId connection =>
    cases hok : t.broker.authoriseChoice env world attemptId connection with
    | error refusal =>
      refine hsilent _ ?_
      change (t.broker.dispatchFallbackChoice digest env world attemptId connection).sent = []
      unfold dispatchFallbackChoice
      rw [hok]
    | ok admission =>
      exact contract_of_sends (authoriseChoice_ok hok).admitted
        (sends_dispatchFallbackChoice hok hlaw.ids hlaw.free)
  | prepare => exact hsilent _ rfl
  | cancel => exact hsilent _ rfl
  | take => exact hsilent _ rfl
  | setConfig => exact hsilent _ rfl
  | setRights => exact hsilent _ rfl

theorem stops_iff_barred (hlaw : t.Lawful call.1) {attemptId : String} :
    Stops digest attemptId t call ↔ Barred attemptId t call := by
  constructor
  · intro hstops huncertain world manifest admission hcall hid hok hreaches
    have hnone := hstops.ends huncertain world manifest hcall hid
    rw [hcall] at hnone
    exact (dispatch_sent hok).mpr (hid ▸ hreaches) hnone
  · intro hbarred
    obtain ⟨hcontract, hprimary⟩ := @contract_of_lawful digest t call hlaw
    refine ⟨fun huncertain world manifest hcall hid => ?_, hcontract, hprimary⟩
    rw [hcall]
    change (t.broker.dispatch digest call.1 world manifest).sent = []
    cases hok : t.broker.authorise world manifest with
    | error refusal =>
      unfold dispatch
      rw [hok]
    | ok admission =>
      by_contra hsent
      have hreaches := (dispatch_sent hok).mp hsent
      rw [hid] at hreaches
      exact hbarred huncertain world manifest admission hcall hid hok hreaches

/-- From any state, an unknown outcome ends the automatic sends of an attempt through a run exactly
where every later dispatch of it that passes its checks has no way to the provider. -/
theorem unknown_ends_iff (attemptId : String) (start : Trace)
    (calls : List (Surroundings × BrokerCall)) :
    Throughout digest attemptId start calls (Stops digest attemptId) ↔
      Throughout digest attemptId start calls (Barred attemptId) := by
  constructor
  · intro h pre call post before after hcalls hrun hstep
    exact (stops_iff_barred hstep.1.1).mp (h pre call post before after hcalls hrun hstep)
  · intro h pre call post before after hcalls hrun hstep
    exact (stops_iff_barred hstep.1.1).mpr (h pre call post before after hcalls hrun hstep)

/-! ## Where the attempt's own connection stays served -/

/-- A dispatch whose connection is served sends the attempt itself if it sends anything. -/
theorem dispatch_own {world : String} {manifest : RequestManifest} {admission : AdmissionRecord}
    {broker : Broker} (hok : broker.authorise world manifest = .ok admission)
    (hserved : broker.Servable env admission.connection) {e : Sent}
    (he : e ∈ (broker.dispatch digest env world manifest).sent) :
    ∃ own ∈ (broker.dispatch digest env world manifest).sent,
      own.attemptId = manifest.attemptId := by
  unfold dispatch at he ⊢
  rw [hok] at he ⊢
  dsimp only at he ⊢
  have htries := tries_completeSend broker env manifest admission.connection none
  generalize completeSend broker env manifest admission.connection none = tried at htries he ⊢
  have hid : ∀ sent : Sent, sent.manifest = manifest.narrowed admission.connection →
      sent.attemptId = manifest.attemptId := by
    intro sent hmanifest
    rw [Sent.attemptId, hmanifest, narrowed_attemptId]
  cases htries with
  | unserved source hunserved _ => exact absurd hserved hunserved
  | refused => cases he
  | failed sent failure _ hmanifest =>
    cases failure with
    | ledger refusal => exact ⟨sent, mem_cons_self, hid sent hmanifest⟩
    | provider source => exact ⟨sent, mem_cons_self, hid sent hmanifest⟩
  | settled sent record reply _ hmanifest =>
    exact ⟨sent, mem_cons_self, hid sent hmanifest⟩

/-- Every authorised dispatch of the attempt finds its own connection served. -/
def Served (attemptId : String) (t : Trace) (call : Surroundings × BrokerCall) : Prop :=
  ∀ world manifest admission, call.2 = .dispatch world manifest →
    manifest.attemptId = attemptId → t.broker.authorise world manifest = .ok admission →
    t.broker.Servable call.1 admission.connection

/-- Something was sent for the attempt only if the attempt itself was. -/
def Begun (attemptId : String) (t : Trace) : Prop :=
  (∃ e ∈ t.log, e.For attemptId) → ∃ e ∈ t.log, e.attemptId = attemptId

theorem begun_step {attemptId : String} {t' : Trace} (h : Begun attemptId t)
    (hstep : AutoStep digest attemptId t call t') (hserved : Served attemptId t call) :
    Begun attemptId t' := by
  obtain ⟨⟨hlaw, rfl⟩, hpick⟩ := hstep
  rintro ⟨e, he, hfor⟩
  rcases mem_append.mp he with hold | hnew
  · obtain ⟨own, hown, hid⟩ := h ⟨e, hold, hfor⟩
    exact ⟨own, mem_append_left _ hown, hid⟩
  rcases hfor with hid | hparent
  · exact ⟨e, he, hid⟩
  obtain ⟨env, call⟩ := call
  cases call with
  | dispatch world manifest =>
    change e ∈ (t.broker.dispatch digest env world manifest).sent at hnew
    cases hok : t.broker.authorise world manifest with
    | error refusal =>
      unfold dispatch at hnew
      rw [hok] at hnew
      cases hnew
    | ok admission =>
      have hids : ∀ n, env.ids n ≠ manifest.attemptId := by
        intro n hsame
        have hnone := (hlaw.free n).admissions
        rw [hsame] at hnone
        cases hnone.symm.trans (authorise_ok hok).admitted
      have hsends : Sends digest t.broker env manifest.attemptId admission
          (t.broker.dispatch digest env world manifest) :=
        sends_dispatch hok hlaw.ids hlaw.free hids
      rcases hsends.each e hnew with hprimary | hsubstitute
      · cases hprimary.parent.symm.trans hparent
      · have hid := mem_unique hsubstitute.parent hparent
        obtain ⟨own, hown, hownId⟩ :=
          dispatch_own hok (hserved world manifest admission rfl hid hok) hnew
        exact ⟨own, mem_append_right _ hown, hownId.trans hid⟩
  | choose world other connection =>
    have hid := mem_unique (choice_parent hnew) hparent
    exact absurd (by rw [hid]) (hpick world connection)
  | prepare => cases hnew
  | cancel => cases hnew
  | take => cases hnew
  | setConfig => cases hnew
  | setRights => cases hnew

theorem barred_of_begun {attemptId : String} (h : Begun attemptId t) (hlaw : t.Lawful call.1)
    (hserved : Served attemptId t call) : Barred attemptId t call := by
  rintro ⟨e, he, hfor, -⟩ world manifest admission hcall hid hok
  obtain ⟨own, hown, hownId⟩ := h ⟨e, he, hfor⟩
  obtain ⟨error, hrefused⟩ := hlaw.refuses own hown
  rw [hownId] at hrefused
  rintro (⟨-, hlets⟩ | ⟨hunserved, -⟩)
  · exact hlets error hrefused
  · exact hunserved (hserved world manifest admission hcall hid hok)

/-- In a run from a new broker whose dispatches of the attempt always find its own connection
served, an unknown outcome ends its automatic sends. -/
theorem unknown_ends_of_served {attemptId : String} {calls : List (Surroundings × BrokerCall)}
    (hserved : Throughout digest attemptId start calls (Served attemptId)) :
    Throughout digest attemptId start calls (Stops digest attemptId) := by
  have hbegun : ∀ pre post before, calls = pre ++ post →
      Run (AutoStep digest attemptId) start pre before → Begun attemptId before := by
    intro pre
    induction pre using reverseRecOn with
    | nil =>
      intro post before _ hrun
      cases hrun
      rintro ⟨e, he, -⟩
      cases he
    | append_singleton pre call ih =>
      intro post before hcalls hrun
      obtain ⟨mid, hpre, hlast⟩ := hrun.split
      rw [append_assoc, singleton_append] at hcalls
      cases hlast with
      | cons hstep hnil =>
        cases hnil
        exact begun_step (ih _ mid hcalls hpre) hstep
          (hserved pre call post mid _ hcalls hpre hstep)
  intro pre call post before after hcalls hrun hstep
  refine (stops_iff_barred hstep.1.1).mpr ?_
  exact barred_of_begun (hbegun pre _ before hcalls hrun) hstep.1.1
    (hserved pre call post before after hcalls hrun hstep)

def deadline (_ : String) : SendAnswer := .failed (.transport "local" .deadline) (.ok ())

/-- The attempt's own send ends with a deadline. -/
def dispatched : Trace :=
  (preparedFirst planRequest).next id (lettered 'b' deadline) (.dispatch "world" frozen)

def refusedAgain (_ : String) : SendAnswer := .refused (.budgetExhausted "")

theorem dispatched_broker : dispatched.broker = (preparedFirst planRequest).broker := by rfl

theorem lawful_dispatched : dispatched.Lawful (lettered 'c' refusedAgain) := by
  have h := lawful_prepared planRequest (by decide : 'c' ≠ 'a') refusedAgain
  have hsent : ∀ e ∈ dispatched.log, e.attemptId = "a" ∧ e.parent = none := by decide +kernel
  refine ⟨h.ids, dispatched_broker ▸ h.free, dispatched_broker ▸ h.unaccounted,
    dispatched_broker ▸ h.uncancelled, ?_, fun e _ => ⟨.budgetExhausted "", rfl⟩⟩
  intro n e he hfor
  obtain ⟨hid, hparent⟩ := hsent e he
  rcases hfor with hsame | hsame
  · exact lettered_ne (by decide : 'c' ≠ 'a') refusedAgain replied n 0 (hsame.symm.trans hid)
  · cases hparent.symm.trans hsame

theorem served_dispatched {broker : Broker} {admission : AdmissionRecord} {letter : Char}
    {answer : String → SendAnswer} (hbroker : broker = (preparedFirst planRequest).broker)
    (hok : broker.authorise "world" frozen = .ok admission) :
    broker.Servable (lettered letter answer) admission.connection := by
  subst hbroker
  have hlocal : some admission.connection = some "local" :=
    (congrArg (·.toOption.map (·.connection)) hok).symm.trans rfl
  rw [some.inj hlocal]
  exact ⟨_, rfl, rfl⟩

/-- The ledger refuses the attempt at its second dispatch, and nothing is sent. -/
theorem unknown_ends_of_served_plan : dispatched.Uncertain "a" ∧
    (dispatched.broker.perform id (lettered 'c' refusedAgain) (.dispatch "world" frozen)).2 =
      [] := by
  have huncertain : ∃ e ∈ dispatched.log, e.attemptId = "a" ∧ e.uncertain = true := by
    decide +kernel
  obtain ⟨e, he, hid, hunknown⟩ := huncertain
  have hstops := @unknown_ends_of_served id "a"
    [(lettered 'a' replied, .prepare planRequest),
      (lettered 'b' deadline, .dispatch "world" frozen),
      (lettered 'c' refusedAgain, .dispatch "world" frozen)] ?_
  · exact ⟨⟨e, he, .inl hid, hunknown⟩, (hstops [_, _] _ [] dispatched _ rfl
      (.cons ⟨⟨lawful_start 'a' replied, rfl⟩, nofun⟩
        (.cons ⟨⟨lawful_prepared planRequest (by decide) deadline, rfl⟩, nofun⟩ (.nil _)))
      ⟨⟨lawful_dispatched, rfl⟩, nofun⟩).ends ⟨e, he, .inl hid, hunknown⟩ "world" frozen rfl rfl⟩
  intro pre call post before after hcalls hrun _ world manifest admission hcall _ hok
  rcases pre with _ | ⟨first, _ | ⟨second, _ | ⟨third, pre⟩⟩⟩
  · cases hcalls
    cases hcall
  · cases hcalls
    cases hcall
    cases hrun with
    | cons hfirst hnil =>
      cases hnil
      obtain ⟨⟨-, rfl⟩, -⟩ := hfirst
      exact served_dispatched rfl hok
  · cases hcalls
    cases hcall
    cases hrun with
    | cons hfirst hrest =>
      cases hrest with
      | cons hsecond hnil =>
        cases hnil
        obtain ⟨⟨-, rfl⟩, -⟩ := hfirst
        obtain ⟨⟨-, rfl⟩, -⟩ := hsecond
        exact served_dispatched dispatched_broker hok
  · have hlength := congrArg List.length hcalls
    simp at hlength

/-! ## Where it does not -/

def twoViews : ConfigView :=
  ⟨[("local", ⟨.local, "", none, none, none⟩), ("spare", ⟨.local, "", none, none, none⟩)], [], []⟩

/-- The config without the connection that the attempt was admitted on. -/
def spareView : ConfigView := ⟨[("spare", ⟨.local, "", none, none, none⟩)], [], []⟩

def chained : PrepareRequest :=
  { planRequest with
    view := twoViews
    ranked := .ok (⟨.fixed ⟨"local", "model"⟩, "", .auto, "", .auto [⟨"spare", "model"⟩], ""⟩,
      ⟨"local", none, none, none⟩) }

def timesOut (_ : String) : SendAnswer := .failed (.transport "spare" .deadline) (.ok ())

/-- The ledger refuses the one attempt that was sent before. -/
def timesOutAgain (attemptId : String) : SendAnswer :=
  if attemptId = "c" then .refused (.budgetExhausted "") else timesOut attemptId

def withdrawn : Trace :=
  (preparedFirst chained).next id (lettered 'b' replied) (.setConfig spareView)

def walked : Trace := withdrawn.next id (lettered 'c' timesOut) (.dispatch "world" frozen)

theorem lawful_withdrawn {letter : Char} (hletter : letter ≠ 'a') (answer : String → SendAnswer) :
    withdrawn.Lawful (lettered letter answer) := by
  have h := lawful_prepared chained hletter answer
  exact ⟨h.ids, fun n => ⟨(h.free n).admissions, (h.free n).pending, (h.free n).paused⟩,
    h.unaccounted, h.uncancelled, (fun _ _ he => by cases he), (fun _ he => by cases he)⟩

theorem walked_unspent :
    walked.broker.admissions = withdrawn.broker.admissions ∧
      walked.broker.accounting = withdrawn.broker.accounting ∧
      walked.broker.cancelled = withdrawn.broker.cancelled ∧
      walked.broker.paused = withdrawn.broker.paused ∧
      walked.broker.pending = withdrawn.broker.pending := by
  have hlaw := lawful_withdrawn (by decide : 'c' ≠ 'a') timesOut
  have hfallback : (withdrawn.broker.authorise "world" frozen).toOption.map
      AdmissionRecord.fallback = some (.auto [⟨"spare", "model"⟩]) := by decide +kernel
  cases hok : withdrawn.broker.authorise "world" frozen with
  | error refusal =>
    rw [hok] at hfallback
    cases hfallback
  | ok admission =>
    rw [hok] at hfallback
    have hauto := some.inj hfallback
    have hsends : Sends id withdrawn.broker (lettered 'c' timesOut) "a" admission
        (withdrawn.broker.dispatch id (lettered 'c' timesOut) "world" frozen) :=
      sends_dispatch hok hlaw.ids hlaw.free
        fun n => lettered_ne (by decide : 'c' ≠ 'a') timesOut replied n 0
    rcases hsends.concludes with ⟨-, -, hsame⟩ | ⟨-, front, e, hsent, -, ⟨reply, hreply⟩, -⟩
    · rcases hsame.pauses with ⟨hpaused, hpending⟩ | ⟨hmanual, -⟩
      · exact ⟨hsame.admissions, hsame.accounting, hsame.cancelled, hpaused, hpending⟩
      · cases hauto.symm.trans hmanual
    · have he : e ∈ (withdrawn.broker.dispatch id (lettered 'c' timesOut) "world" frozen).sent := by
        rw [hsent]
        exact mem_append_right _ mem_cons_self
      cases hreply.symm.trans (hsends.answers e he).1

theorem lawful_walked : walked.Lawful (lettered 'd' timesOutAgain) := by
  have h := lawful_withdrawn (by decide : 'd' ≠ 'a') timesOutAgain
  obtain ⟨hadmissions, haccounting, hcancelled, hpaused, hpending⟩ := walked_unspent
  have hsent : ∀ e ∈ walked.log, e.attemptId = "c" ∧ e.parent = some "a" := by decide +kernel
  refine ⟨h.ids, ?_, ?_, ?_, ?_, ?_⟩
  · intro n
    refine ⟨?_, ?_, ?_⟩
    · rw [hadmissions]
      exact (h.free n).admissions
    · rw [hpending]
      exact (h.free n).pending
    · rw [hpaused]
      exact (h.free n).paused
  · intro n
    rw [haccounting]
    exact h.unaccounted n
  · intro n
    rw [hcancelled]
    exact h.uncancelled n
  · intro n e he hfor
    obtain ⟨hid, hparent⟩ := hsent e he
    rcases hfor with hsame | hsame
    · exact lettered_ne (by decide : 'd' ≠ 'c') timesOutAgain replied n 0 (hsame.symm.trans hid)
    · have := mem_unique hsame hparent
      exact lettered_ne (by decide : 'd' ≠ 'a') timesOutAgain replied n 0 this
  · intro e he
    rw [(hsent e he).1]
    exact ⟨.budgetExhausted "", rfl⟩

/-- The attempt's connection is gone, its first substitute times out, and a second dispatch sends
another. -/
theorem second_walk_sends : ¬ ∀ (digest : String → String) (attemptId : String)
    (calls : List (Surroundings × BrokerCall)),
    Throughout digest attemptId start calls (Stops digest attemptId) := by
  intro h
  have hstop := h id "a" [(lettered 'a' replied, .prepare chained),
    (lettered 'b' replied, .setConfig spareView), (lettered 'c' timesOut, .dispatch "world" frozen),
    (lettered 'd' timesOutAgain, .dispatch "world" frozen)]
    [(lettered 'a' replied, .prepare chained), (lettered 'b' replied, .setConfig spareView),
      (lettered 'c' timesOut, .dispatch "world" frozen)]
    (lettered 'd' timesOutAgain, .dispatch "world" frozen) [] walked _ rfl
    (.cons ⟨⟨lawful_start 'a' replied, rfl⟩, nofun⟩
      (.cons ⟨⟨lawful_prepared chained (by decide) replied, rfl⟩, nofun⟩
        (.cons ⟨⟨lawful_withdrawn (by decide) timesOut, rfl⟩, nofun⟩ (.nil _))))
    ⟨⟨lawful_walked, rfl⟩, nofun⟩
  have huncertain : ∃ e ∈ walked.log, e.parent = some "a" ∧ e.uncertain = true := by
    decide +kernel
  obtain ⟨e, he, hparent, hunknown⟩ := huncertain
  have hnone := hstop.ends ⟨e, he, .inr hparent, hunknown⟩ "world" frozen rfl rfl
  have hsends : (walked.broker.perform id (lettered 'd' timesOutAgain)
      (.dispatch "world" frozen)).2.length = 1 := by decide +kernel
  rw [hnone] at hsends
  cases hsends

end Trace

end Rivect.Broker
