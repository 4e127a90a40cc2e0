import Rivect.Broker.Sends
import Rivect.Lib.Run

/-! # Single accounting over whole runs

A broker beside the log of what it handed to the provider. Attempt ids are generated, so a call's
new ids are known to no table and to no earlier send, and the ledger begins no attempt twice.
-/

namespace Rivect.Broker

open Lib Function List Option

/-- The send carries the task data of the attempt: it is its own, or a substitute's. -/
def Sent.For (e : Sent) (attemptId : String) : Prop :=
  e.attemptId = attemptId ∨ e.parent = some attemptId

structure Trace where
  broker : Broker
  log : List Sent

namespace Trace

variable {digest : String → String} {env : Surroundings} {t t' : Trace}

def start : Trace := ⟨new, []⟩

def next (digest : String → String) (t : Trace) (env : Surroundings) (call : BrokerCall) : Trace :=
  let done := t.broker.perform digest env call
  ⟨done.1, t.log ++ done.2⟩

/-- The ids that a call generates are new, and the ledger refuses a second begin. -/
structure Lawful (t : Trace) (env : Surroundings) : Prop where
  ids : Injective env.ids
  free : ∀ n, t.broker.Free (env.ids n)
  unaccounted : ∀ n, t.broker.accounting (env.ids n) = none
  uncancelled : ∀ n, env.ids n ∉ t.broker.cancelled
  unsent : ∀ n, ∀ e ∈ t.log, ¬ e.For (env.ids n)
  refuses : ∀ e ∈ t.log, ∃ error, env.answer e.attemptId = .refused error

theorem Lawful.ids_ne (hlaw : t.Lawful env) {attemptId : String} {admission : AdmissionRecord}
    (hadmitted : t.broker.admissions attemptId = some admission) (n : ℕ) :
    env.ids n ≠ attemptId := by
  rintro rfl
  cases (hlaw.free n).admissions.symm.trans hadmitted

def Step (digest : String → String) (t : Trace) (call : Surroundings × BrokerCall) (t' : Trace) :
    Prop :=
  t.Lawful call.1 ∧ t' = t.next digest call.1 call.2

/-- What the tables say of each attempt, beside the log. -/
structure Accounts (t : Trace) : Prop where
  named : ∀ id admission, t.broker.admissions id = some admission →
    admission.manifest.attemptId = id
  paused : ∀ id served, t.broker.paused id = some served →
    ∃ admission, t.broker.admissions id = some admission ∧ admission.fallback = .manual
  pending : ∀ id choice, t.broker.pending id = some choice → t.broker.paused id ≠ none
  unspent : ∀ id admission, t.broker.admissions id = some admission →
    t.broker.accounting id = none ∧ id ∉ t.broker.cancelled
  once : (t.log.map Sent.attemptId).Nodup
  accounting : ∀ id, t.broker.accounting id ≠ none ↔ ∃ e ∈ t.log, e.attemptId = id ∧ e.Settled
  spent : ∀ e ∈ t.log, e.Settled → ∀ id, e.For id → t.broker.admissions id = none

theorem accounts_start : Accounts start where
  named _ _ h := by cases h
  paused _ _ h := by cases h
  pending _ _ h := by cases h
  unspent _ _ h := by cases h
  once := .nil
  accounting id := ⟨fun h => absurd rfl h, by rintro ⟨e, he, -⟩; cases he⟩
  spent _ he := by cases he

/-! ## A call that sends -/

section Sending

variable {attemptId : String} {admission : AdmissionRecord} {done : Done}

theorem Accounts.sent_id (h : t.Accounts)
    (hadmitted : t.broker.admissions attemptId = some admission)
    (hsends : Sends digest t.broker env attemptId admission done) {e : Sent} (he : e ∈ done.sent) :
    (e.attemptId = attemptId ∧ e.parent = none) ∨
      (∃ n, e.attemptId = env.ids n) ∧ e.parent = some attemptId := by
  rcases hsends.each e he with hprimary | hsubstitute
  · refine .inl ⟨?_, hprimary.parent⟩
    rw [Sent.attemptId, hprimary.manifest, narrowed_attemptId, h.named _ _ hadmitted]
  · exact .inr ⟨hsubstitute.minted, hsubstitute.parent⟩

theorem Accounts.sent_new (h : t.Accounts) (hlaw : t.Lawful env)
    (hadmitted : t.broker.admissions attemptId = some admission)
    (hsends : Sends digest t.broker env attemptId admission done) {e : Sent} (he : e ∈ done.sent) :
    ∀ e' ∈ t.log, e'.attemptId ≠ e.attemptId := by
  intro e' he' hsame
  rcases h.sent_id hadmitted hsends he with ⟨hid, -⟩ | ⟨⟨n, hn⟩, -⟩
  · obtain ⟨hanswer, hentered⟩ := hsends.answers e he
    obtain ⟨error, hrefused⟩ := hlaw.refuses e' he'
    rw [hsame, ← hanswer] at hrefused
    exact hentered error hrefused
  · exact hlaw.unsent n e' he' (.inl (hsame.trans hn))

theorem Accounts.once_after (h : t.Accounts) (hlaw : t.Lawful env)
    (hadmitted : t.broker.admissions attemptId = some admission)
    (hsends : Sends digest t.broker env attemptId admission done) :
    ((t.log ++ done.sent).map Sent.attemptId).Nodup := by
  rw [map_append, nodup_append]
  refine ⟨h.once, hsends.distinct, ?_⟩
  rintro _ hold _ hnew
  obtain ⟨e', he', rfl⟩ := mem_map.mp hold
  obtain ⟨e, he, rfl⟩ := mem_map.mp hnew
  exact h.sent_new hlaw hadmitted hsends he e' he'

/-- A call that settles nothing leaves what was accounted as it was. -/
theorem Accounts.keeps (h : t.Accounts) (hadmitted : t.broker.admissions attemptId = some admission)
    (honce : ((t.log ++ done.sent).map Sent.attemptId).Nodup)
    (hopen : ∀ e ∈ done.sent, ¬ e.Settled)
    (hsame : Unspent t.broker done.broker attemptId admission) :
    Accounts ⟨done.broker, t.log ++ done.sent⟩ where
  named id admission' := by
    rw [hsame.admissions]
    exact h.named id admission'
  paused id served hpaused := by
    rw [hsame.admissions]
    rcases hsame.pauses with ⟨hkept, -⟩ | ⟨hmanual, _, _, hpauses, -⟩
    · rw [hkept] at hpaused
      exact h.paused id served hpaused
    · by_cases hid : id = attemptId
      · exact ⟨admission, hid ▸ hadmitted, hmanual⟩
      · rw [hpauses, update_of_ne hid] at hpaused
        exact h.paused id served hpaused
  pending id choice hpending := by
    rcases hsame.pauses with ⟨hkept, hkept'⟩ | ⟨-, _, _, hpauses, hpends⟩
    · rw [hkept'] at hpending
      rw [hkept]
      exact h.pending id choice hpending
    · rw [hpauses]
      by_cases hid : id = attemptId
      · rw [hid, update_self]
        exact some_ne_none _
      · rw [hpends, update_of_ne hid] at hpending
        rw [update_of_ne hid]
        exact h.pending id choice hpending
  unspent id admission' := by
    rw [hsame.admissions, hsame.accounting, hsame.cancelled]
    exact h.unspent id admission'
  once := honce
  accounting id := by
    rw [hsame.accounting, h.accounting id]
    constructor
    · rintro ⟨e, he, hid, hsettled⟩
      exact ⟨e, mem_append_left _ he, hid, hsettled⟩
    · rintro ⟨e, he, hid, hsettled⟩
      rcases mem_append.mp he with he | he
      · exact ⟨e, he, hid, hsettled⟩
      · exact absurd hsettled (hopen e he)
  spent e he hsettled := by
    rw [hsame.admissions]
    rcases mem_append.mp he with he | he
    · exact h.spent e he hsettled
    · exact absurd hsettled (hopen e he)

/-- A call whose last send settles accounts that send and spends the attempt. -/
theorem Accounts.spends (h : t.Accounts) (hlaw : t.Lawful env)
    (hadmitted : t.broker.admissions attemptId = some admission)
    (honce : ((t.log ++ done.sent).map Sent.attemptId).Nodup)
    {front : List Sent} {e : Sent} (hsent : done.sent = front ++ [e])
    (hid : (e.attemptId = attemptId ∧ e.parent = none) ∨
      (∃ n, e.attemptId = env.ids n) ∧ e.parent = some attemptId)
    (hfront : ∀ e ∈ front, ¬ e.Settled) (hsettled : e.Settled)
    (hspends : Spends digest t.broker done.broker attemptId admission e) :
    Accounts ⟨done.broker, t.log ++ done.sent⟩ := by
  obtain ⟨record, -, haccounting⟩ := hspends.accounting
  -- the call takes one admission away and adds none
  have hgone : ∀ id, t.broker.admissions id = none → done.broker.admissions id = none := by
    intro id hnone
    rw [hspends.admissions]
    by_cases hsame : id = attemptId
    · rw [hsame, update_self]
    · rw [update_of_ne hsame, hnone]
  have hspent : done.broker.admissions attemptId = none := by
    rw [hspends.admissions, update_self]
  have hown : done.broker.admissions e.attemptId = none := by
    rcases hid with ⟨hsame, -⟩ | ⟨⟨n, hn⟩, -⟩
    · rwa [hsame]
    · exact hgone _ (hn ▸ (hlaw.free n).admissions)
  have hadmissions : ∀ id admission', done.broker.admissions id = some admission' →
      id ≠ attemptId ∧ id ≠ e.attemptId ∧ t.broker.admissions id = some admission' := by
    intro id admission' hsome
    have hne : id ≠ attemptId := by
      rintro rfl
      cases hspent.symm.trans hsome
    have hne' : id ≠ e.attemptId := by
      rintro rfl
      cases hown.symm.trans hsome
    rw [hspends.admissions, update_of_ne hne] at hsome
    exact ⟨hne, hne', hsome⟩
  -- the pause of the attempt is cleared, or it had none because its fallback is not manual
  have hpaused : ∀ id served, done.broker.paused id = some served →
      t.broker.paused id = some served ∧ id ≠ attemptId := by
    intro id served hsome
    rcases hspends.pauses with ⟨hcleared, -⟩ | ⟨hauto, hkept, -⟩
    · have hne : id ≠ attemptId := by
        rintro rfl
        rw [hcleared, update_self] at hsome
        cases hsome
      rw [hcleared, update_of_ne hne] at hsome
      exact ⟨hsome, hne⟩
    · rw [hkept] at hsome
      refine ⟨hsome, ?_⟩
      rintro rfl
      obtain ⟨admission', hadmitted', hmanual⟩ := h.paused id served hsome
      obtain rfl := mem_unique hadmitted hadmitted'
      exact hauto hmanual
  refine ⟨?_, ?_, ?_, ?_, honce, ?_, ?_⟩
  · exact fun id admission' hsome => h.named id admission' (hadmissions id admission' hsome).2.2
  · intro id served hsome
    obtain ⟨hsome, hne⟩ := hpaused id served hsome
    rw [hspends.admissions, update_of_ne hne]
    exact h.paused id served hsome
  · intro id choice hsome
    rcases hspends.pauses with ⟨hcleared, hcleared'⟩ | ⟨-, hkept, hkept'⟩
    · have hne : id ≠ attemptId := by
        rintro rfl
        rw [hcleared', update_self] at hsome
        cases hsome
      rw [hcleared', update_of_ne hne] at hsome
      rw [hcleared, update_of_ne hne]
      exact h.pending id choice hsome
    · rw [hkept'] at hsome
      rw [hkept]
      exact h.pending id choice hsome
  · intro id admission' hsome
    obtain ⟨-, hne, hsome⟩ := hadmissions id admission' hsome
    obtain ⟨hopen, hlive⟩ := h.unspent id admission' hsome
    rw [haccounting, update_of_ne hne, hspends.cancelled]
    exact ⟨hopen, hlive⟩
  · intro id
    rw [haccounting]
    by_cases hsame : id = e.attemptId
    · rw [hsame, update_self]
      refine iff_of_true (some_ne_none _) ⟨e, ?_, rfl, hsettled⟩
      rw [hsent]
      simp
    · rw [update_of_ne hsame, h.accounting id]
      constructor
      · rintro ⟨x, hx, hxid, hxsettled⟩
        exact ⟨x, mem_append_left _ hx, hxid, hxsettled⟩
      · rintro ⟨x, hx, rfl, hxsettled⟩
        rcases mem_append.mp hx with hx | hx
        · exact ⟨x, hx, rfl, hxsettled⟩
        · rw [hsent] at hx
          rcases mem_append.mp hx with hx | hx
          · exact absurd hxsettled (hfront x hx)
          · exact absurd (congrArg Sent.attemptId (mem_singleton.mp hx)) hsame
  · intro x hx hxsettled id hfor
    rcases mem_append.mp hx with hx | hx
    · exact hgone id (h.spent x hx hxsettled id hfor)
    · rw [hsent] at hx
      rcases mem_append.mp hx with hx | hx
      · exact absurd hxsettled (hfront x hx)
      · rw [mem_singleton.mp hx] at hfor
        rcases hfor with rfl | hparent
        · exact hown
        · rcases hid with ⟨-, hnone⟩ | ⟨-, hsome⟩
          · cases hnone.symm.trans hparent
          · obtain rfl := mem_unique hsome hparent
            exact hspent

theorem Accounts.sends (h : t.Accounts) (hlaw : t.Lawful env)
    (hadmitted : t.broker.admissions attemptId = some admission)
    (hsends : Sends digest t.broker env attemptId admission done) :
    Accounts ⟨done.broker, t.log ++ done.sent⟩ := by
  have honce := h.once_after hlaw hadmitted hsends
  rcases hsends.concludes with ⟨-, hopen, hsame⟩ | ⟨-, front, e, hsent, hfront, hsettled, hspends⟩
  · exact h.keeps hadmitted honce hopen hsame
  · have he : e ∈ done.sent := by
      rw [hsent]
      simp
    exact h.spends hlaw hadmitted honce hsent (h.sent_id hadmitted hsends he) hfront hsettled
      hspends

end Sending

/-! ## The other calls -/

/-- A prepare is refused, or admits one attempt under the first of its new ids. -/
theorem prepare_cases (broker : Broker) (request : PrepareRequest) :
    (broker.prepare digest env request).1 = broker ∨
      ∃ admission epochs view bound, admission.manifest.attemptId = env.ids 0 ∧
        (broker.prepare digest env request).1 =
          { broker with
            epochs := epochs
            view := view
            admissions := update broker.admissions (env.ids 0) (some admission)
            boundProfile := bound } := by
  unfold Broker.prepare
  split
  · rename_i prepared manifest hprepared
    obtain ⟨instructions, -, hprepared⟩ := bind_eq_ok hprepared
    obtain ⟨ranked, -, hprepared⟩ := bind_eq_ok hprepared
    obtain ⟨_, -, hprepared⟩ := bind_eq_ok hprepared
    cases hprepared
    exact .inr ⟨_, _, _, _, rfl, rfl⟩
  · exact .inl rfl

/-- A call that sends nothing and moves no table but the epochs and the config. -/
theorem Accounts.congr (h : t.Accounts) {broker : Broker}
    (hadmissions : broker.admissions = t.broker.admissions)
    (haccounting : broker.accounting = t.broker.accounting)
    (hcancelled : broker.cancelled = t.broker.cancelled)
    (hpaused : broker.paused = t.broker.paused)
    (hpending : ∀ id choice, broker.pending id = some choice → t.broker.pending id = some choice) :
    Accounts ⟨broker, t.log⟩ where
  named := hadmissions ▸ h.named
  paused := hadmissions ▸ hpaused ▸ h.paused
  pending id choice hsome := hpaused ▸ h.pending id choice (hpending id choice hsome)
  unspent := hadmissions ▸ haccounting ▸ hcancelled ▸ h.unspent
  once := h.once
  accounting := haccounting ▸ h.accounting
  spent := hadmissions ▸ h.spent

theorem Accounts.prepare (h : t.Accounts) (hlaw : t.Lawful env) (request : PrepareRequest) :
    Accounts ⟨(t.broker.prepare digest env request).1, t.log⟩ := by
  rcases prepare_cases t.broker request with
    hsame | ⟨admission, epochs, view, bound, hid, hprepared⟩
  · rw [hsame]
    exact h
  · rw [hprepared]
    have hadmissions : ∀ id admission',
        update t.broker.admissions (env.ids 0) (some admission) id = some admission' →
        id = env.ids 0 ∧ admission' = admission ∨ t.broker.admissions id = some admission' := by
      intro id admission' hsome
      by_cases hnew : id = env.ids 0
      · rw [hnew, update_self] at hsome
        exact .inl ⟨hnew, (some.inj hsome).symm⟩
      · rw [update_of_ne hnew] at hsome
        exact .inr hsome
    refine ⟨?_, ?_, h.pending, ?_, h.once, h.accounting, ?_⟩
    · intro id admission' hsome
      rcases hadmissions id admission' hsome with ⟨rfl, rfl⟩ | hold
      · exact hid
      · exact h.named id admission' hold
    · intro id served hsome
      obtain ⟨admission', hold, hmanual⟩ := h.paused id served hsome
      have hne : id ≠ env.ids 0 := by
        rintro rfl
        cases (hlaw.free 0).admissions.symm.trans hold
      exact ⟨admission', (update_of_ne hne _ _).trans hold, hmanual⟩
    · intro id admission' hsome
      rcases hadmissions id admission' hsome with ⟨rfl, -⟩ | hold
      · exact ⟨hlaw.unaccounted 0, hlaw.uncancelled 0⟩
      · exact h.unspent id admission' hold
    · intro e he hsettled id hfor
      have hne : id ≠ env.ids 0 := by
        rintro rfl
        exact hlaw.unsent 0 e he hfor
      exact (update_of_ne hne _ _).trans (h.spent e he hsettled id hfor)

theorem Accounts.cancel (h : t.Accounts) (attemptId : String) :
    Accounts ⟨(t.broker.cancelAttempt attemptId).1, t.log⟩ := by
  unfold cancelAttempt
  split
  · exact h
  split
  · exact h
  · have hrest : ∀ {β : Type} {table : String → Option β} {id : String} {entry : β},
        update table attemptId none id = some entry → id ≠ attemptId ∧ table id = some entry := by
      intro β table id entry hsome
      have hne : id ≠ attemptId := by
        rintro rfl
        rw [update_self] at hsome
        cases hsome
      exact ⟨hne, (update_of_ne hne _ _).symm.trans hsome⟩
    refine ⟨?_, ?_, ?_, ?_, h.once, h.accounting, ?_⟩
    · exact fun id admission hsome => h.named id admission (hrest hsome).2
    · intro id served hsome
      obtain ⟨hne, hsome⟩ := hrest hsome
      obtain ⟨admission, hadmitted, hmanual⟩ := h.paused id served hsome
      exact ⟨admission, (update_of_ne hne _ _).trans hadmitted, hmanual⟩
    · intro id choice hsome
      obtain ⟨hne, hsome⟩ := hrest hsome
      exact (update_of_ne hne none t.broker.paused).trans_ne (h.pending id choice hsome)
    · intro id admission hsome
      obtain ⟨hne, hsome⟩ := hrest hsome
      obtain ⟨hopen, hlive⟩ := h.unspent id admission hsome
      refine ⟨hopen, fun hmem => ?_⟩
      rcases mem_cons.mp hmem with hsame | hmem
      · exact hne hsame
      · exact hlive hmem
    · intro e he hsettled id hfor
      change update t.broker.admissions attemptId none id = none
      by_cases hsame : id = attemptId
      · rw [hsame, update_self]
      · exact (update_of_ne hsame _ _).trans (h.spent e he hsettled id hfor)

theorem Accounts.take (h : t.Accounts) (attemptId : String) :
    Accounts ⟨(t.broker.takePendingChoice attemptId).1, t.log⟩ := by
  refine h.congr rfl rfl rfl rfl fun id choice hsome => ?_
  change update t.broker.pending attemptId none id = some choice at hsome
  by_cases hsame : id = attemptId
  · rw [hsame, update_self] at hsome
    cases hsome
  · rwa [update_of_ne hsame] at hsome

theorem Accounts.setRights (h : t.Accounts) (rights : List String) :
    Accounts ⟨t.broker.setAccountRights rights, t.log⟩ := by
  unfold setAccountRights
  split
  · exact h
  · exact h.congr rfl rfl rfl rfl fun _ _ => id

/-! ## One call -/

/-- The admission is neither cancelled nor accounted. -/
structure Standing (broker : Broker) (attemptId : String) (admission : AdmissionRecord) : Prop where
  admitted : broker.admissions attemptId = some admission
  uncancelled : attemptId ∉ broker.cancelled
  unaccounted : broker.accounting attemptId = none

/-- The entitlement that the admission was frozen with still stands. -/
structure Current (broker : Broker) (admission : AdmissionRecord) : Prop where
  version : broker.entitlements.version = admission.snapshotVersion
  rights : broker.entitlements.allows admission.connection = true

/-- What allows a call to hand a manifest to the provider. -/
inductive Warranted (broker : Broker) (env : Surroundings) (call : BrokerCall) (e : Sent) : Prop
  | primary {admission : AdmissionRecord} (hparent : e.parent = none)
      (hstands : Standing broker e.attemptId admission) (hcurrent : Current broker admission)
      (hmanifest : e.manifest = admission.manifest.narrowed e.connection)
      (hconnection : e.connection = admission.connection)
  | substitute {attemptId : String} {admission : AdmissionRecord}
      (hparent : e.parent = some attemptId) (hstands : Standing broker attemptId admission)
      (hminted : ∃ n, e.attemptId = env.ids n) (htask : SameTask e.manifest admission.manifest)
      (hpasses : broker.candidateRejection env admission.purpose e.connection = none)
      (hcall : Current broker admission ∨
        ∃ world connection, call = .choose world attemptId connection)

theorem Warranted.stopped (hlaw : t.Lawful env) {call : BrokerCall} {e : Sent}
    (h : Warranted t.broker env call e) {id : String} (hcancelled : id ∈ t.broker.cancelled) :
    ¬ e.For id := by
  rintro (rfl | hfor)
  · cases h with
    | primary _ hstands _ _ _ => exact hstands.uncancelled hcancelled
    | substitute _ _ hminted _ _ _ =>
      obtain ⟨n, hn⟩ := hminted
      exact hlaw.uncancelled n (hn ▸ hcancelled)
  · cases h with
    | primary hparent _ _ _ _ => cases hparent.symm.trans hfor
    | substitute hparent hstands _ _ _ _ =>
      obtain rfl := mem_unique hparent hfor
      exact hstands.uncancelled hcancelled

/-- The calls that may reach the provider. -/
def Dispatches : BrokerCall → Prop
  | .dispatch .. | .choose .. => True
  | _ => False

/-- What a call that may send left: nothing, or the account of the send that settled. -/
inductive Leaves (broker broker' : Broker) (sent : List Sent) : Prop
  | nothing (hopen : ∀ e ∈ sent, ¬ e.Settled) (hepochs : broker'.epochs = broker.epochs)
      (hadmissions : broker'.admissions = broker.admissions)
      (haccounting : broker'.accounting = broker.accounting)
      (hcancelled : broker'.cancelled = broker.cancelled)
  | account {front : List Sent} {e : Sent} {attemptId : String} {record : AccountingRecord}
      (hsent : sent = front ++ [e]) (hfront : ∀ e ∈ front, ¬ e.Settled) (hsettled : e.Settled)
      (hfor : e.For attemptId) (hrecord : record.attemptId = e.attemptId)
      (hnew : broker.accounting e.attemptId = none)
      (hadmissions : broker'.admissions = update broker.admissions attemptId none)
      (haccounting : broker'.accounting = update broker.accounting e.attemptId (some record))
      (hcancelled : broker'.cancelled = broker.cancelled)

/-- What one call keeps to. -/
structure Keeps (digest : String → String) (t : Trace) (env : Surroundings) (call : BrokerCall) :
    Prop where
  accounts : (t.next digest env call).Accounts
  warranted : ∀ e ∈ (t.broker.perform digest env call).2, Warranted t.broker env call e
  answers : ∀ e ∈ (t.broker.perform digest env call).2,
    e.answer = env.answer e.attemptId ∧ e.Entered
  leaves : Dispatches call →
    Leaves t.broker (t.next digest env call).broker (t.broker.perform digest env call).2
  cancelled : t.broker.cancelled ⊆ (t.next digest env call).broker.cancelled
  stopped : ∀ id ∈ t.broker.cancelled, ∀ e ∈ (t.broker.perform digest env call).2, ¬ e.For id
  recorded : ∀ id record, t.broker.accounting id = some record →
    (t.next digest env call).broker.accounting id = some record
  final : ∀ e ∈ t.log, e.Settled → ∀ id, e.For id →
    ∀ later ∈ (t.broker.perform digest env call).2, ¬ later.For id

theorem Keeps.silent {call : BrokerCall} (haccounts : (t.next digest env call).Accounts)
    (hleaves : Dispatches call → Leaves t.broker (t.broker.perform digest env call).1 [])
    (hsent : (t.broker.perform digest env call).2 = [])
    (haccounting : (t.broker.perform digest env call).1.accounting = t.broker.accounting)
    (hcancelled : t.broker.cancelled ⊆ (t.broker.perform digest env call).1.cancelled) :
    Keeps digest t env call where
  accounts := haccounts
  warranted := by
    rw [hsent]
    exact fun _ he => absurd he not_mem_nil
  answers := by
    rw [hsent]
    exact fun _ he => absurd he not_mem_nil
  leaves hcall := by
    rw [hsent]
    exact hleaves hcall
  cancelled := hcancelled
  stopped := by
    rw [hsent]
    exact fun _ _ _ he => absurd he not_mem_nil
  recorded id record hsome := (congrFun haccounting id).trans hsome
  final := by
    rw [hsent]
    exact fun _ _ _ _ _ _ he => absurd he not_mem_nil

theorem Leaves.cancelled {broker broker' : Broker} {sent : List Sent}
    (h : Leaves broker broker' sent) : broker'.cancelled = broker.cancelled := by
  cases h with
  | nothing _ _ _ _ hcancelled => exact hcancelled
  | account _ _ _ _ _ _ _ _ hcancelled => exact hcancelled

theorem Leaves.recorded {broker broker' : Broker} {sent : List Sent}
    (h : Leaves broker broker' sent) {id : String} {record : AccountingRecord}
    (hsome : broker.accounting id = some record) : broker'.accounting id = some record := by
  cases h with
  | nothing _ _ _ haccounting _ => rwa [haccounting]
  | @account _ e _ _ _ _ _ _ _ hnew _ haccounting _ =>
    have hne : id ≠ e.attemptId := by
      rintro rfl
      cases hnew.symm.trans hsome
    rwa [haccounting, update_of_ne hne]

section Sending

variable {attemptId : String} {admission : AdmissionRecord} {done : Done}

section

variable (h : t.Accounts) (hlaw : t.Lawful env) (hadmitted : t.broker.admissions attemptId = some admission) (hsends : Sends digest t.broker env attemptId admission done)
include h hlaw hadmitted hsends

theorem Accounts.leaves :
    Leaves t.broker done.broker done.sent := by
  rcases hsends.concludes with ⟨-, hopen, hsame⟩ | ⟨-, front, e, hsent, hfront, hsettled, hspends⟩
  · exact .nothing hopen hsame.epochs hsame.admissions hsame.accounting hsame.cancelled
  · have he : e ∈ done.sent := by
      rw [hsent]
      simp
    obtain ⟨record, hrecord, haccounting⟩ := hspends.accounting
    have hfor : e.For attemptId := by
      rcases h.sent_id hadmitted hsends he with ⟨hid, -⟩ | ⟨-, hparent⟩
      · exact .inl hid
      · exact .inr hparent
    have hnew : t.broker.accounting e.attemptId = none := by
      by_contra hsome
      obtain ⟨e', he', hid, -⟩ := (h.accounting _).mp hsome
      exact h.sent_new hlaw hadmitted hsends he e' he' hid
    exact .account hsent hfront hsettled hfor hrecord hnew hspends.admissions haccounting
      hspends.cancelled

/-- No send of the call is for an attempt that an earlier send settled. -/
theorem Accounts.final {e : Sent} (he : e ∈ t.log)
    (hsettled : e.Settled) {id : String} (hfor : e.For id) {later : Sent}
    (hlater : later ∈ done.sent) : ¬ later.For id := by
  have hspent := h.spent e he hsettled id hfor
  have hne : attemptId ≠ id := by
    rintro rfl
    cases hspent.symm.trans hadmitted
  rintro hfor'
  rcases h.sent_id hadmitted hsends hlater with ⟨hid, hparent⟩ | ⟨⟨n, hn⟩, hparent⟩
  · rcases hfor' with hsame | hsame
    · exact hne (hid.symm.trans hsame)
    · cases hparent.symm.trans hsame
  · rcases hfor' with hsame | hsame
    · refine hlaw.unsent n e he ?_
      rwa [← hn, hsame]
    · exact hne (mem_unique hparent hsame)

end

theorem Accounts.warranted (h : t.Accounts)
    (hadmitted : t.broker.admissions attemptId = some admission) {call : BrokerCall}
    (hcall : Current t.broker admission ∨
      ∃ world connection, call = .choose world attemptId connection)
    (hsends : Sends digest t.broker env attemptId admission done)
    (hown : ∀ e ∈ done.sent, e.parent = none → Current t.broker admission) {e : Sent}
    (he : e ∈ done.sent) : Warranted t.broker env call e := by
  obtain ⟨hopen, hlive⟩ := h.unspent attemptId admission hadmitted
  have hstands : Standing t.broker attemptId admission := ⟨hadmitted, hlive, hopen⟩
  rcases hsends.each e he with hprimary | hsubstitute
  · have hid : e.attemptId = attemptId := by
      rw [Sent.attemptId, hprimary.manifest, narrowed_attemptId, h.named _ _ hadmitted]
    refine .primary hprimary.parent (hid ▸ hstands) (hown e he hprimary.parent) ?_ hprimary.connection
    rw [hprimary.connection, hprimary.manifest]
  · exact .substitute hsubstitute.parent hstands hsubstitute.minted hsubstitute.task
      hsubstitute.passes hcall

end Sending

theorem Accounts.refuses (h : t.Accounts) {call : BrokerCall}
    (hperform : t.broker.perform digest env call = (t.broker, [])) : Keeps digest t env call := by
  have hnext : t.next digest env call = t := by
    unfold Trace.next
    rw [hperform]
    dsimp only
    rw [append_nil]
  have hbroker : (t.broker.perform digest env call).1 = t.broker := by rw [hperform]
  refine .silent (hnext.symm ▸ h) ?_ (by rw [hperform]) (by rw [hbroker]) ?_
  · rw [hbroker]
    exact fun _ => .nothing (by simp) rfl rfl rfl rfl
  · rw [hbroker]
    exact Subset.refl _

theorem Accounts.keeps_sends (h : t.Accounts) (hlaw : t.Lawful env) {call : BrokerCall}
    {attemptId : String} {admission : AdmissionRecord} {done : Done}
    (hperform : t.broker.perform digest env call = (done.broker, done.sent))
    (hadmitted : t.broker.admissions attemptId = some admission)
    (hcall : Current t.broker admission ∨
      ∃ world connection, call = .choose world attemptId connection)
    (hown : ∀ e ∈ done.sent, e.parent = none → Current t.broker admission)
    (hsends : Sends digest t.broker env attemptId admission done) : Keeps digest t env call := by
  have hnext : t.next digest env call = ⟨done.broker, t.log ++ done.sent⟩ := by
    unfold Trace.next
    rw [hperform]
  have hleaves := h.leaves hlaw hadmitted hsends
  have hwarranted : ∀ e ∈ done.sent, Warranted t.broker env call e :=
    fun e he => h.warranted hadmitted hcall hsends hown he
  refine ⟨?_, ?_, ?_, ?_, ?_, ?_, ?_, ?_⟩
  · rw [hnext]
    exact h.sends hlaw hadmitted hsends
  · rw [hperform]
    exact hwarranted
  · rw [hperform]
    exact hsends.answers
  · rw [hperform, hnext]
    exact fun _ => hleaves
  · rw [hnext]
    exact fun id hid => by rwa [hleaves.cancelled]
  · rw [hperform]
    exact fun id hcancelled e he => (hwarranted e he).stopped hlaw hcancelled
  · rw [hnext]
    exact fun id record hsome => hleaves.recorded hsome
  · rw [hperform]
    exact fun e he hsettled id hfor later hlater =>
      h.final hlaw hadmitted hsends he hsettled hfor hlater

theorem Accounts.dispatches (h : t.Accounts) (hlaw : t.Lawful env) (world : String)
    (manifest : RequestManifest) : Keeps digest t env (.dispatch world manifest) := by
  cases hauthorise : t.broker.authorise world manifest with
  | error refusal =>
    have hdone : t.broker.dispatch digest env world manifest = ⟨t.broker, [], .error refusal⟩ := by
      unfold dispatch
      rw [hauthorise]
    refine h.refuses ?_
    unfold perform
    dsimp only
    rw [hdone]
  | ok admission =>
    have hauthorised := authorise_ok hauthorise
    have hadmitted := hauthorised.admitted
    have hcurrent : Current t.broker admission := ⟨hauthorised.current, hauthorised.allowed⟩
    exact h.keeps_sends hlaw rfl hadmitted (.inl hcurrent) (fun _ _ _ => hcurrent)
      (sends_dispatch hauthorise hlaw.ids hlaw.free (hlaw.ids_ne hadmitted))

theorem choice_parent {broker : Broker} {world attemptId connection : String} {e : Sent}
    (he : e ∈ (broker.dispatchFallbackChoice digest env world attemptId connection).sent) :
    e.parent = some attemptId := by
  unfold dispatchFallbackChoice at he
  split at he
  · cases he
  · rename_i admission _
    dsimp only at he
    have htries := tries_completeSend (broker.mintSubstitute digest (env.ids 0) admission
      (pickedModel admission.manifest connection) connection "manual").1 env
      (broker.mintSubstitute digest (env.ids 0) admission
        (pickedModel admission.manifest connection) connection "manual").2.1 connection
      (some attemptId)
    generalize completeSend _ env _ connection (some attemptId) = tried at htries he
    cases htries with
    | unserved => cases he
    | refused => cases he
    | failed sent failure _ _ _ hparent =>
      cases failure with
      | ledger refusal => rwa [mem_singleton.mp he]
      | provider source => rwa [mem_singleton.mp he]
    | settled sent record reply _ _ _ hparent => rwa [mem_singleton.mp he]

theorem Accounts.chooses (h : t.Accounts) (hlaw : t.Lawful env) (world attemptId : String)
    (connection : String) : Keeps digest t env (.choose world attemptId connection) := by
  cases hchoice : t.broker.authoriseChoice env world attemptId connection with
  | error refusal =>
    have hdone : t.broker.dispatchFallbackChoice digest env world attemptId connection =
        ⟨t.broker, [], .error refusal⟩ := by
      unfold dispatchFallbackChoice
      rw [hchoice]
    refine h.refuses ?_
    unfold perform
    dsimp only
    rw [hdone]
  | ok admission =>
    have hadmitted := (authoriseChoice_ok hchoice).admitted
    refine h.keeps_sends hlaw rfl hadmitted (.inr ⟨world, connection, rfl⟩) ?_
      (sends_dispatchFallbackChoice hchoice hlaw.ids hlaw.free)
    intro e he hnone
    cases (choice_parent he).symm.trans hnone

theorem Accounts.performs (h : t.Accounts) (hlaw : t.Lawful env) (call : BrokerCall) :
    Keeps digest t env call := by
  cases call with
  | prepare request =>
    obtain ⟨haccounting, hcancelled⟩ : (t.broker.prepare digest env request).1.accounting =
        t.broker.accounting ∧
        t.broker.cancelled ⊆ (t.broker.prepare digest env request).1.cancelled := by
      rcases @prepare_cases digest env t.broker request with
        hsame | ⟨_, _, _, _, -, hprepared⟩
      · rw [hsame]
        exact ⟨rfl, Subset.refl _⟩
      · rw [hprepared]
        exact ⟨rfl, Subset.refl _⟩
    refine .silent ?_ nofun rfl haccounting hcancelled
    unfold Trace.next
    dsimp only [perform]
    rw [append_nil]
    exact h.prepare hlaw request
  | dispatch world manifest => exact h.dispatches hlaw world manifest
  | choose world attemptId connection => exact h.chooses hlaw world attemptId connection
  | cancel attemptId =>
    obtain ⟨haccounting, hcancelled⟩ : (t.broker.cancelAttempt attemptId).1.accounting =
        t.broker.accounting ∧
        t.broker.cancelled ⊆ (t.broker.cancelAttempt attemptId).1.cancelled := by
      unfold cancelAttempt
      split
      · exact ⟨rfl, Subset.refl _⟩
      split
      · exact ⟨rfl, Subset.refl _⟩
      · exact ⟨rfl, subset_cons_self _ _⟩
    refine .silent ?_ nofun rfl haccounting hcancelled
    unfold Trace.next
    dsimp only [perform]
    rw [append_nil]
    exact h.cancel attemptId
  | take attemptId =>
    refine .silent ?_ nofun rfl rfl (Subset.refl _)
    unfold Trace.next
    dsimp only [perform]
    rw [append_nil]
    exact h.take attemptId
  | setConfig view =>
    refine .silent ?_ nofun rfl rfl (Subset.refl _)
    unfold Trace.next
    dsimp only [perform]
    rw [append_nil]
    exact h.congr rfl rfl rfl rfl fun _ _ => id
  | setRights rights =>
    obtain ⟨haccounting, hcancelled⟩ : (t.broker.setAccountRights rights).accounting =
        t.broker.accounting ∧
        t.broker.cancelled ⊆ (t.broker.setAccountRights rights).cancelled := by
      unfold setAccountRights
      split <;> exact ⟨rfl, Subset.refl _⟩
    refine .silent ?_ nofun rfl haccounting hcancelled
    unfold Trace.next
    dsimp only [perform]
    rw [append_nil]
    exact h.setRights rights

/-! ## Runs -/

theorem accounts_of_run {calls : List (Surroundings × BrokerCall)}
    (hrun : Run (Step digest) start calls t) : t.Accounts := by
  refine hrun.invariant (fun t call t' h hstep => ?_) accounts_start
  obtain ⟨hlaw, rfl⟩ := hstep
  exact (h.performs hlaw call.2).accounts

theorem cancelAttempt_cancelled {broker : Broker} {attemptId : String}
    (h : (broker.cancelAttempt attemptId).2 = true) :
    attemptId ∈ (broker.cancelAttempt attemptId).1.cancelled := by
  unfold cancelAttempt at h ⊢
  split_ifs at h ⊢
  exact mem_cons_self

theorem Accounts.stays {calls : List (Surroundings × BrokerCall)} (h : t.Accounts)
    (hrun : Run (Step digest) t calls t') {id : String} (hcancelled : id ∈ t.broker.cancelled) :
    ∀ e ∈ t'.log, e.For id → e ∈ t.log := by
  have hall : t'.Accounts ∧ id ∈ t'.broker.cancelled ∧ ∀ e ∈ t'.log, e.For id → e ∈ t.log := by
    refine hrun.invariant (I := fun t' => t'.Accounts ∧ id ∈ t'.broker.cancelled ∧
      ∀ e ∈ t'.log, e.For id → e ∈ t.log) ?_ ⟨h, hcancelled, fun _ he _ => he⟩
    rintro t1 call _ ⟨h1, hcancelled1, hlog⟩ ⟨hlaw, rfl⟩
    have hkeeps : Keeps digest t1 call.1 call.2 := h1.performs hlaw call.2
    refine ⟨hkeeps.accounts, hkeeps.cancelled hcancelled1, fun e he hfor => ?_⟩
    rcases mem_append.mp he with he | he
    · exact hlog e he hfor
    · exact absurd hfor (hkeeps.stopped id hcancelled1 e he)
  exact hall.2.2

/-- In every run from a new broker the tables agree with the log, every call keeps to what its
admissions allow (it sends what is warranted and accounts exactly the send that settled), and
nothing is sent for an attempt after a cancellation that answered true. -/
theorem single_accounting {calls : List (Surroundings × BrokerCall)}
    (hrun : Run (Step digest) start calls t) :
    t.Accounts ∧ (∀ pre call post before after, calls = pre ++ call :: post →
      Run (Step digest) start pre before → Step digest before call after →
      Keeps digest before call.1 call.2) ∧
    ∀ pre env id post before, calls = pre ++ (env, .cancel id) :: post →
      Run (Step digest) start pre before → (before.broker.cancelAttempt id).2 = true →
      ∀ e ∈ t.log, e.For id → e ∈ before.log := by
  refine ⟨accounts_of_run hrun, ?_, ?_⟩
  · intro pre call post before after _ hpre hstep
    exact (accounts_of_run hpre).performs hstep.1 call.2
  · rintro pre env id post before rfl hpre htrue
    obtain ⟨middle, hmiddle, hpost⟩ := hrun.split
    obtain rfl := hpre.unique (fun _ _ _ _ h h' => h.2.trans h'.2.symm) hmiddle
    cases hpost with
    | cons hstep hrest =>
      obtain ⟨hlaw, rfl⟩ := hstep
      have hkeeps : Keeps digest before env (.cancel id) :=
        (accounts_of_run hpre).performs hlaw _
      intro e he hfor
      have hbefore := hkeeps.accounts.stays hrest (cancelAttempt_cancelled htrue) e he hfor
      simpa [Trace.next, perform] using hbefore

/-! ## A run -/

/-- Ids of one letter, beside what ledger and provider answer to each attempt. -/
def lettered (letter : Char) (answer : String → SendAnswer) : Surroundings :=
  ⟨fun n => String.ofList (List.replicate (n + 1) letter), fun _ _ => true, fun _ _ _ => true,
    answer⟩

theorem lettered_injective (letter : Char) (answer : String → SendAnswer) :
    Injective (lettered letter answer).ids := by
  intro m n h
  have hlength := congrArg (List.length ∘ String.toList) h
  simpa [lettered] using hlength

theorem lettered_ne {letter other : Char} (hne : letter ≠ other)
    (answer answer' : String → SendAnswer) (m n : ℕ) :
    (lettered letter answer).ids m ≠ (lettered other answer').ids n := by
  intro h
  have hhead := congrArg (List.head? ∘ String.toList) h
  simp only [lettered, Function.comp, String.toList_ofList, replicate_succ, head?_cons,
    some.injEq] at hhead
  exact hne hhead

def replied (_ : String) : SendAnswer := .replied ⟨"", [], .unknown, 0⟩ (.ok ())

theorem lawful_start (letter : Char) (answer : String → SendAnswer) :
    start.Lawful (lettered letter answer) where
  ids := lettered_injective letter answer
  free _ := ⟨rfl, rfl, rfl⟩
  unaccounted _ := rfl
  uncancelled _ := not_mem_nil
  unsent _ _ he := by cases he
  refuses _ he := by cases he

/-- The first prepare of a broker, under an id of one letter. -/
def preparedFirst (request : PrepareRequest) : Trace :=
  start.next id (lettered 'a' replied) (.prepare request)

theorem lawful_prepared (request : PrepareRequest) {letter : Char} (hletter : letter ≠ 'a')
    (answer : String → SendAnswer) : (preparedFirst request).Lawful (lettered letter answer) := by
  have hlog : (preparedFirst request).log = [] := rfl
  have hne := lettered_ne hletter answer replied
  have hbroker : (preparedFirst request).broker = new ∨ ∃ admission epochs view bound,
      admission.manifest.attemptId = (lettered 'a' replied).ids 0 ∧ (preparedFirst request).broker =
        { new with
          epochs := epochs
          view := view
          admissions := update new.admissions ((lettered 'a' replied).ids 0) (some admission)
          boundProfile := bound } := prepare_cases new request
  refine ⟨lettered_injective letter answer, ?_, ?_, ?_, ?_, ?_⟩
  · intro n
    rcases hbroker with hsame | ⟨admission, epochs, view, bound, -, hsame⟩
    · rw [hsame]
      exact ⟨rfl, rfl, rfl⟩
    · rw [hsame]
      exact ⟨(update_of_ne (hne n 0) _ _).trans rfl, rfl, rfl⟩
  · intro n
    rcases hbroker with hsame | ⟨admission, epochs, view, bound, -, hsame⟩ <;> rw [hsame] <;> rfl
  · intro n
    rcases hbroker with hsame | ⟨admission, epochs, view, bound, -, hsame⟩ <;> rw [hsame] <;>
      exact not_mem_nil
  · rw [hlog]
    exact fun _ _ he => absurd he not_mem_nil
  · rw [hlog]
    exact fun _ he => absurd he not_mem_nil

def localView : ConfigView := ⟨[("local", ⟨.local, "", none, none, none⟩)], [], []⟩

def planRequest : PrepareRequest :=
  ⟨"plan", "world", "", .human, .ok "", [], localView,
    .ok (⟨.fixed ⟨"local", "model"⟩, "", .auto, "", .off, ""⟩, ⟨"local", none, none, none⟩)⟩

def frozen : RequestManifest :=
  ⟨"a", "plan", "world", .fixed ⟨"local", "model"⟩, .auto, "", [], OUTPUT_RESERVE_BYTES, "", "",
    "epoch-purpose:plan\nmod", none, none, .human, 1⟩

theorem single_accounting_reply :
    let ended := (preparedFirst planRequest).next id (lettered 'b' replied)
      (.dispatch "world" frozen)
    ended.log.length = 1 ∧ ended.Accounts := by
  have hrun : Run (Step id) start [(lettered 'a' replied, .prepare planRequest),
      (lettered 'b' replied, .dispatch "world" frozen)] _ :=
    .cons ⟨lawful_start 'a' replied, rfl⟩
      (.cons ⟨lawful_prepared planRequest (by decide) replied, rfl⟩ (.nil _))
  exact ⟨by decide +kernel, (single_accounting hrun).1⟩

end Trace

end Rivect.Broker
