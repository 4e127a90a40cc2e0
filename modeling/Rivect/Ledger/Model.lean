import Mathlib.Algebra.BigOperators.Group.List.Basic
import Mathlib.Algebra.Ring.Int.Defs
import Mathlib.Algebra.Ring.Nat
import Mathlib.Data.List.Sort
import Rivect.Store.Error

/-! # The budget ledger and the usage settlements

The ledger part of `src/state.rs` with the statements of `src/state/sql/mod.rs`. A table is
the list of its rows in insertion order. A transaction is a function into `Except`: an error
is a rollback, so nothing of the body is kept.
-/

namespace Rivect

structure BudgetScope where
  scope : String
  limitUnits : ℤ
  spent : ℤ
  reserved : ℤ
deriving DecidableEq

inductive ReservationState where
  | reserved
  | charged
  | released
deriving DecidableEq

def ReservationState.asStr : ReservationState → String
  | .reserved => "reserved"
  | .charged => "charged"
  | .released => "released"

structure BudgetReservation where
  reservationId : String
  scope : String
  bound : ℤ
  state : ReservationState
  charged : Option ℤ
deriving DecidableEq

inductive Exactness where
  | exact
  | estimate
  | unknown
deriving DecidableEq

def Exactness.asStr : Exactness → String
  | .exact => "exact"
  | .estimate => "estimate"
  | .unknown => "unknown"

/-- The settled token bins: a reported zero is `some 0`, a missing counter is `none`. -/
structure UsageBins (α : Type) where
  promptTokens : Option α
  completionTokens : Option α
  reasoningTokens : Option α
  cacheReadTokens : Option α
  cacheWriteTokens : Option α
  totalTokens : Option α
deriving DecidableEq

def UsageBins.empty {α : Type} : UsageBins α := ⟨none, none, none, none, none, none⟩

/-- The provider's report on one sent request. -/
inductive UsageDelta where
  | unknown
  | exact (promptTokens completionTokens totalTokens : ℕ)
  | legs (bins : UsageBins ℕ)
deriving DecidableEq

namespace UsageDelta

def confirmedTotal : UsageDelta → Option ℕ
  | .unknown => none
  | .exact _ _ totalTokens => some totalTokens
  | .legs bins => bins.totalTokens

def bins : UsageDelta → UsageBins ℕ
  | .unknown => .empty
  | .exact promptTokens completionTokens totalTokens =>
    { UsageBins.empty with
      promptTokens := some promptTokens
      completionTokens := some completionTokens
      totalTokens := some totalTokens }
  | .legs bins => bins

def exactness : UsageDelta → Exactness
  | .unknown => .unknown
  | .exact .. => .exact
  | .legs bins => if bins.totalTokens.isSome then .exact else .estimate

end UsageDelta

inductive SettlementState where
  | dispatched
  | settled
deriving DecidableEq

def SettlementState.asStr : SettlementState → String
  | .dispatched => "dispatched"
  | .settled => "settled"

structure Settlement where
  rowid : ℤ
  attemptId : String
  parentAttemptId : Option String
  purpose : String
  connection : String
  rankingBasis : Option String
  costBound : ℤ
  state : SettlementState
  exactness : Exactness
  unknownReason : Option String
  wireRetries : ℕ
  bins : UsageBins ℤ
  chargedUnits : Option ℤ
deriving DecidableEq

/-- The one row of `usage_totals`. -/
structure UsageTotals where
  settledCount : ℤ
  settledWithoutTotal : ℤ
  totalTokens : Option ℤ
  chargedCount : ℤ
  chargedUnits : Option ℤ
  latestPromptTokens : Option ℤ
  dispatchedCount : ℤ
  nextRowid : ℤ
deriving DecidableEq

inductive WorkBudgetState where
  | open
  | stopped
deriving DecidableEq

def WorkBudgetState.asStr : WorkBudgetState → String
  | .open => "open"
  | .stopped => "stopped"

structure WorkBudgetRow where
  taskId : String
  deadlineUnixSeconds : ℤ
  sendBound : ℤ
  state : WorkBudgetState
  stopReason : Option String
deriving DecidableEq

/-- What a read of a worker's bounds answers. -/
structure WorkBudget where
  taskId : String
  deadlineUnixSeconds : ℕ
  sendBound : ℕ
  unitBound : ℕ
  spent : ℕ
  reserved : ℕ
  settledSends : ℕ
  state : WorkBudgetState
  stopReason : Option String
deriving DecidableEq

structure SendContext where
  purpose : String
  connection : String
  parentAttemptId : Option String
  rankingBasis : Option String
deriving DecidableEq

/-- The two fields of the request manifest that the ledger reads. -/
structure RequestManifest where
  attemptId : String
  costBound : ℕ
deriving DecidableEq

structure SendTicket where
  attemptId : String
  costBound : ℕ
  reserved : Bool
deriving DecidableEq

inductive SendOutcome where
  | settled (usage : UsageDelta) (wireRetries : ℕ)
  | failed (wireRetries : ℕ)
deriving DecidableEq

structure SettlementTotals where
  settledCount : ℕ
  settledWithoutTotal : ℕ
  totalTokens : Option ℕ
  chargedUnits : Option ℕ
  dispatchedCount : ℕ
  latestPromptTokens : Option ℕ
deriving DecidableEq

/-- The ledger's tables, and the ids of the tasks the store holds. -/
structure Ledger where
  tasks : List String
  scopes : List BudgetScope
  reservations : List BudgetReservation
  settlements : List Settlement
  totals : Option UsageTotals
  workBudgets : List WorkBudgetRow
deriving DecidableEq

namespace Ledger

/-- `i64::try_from` on the ledger's unsigned arguments. -/
def budgetUnitsI64 (units : ℕ) : Except StoreError ℤ :=
  if units < 2 ^ 63 then .ok units else .error (.invalidInput (.budgetUnitsOutOfRange units))

/-- `….map(budget_units_i64).transpose()`. -/
def storedOpt : Option ℕ → Except StoreError (Option ℤ)
  | none => .ok none
  | some units => do .ok (some (← budgetUnitsI64 units))

def workBoundI64 (field : String) (value : ℕ) : Except StoreError ℤ :=
  if value < 2 ^ 63 then .ok value
  else .error (.invalidInput (.workBudgetBoundOutOfRange field value))

/-- A negative ledger column is corrupt storage. -/
def unsigned (value : ℤ) : Except StoreError ℕ :=
  if value < 0 then .error .storage else .ok value.toNat

def unsignedOpt : Option ℤ → Except StoreError (Option ℕ)
  | none => .ok none
  | some value => do .ok (some (← unsigned value))

/-! ## Scopes and reservations -/

def scopeRow (l : Ledger) (scope : String) : Option BudgetScope :=
  l.scopes.find? (·.scope = scope)

def insertScope (l : Ledger) (scope : String) (limitUnits : ℤ) : Ledger :=
  { l with scopes := l.scopes ++ [⟨scope, limitUnits, 0, 0⟩] }

def openBudget (l : Ledger) (scope : String) (limitUnits : ℕ) : Except StoreError Ledger := do
  let storedLimit ← budgetUnitsI64 limitUnits
  if (l.scopeRow scope).isSome then
    .error (.conflict (.budgetScopeExists scope))
  else
    .ok (l.insertScope scope storedLimit)

/-- `UPDATE budget_scopes SET … WHERE scope = ?1 AND …`: the rows it writes, `none` if no
row matches. -/
def updateScope (l : Ledger) (scope : String) (guard : BudgetScope → Bool)
    (write : BudgetScope → BudgetScope) : Option Ledger :=
  if l.scopes.any fun b => b.scope = scope ∧ guard b then
    some { l with
      scopes := l.scopes.map fun b => if b.scope = scope ∧ guard b then write b else b }
  else none

/-- `RESERVE_BUDGET`. The sum leaves the `i64` range only above the limit, which is in it. -/
def reserveBudget (l : Ledger) (scope : String) (bound : ℤ) : Option Ledger :=
  l.updateScope scope (fun b => b.spent + b.reserved + bound ≤ b.limitUnits)
    fun b => { b with reserved := b.reserved + bound }

def chargeBudgetScope (l : Ledger) (scope : String) (delta bound : ℤ) : Option Ledger :=
  l.updateScope scope (fun b => bound ≤ b.reserved)
    fun b => { b with spent := b.spent + delta, reserved := b.reserved - bound }

def releaseBudgetScope (l : Ledger) (scope : String) (bound : ℤ) : Option Ledger :=
  l.updateScope scope (fun _ => true) fun b => { b with reserved := b.reserved - bound }

/-- The primary key is the pair of reservation and scope. -/
def insertReservation (l : Ledger) (reservationId scope : String) (bound : ℤ) :
    Except StoreError Ledger :=
  if l.reservations.any fun r => r.reservationId = reservationId ∧ r.scope = scope then
    .error .storage
  else
    .ok { l with
      reservations := l.reservations ++ [⟨reservationId, scope, bound, .reserved, none⟩] }

/-- Why a reserve matched no row. -/
def reserveDenied (l : Ledger) (scope : String) (bound : ℕ) : StoreError :=
  match l.scopeRow scope with
  | none => .notFound (.budgetScope scope)
  | some row =>
    match unsigned row.spent, unsigned row.reserved, unsigned row.limitUnits with
    | .ok spent, .ok reserved, .ok limit =>
      .conflict (.budgetExhausted scope spent reserved bound limit)
    | .error e, _, _ => e
    | _, .error e, _ => e
    | _, _, .error e => e

/-- The two statements that both families of operations run at each scope. -/
def reserveAt (reservationId : String) (storedBound : ℤ) (bound : ℕ) (l : Ledger)
    (scope : String) : Except StoreError Ledger :=
  match l.reserveBudget scope storedBound with
  | none => .error (l.reserveDenied scope bound)
  | some l => l.insertReservation reservationId scope storedBound

def budgetReserve (l : Ledger) (reservationId : String) (scopes : List String) (bound : ℕ) :
    Except StoreError Ledger := do
  if scopes.isEmpty then
    .error (.invalidInput .emptyBudgetScopes)
  else
    let storedBound ← budgetUnitsI64 bound
    if l.reservations.any fun r => r.reservationId = reservationId then
      .error (.conflict (.reservationAlreadyRecorded reservationId))
    else
      scopes.foldlM (reserveAt reservationId storedBound bound) l

/-- `BUDGET_RESERVATION_SCOPES`: the rows of one reservation, ordered by scope. -/
def reservationScopes (l : Ledger) (reservationId : String) : List BudgetReservation :=
  (l.reservations.filter (·.reservationId = reservationId)).insertionSort (·.scope ≤ ·.scope)

/-- A refusal that names two ledger columns; a corrupt column is reported in its place. -/
def refusedWith (refusal : ℕ → ℕ → StoreError) (value bound : ℤ) : StoreError :=
  match unsigned value, unsigned bound with
  | .ok value, .ok bound => refusal value bound
  | .error e, _ => e
  | _, .error e => e

/-- One scope's share of a resolution. -/
def resolveAt (confirmed : Option ℤ) (release : Bool) (l : Ledger) (row : BudgetReservation) :
    Except StoreError Ledger :=
  if release then
    .ok ((l.releaseBudgetScope row.scope row.bound).getD l)
  else if confirmed.any (row.bound < ·) then
    .error (refusedWith (fun confirmed bound => .invalidInput (.confirmedExceedsBound confirmed bound))
      (confirmed.getD 0) row.bound)
  else
    match l.chargeBudgetScope row.scope (confirmed.getD row.bound) row.bound with
    | some l => .ok l
    | none => .error (refusedWith
        (fun reserved bound => .conflict (.chargeReservedBelowBound row.scope reserved bound))
        (((l.scopeRow row.scope).map BudgetScope.reserved).getD 0) row.bound)

def setReservationState (l : Ledger) (reservationId : String) (state : ReservationState)
    (charged : Option ℤ) : Ledger :=
  { l with
    reservations := l.reservations.map fun r =>
      if r.reservationId = reservationId then { r with state := state, charged := charged }
      else r }

def resolveReservationTx (l : Ledger) (reservationId : String) (terminal : ReservationState)
    (confirmed : Option ℤ) (release : Bool) : Except StoreError Ledger := do
  let rows := l.reservationScopes reservationId
  if rows.isEmpty then
    .error (.notFound (.reservation reservationId))
  else
    match rows.find? (·.state ≠ .reserved) with
    | some row => .error (.conflict (.reservationNotReserved reservationId row.state.asStr))
    | none =>
      let l ← rows.foldlM (resolveAt confirmed release) l
      .ok (l.setReservationState reservationId terminal confirmed)

def budgetCharge (l : Ledger) (reservationId : String) (confirmed : Option ℕ) :
    Except StoreError Ledger := do
  let storedConfirmed ← storedOpt confirmed
  l.resolveReservationTx reservationId .charged storedConfirmed false

def budgetRelease (l : Ledger) (reservationId : String) : Except StoreError Ledger :=
  l.resolveReservationTx reservationId .released none true

/-! ## Bounded work -/

def workRow (l : Ledger) (taskId : String) : Option WorkBudgetRow :=
  l.workBudgets.find? (·.taskId = taskId)

/-- The settled sends a scope has recorded: its reservations joined with the settlements they
name. -/
def settledSends (l : Ledger) (scope : String) : ℕ :=
  (l.reservations.filter (·.scope = scope)).countP fun r =>
    l.settlements.any fun s => s.attemptId = r.reservationId ∧ s.state = .settled

def workBudgetOn (l : Ledger) (taskId : String) : Except StoreError (Option WorkBudget) :=
  match l.workRow taskId, l.scopeRow taskId with
  | some w, some b => do
    let deadline ← unsigned w.deadlineUnixSeconds
    let sendBound ← unsigned w.sendBound
    let unitBound ← unsigned b.limitUnits
    let spent ← unsigned b.spent
    let reserved ← unsigned b.reserved
    .ok (some
      { taskId := w.taskId
        deadlineUnixSeconds := deadline
        sendBound := sendBound
        unitBound := unitBound
        spent := spent
        reserved := reserved
        settledSends := l.settledSends taskId
        state := w.state
        stopReason := w.stopReason })
  | _, _ => .ok none

/-- The body up to the commit; a read that found no row is reported after it. -/
def openWorkBudgetTx (l : Ledger) (taskId : String)
    (deadlineUnixSeconds sendBound unitBound : ℕ) :
    Except StoreError (Ledger × Option WorkBudget) := do
  let storedDeadline ← workBoundI64 "deadline_unix_seconds" deadlineUnixSeconds
  let storedSends ← workBoundI64 "send_bound" sendBound
  let storedUnits ← workBoundI64 "unit_bound" unitBound
  if taskId ∉ l.tasks then
    .error (.notFound (.task taskId))
  else
    match l.workRow taskId with
    | some row => .error (.conflict (.workBudgetExists taskId row.state.asStr))
    | none =>
      if (l.scopeRow taskId).isSome then
        .error (.conflict (.budgetScopeExists taskId))
      else
        let l := l.insertScope taskId storedUnits
        let l := { l with
          workBudgets := l.workBudgets ++ [⟨taskId, storedDeadline, storedSends, .open, none⟩] }
        let budget ← l.workBudgetOn taskId
        .ok (l, budget)

def openWorkBudget (l : Ledger) (taskId : String) (deadlineUnixSeconds sendBound unitBound : ℕ) :
    Ledger × Except StoreError WorkBudget :=
  match l.openWorkBudgetTx taskId deadlineUnixSeconds sendBound unitBound with
  | .error e => (l, .error e)
  | .ok (l', none) => (l', .error (.notFound (.workBudget taskId)))
  | .ok (l', some budget) => (l', .ok budget)

def stopWorkBudget (l : Ledger) (taskId reason : String) :
    Except StoreError (Ledger × WorkBudget) := do
  if taskId ∉ l.tasks then
    .error (.notFound (.task taskId))
  else
    let stopped := l.workBudgets.any fun w => w.taskId = taskId ∧ w.state = .open
    let l := { l with
      workBudgets := l.workBudgets.map fun w =>
        if w.taskId = taskId ∧ w.state = .open then
          { w with state := .stopped, stopReason := some reason }
        else w }
    match ← l.workBudgetOn taskId with
    | none => .error (.notFound (.workBudget taskId))
    | some budget =>
      if stopped then .ok (l, budget)
      else .error (.conflict (.workBudgetStopped taskId))

/-! ## Settlements -/

def settlementRow (l : Ledger) (attemptId : String) : Option Settlement :=
  l.settlements.find? (·.attemptId = attemptId)

def maxRowid (rows : List Settlement) : Option ℤ := (rows.map Settlement.rowid).max?

/-- A column of a `STRICT` table holds no sum past the `i64` range. -/
def storeTotals (l : Ledger) (t : UsageTotals) : Except StoreError Ledger :=
  if [t.settledCount, t.settledWithoutTotal, t.totalTokens.getD 0, t.chargedCount,
      t.chargedUnits.getD 0, t.dispatchedCount, t.nextRowid].all (· < 2 ^ 63) then
    .ok { l with totals := some t }
  else .error .storage

/-- `NEXT_SETTLEMENT_ROWID … RETURNING`: without the totals row there is nothing to return. -/
def nextSettlementRowid (l : Ledger) : Except StoreError (Ledger × ℤ) :=
  match l.totals with
  | none => .error .storage
  | some t => do
    let next := max t.nextRowid ((maxRowid l.settlements).getD 0 + 1) + 1
    let l ← l.storeTotals
      { t with nextRowid := next, dispatchedCount := t.dispatchedCount + 1 }
    .ok (l, next - 1)

/-- A row as `INSERT_SETTLEMENT_DISPATCHED` writes it. -/
def settlementDispatched (rowid : ℤ) (context : SendContext) (attemptId : String)
    (costBound : ℤ) : Settlement :=
  { rowid := rowid
    attemptId := attemptId
    parentAttemptId := context.parentAttemptId
    purpose := context.purpose
    connection := context.connection
    rankingBasis := context.rankingBasis
    costBound := costBound
    state := .dispatched
    exactness := .unknown
    unknownReason := none
    wireRetries := 0
    bins := .empty
    chargedUnits := none }

/-- The insert and its guard trigger: neither an attempt nor a row identity is replaced. -/
def insertSettlementDispatched (l : Ledger) (rowid : ℤ) (context : SendContext)
    (attemptId : String) (costBound : ℤ) : Except StoreError Ledger :=
  if l.settlements.any fun s => s.attemptId = attemptId ∨ s.rowid = rowid then
    .error .storage
  else
    .ok { l with
      settlements := l.settlements ++ [settlementDispatched rowid context attemptId costBound] }

/-- The levels a request draws from: the opened scopes, each once. -/
def openScopes (l : Ledger) (scopes : List String) : List String :=
  scopes.foldl (fun opened scope =>
    if (l.scopeRow scope).isSome ∧ scope ∉ opened then opened ++ [scope] else opened) []

/-- A scope whose worker row is open refuses at its recorded bound. -/
def checkSendBound (l : Ledger) (scope : String) : Except StoreError Unit :=
  match l.workRow scope with
  | none => .ok ()
  | some w =>
    if w.state = .open ∧ w.sendBound ≤ l.settledSends scope then do
      let sendBound ← unsigned w.sendBound
      .error (.conflict (.workSendBoundReached scope (l.settledSends scope) sendBound))
    else .ok ()

def beginSend (l : Ledger) (scopes : List String) (context : SendContext)
    (manifest : RequestManifest) : Except StoreError (Ledger × SendTicket) := do
  let storedBound ← budgetUnitsI64 manifest.costBound
  if (l.settlementRow manifest.attemptId).isSome then
    .error (.conflict (.settlementAlreadyRecorded manifest.attemptId))
  else
    let opened := l.openScopes scopes
    opened.forM l.checkSendBound
    let l ← opened.foldlM (reserveAt manifest.attemptId storedBound manifest.costBound) l
    let (l, rowid) ← l.nextSettlementRowid
    let l ← l.insertSettlementDispatched rowid context manifest.attemptId storedBound
    .ok (l, ⟨manifest.attemptId, manifest.costBound, !opened.isEmpty⟩)

/-- `SETTLE_USAGE_SETTLEMENT`: only a row that is still dispatched closes. -/
def settleUsageSettlement (l : Ledger) (attemptId : String) (exactness : Exactness)
    (unknownReason : Option String) (wireRetries : ℕ) (bins : UsageBins ℤ)
    (charged : Option ℤ) : Option Ledger :=
  if l.settlements.any fun s => s.attemptId = attemptId ∧ s.state = .dispatched then
    some { l with
      settlements := l.settlements.map fun s =>
        if s.attemptId = attemptId ∧ s.state = .dispatched then
          { s with
            state := .settled
            exactness := exactness
            unknownReason := unknownReason
            wireRetries := wireRetries
            bins := bins
            chargedUnits := charged }
        else s }
  else none

/-- The totals row with one more settled row counted. -/
def addSettled (t : UsageTotals) (total charged prompt : Option ℤ)
    (newest : Prop) [Decidable newest] : UsageTotals :=
  { t with
    settledCount := t.settledCount + 1
    settledWithoutTotal := t.settledWithoutTotal + if total.isNone then 1 else 0
    totalTokens := some (t.totalTokens.getD 0 + total.getD 0)
    chargedCount := t.chargedCount + if charged.isSome then 1 else 0
    chargedUnits := some (t.chargedUnits.getD 0 + charged.getD 0)
    latestPromptTokens := if newest then prompt else t.latestPromptTokens
    dispatchedCount := max (t.dispatchedCount - 1) 0 }

/-- `SETTLE_USAGE_TOTAL`, read after the row has closed. -/
def settleUsageTotal (l : Ledger) (total charged prompt : Option ℤ) (attemptId : String) :
    Except StoreError Ledger :=
  match l.totals with
  | none => .ok l
  | some t =>
    l.storeTotals (addSettled t total charged prompt
      ((l.settlementRow attemptId).map Settlement.rowid =
        maxRowid (l.settlements.filter (·.state = .settled))))

/-- The read of the projection: `none` where nothing was measured. -/
def settlementTotals (l : Ledger) : Except StoreError SettlementTotals :=
  match l.totals with
  | none => .error .storage
  | some t => do
    let settledCount ← unsigned t.settledCount
    let settledWithoutTotal ← unsigned t.settledWithoutTotal
    let totalTokens ←
      unsignedOpt (if t.settledWithoutTotal < t.settledCount then t.totalTokens else none)
    let chargedUnits ← unsignedOpt (if 0 < t.chargedCount then t.chargedUnits else none)
    let dispatchedCount ← unsigned t.dispatchedCount
    let latestPromptTokens ← unsignedOpt t.latestPromptTokens
    .ok ⟨settledCount, settledWithoutTotal, totalTokens, chargedUnits, dispatchedCount,
      latestPromptTokens⟩

/-- `SUM`: there is no sum of no values. -/
def sqlSum (values : List ℤ) : Option ℤ := if values.isEmpty then none else some values.sum

/-- `USAGE_TOTALS_BACKFILL`: the totals row read off the settlement rows. -/
def usageTotalsBackfill (l : Ledger) : UsageTotals :=
  let settled := l.settlements.filter (·.state = .settled)
  let totals := settled.filterMap (·.bins.totalTokens)
  let charges := settled.filterMap Settlement.chargedUnits
  { settledCount := settled.length
    settledWithoutTotal := settled.length - totals.length
    totalTokens := sqlSum totals
    chargedCount := charges.length
    chargedUnits := sqlSum charges
    latestPromptTokens :=
      (settled.insertionSort (·.rowid ≥ ·.rowid)).head?.bind (·.bins.promptTokens)
    dispatchedCount := l.settlements.countP (·.state = .dispatched)
    nextRowid := max ((maxRowid l.settlements).getD 0 + 1) 1 }

/-- `USAGE_TOTALS_STALE`: the settlement rows are ahead of the totals row. -/
def usageTotalsStale (l : Ledger) : Bool :=
  match l.totals with
  | none => false
  | some t =>
    (maxRowid l.settlements).any (t.nextRowid ≤ ·) ||
      t.dispatchedCount ≠ l.settlements.countP (·.state = .dispatched)

def settlementNotDispatched (l : Ledger) (attemptId : String) : StoreError :=
  match l.settlementRow attemptId with
  | none => .notFound (.settlement attemptId)
  | some s => .conflict (.settlementNotDispatched attemptId s.state.asStr)

def storedBins (bins : UsageBins ℕ) : Except StoreError (UsageBins ℤ) := do
  let prompt ← storedOpt bins.promptTokens
  let completion ← storedOpt bins.completionTokens
  let reasoning ← storedOpt bins.reasoningTokens
  let cacheRead ← storedOpt bins.cacheReadTokens
  let cacheWrite ← storedOpt bins.cacheWriteTokens
  let total ← storedOpt bins.totalTokens
  .ok ⟨prompt, completion, reasoning, cacheRead, cacheWrite, total⟩

/-- The report and the wire retries of an outcome. -/
def SendOutcome.report : SendOutcome → UsageDelta × ℕ
  | .settled usage wireRetries => (usage, wireRetries)
  | .failed wireRetries => (.unknown, wireRetries)

def SendOutcome.unknownReason (outcome : SendOutcome) : Option String :=
  match (SendOutcome.report outcome).1.exactness, outcome with
  | .unknown, .failed _ => some "send failed"
  | .unknown, .settled .. => some "provider reported no usage"
  | .exact, _ => none
  | .estimate, _ => none

/-- The statements that close one dispatched row, count it and resolve its reservation;
`none` if the row is not dispatched. -/
def closeSend (l : Ledger) (attemptId : String) (exactness : Exactness)
    (unknownReason : Option String) (wireRetries : ℕ) (bins : UsageBins ℤ) (charged : Option ℤ)
    (reserved : Bool) : Except StoreError (Option Ledger) :=
  match l.settleUsageSettlement attemptId exactness unknownReason wireRetries bins charged with
  | none => .ok none
  | some l => do
    let l ← l.settleUsageTotal bins.totalTokens charged bins.promptTokens attemptId
    if reserved then
      let l ← l.resolveReservationTx attemptId .charged charged false
      .ok (some l)
    else .ok (some l)

def finishSend (l : Ledger) (ticket : SendTicket) (outcome : SendOutcome) :
    Except StoreError Ledger := do
  let (usage, wireRetries) := SendOutcome.report outcome
  let exactness := usage.exactness
  let confirmed := usage.confirmedTotal
  if exactness = .exact ∧ confirmed.isNone then
    .error (.invalidInput (.settlementMissingTotal ticket.attemptId exactness.asStr))
  else
    -- a confirmed total above the frozen bound charges the bound
    let charged := if ticket.reserved then
        some (confirmed.elim ticket.costBound (min · ticket.costBound))
      else none
    let storedCharged ← storedOpt charged
    let bins ← storedBins usage.bins
    match ← l.closeSend ticket.attemptId exactness (SendOutcome.unknownReason outcome)
        wireRetries bins storedCharged ticket.reserved with
    | none => .error (l.settlementNotDispatched ticket.attemptId)
    | some l => .ok l

def reservationIsOpen (l : Ledger) (reservationId : String) : Bool :=
  let rows := l.reservationScopes reservationId
  !rows.isEmpty && rows.all (·.state = .reserved)

/-- One interrupted row: its usage is unknown and what the ledger held is charged. -/
def reconcileSend (acc : Ledger × ℕ) (row : String × ℤ) : Except StoreError (Ledger × ℕ) := do
  let reserved := acc.1.reservationIsOpen row.1
  let charged := if reserved then some row.2 else none
  match ← acc.1.closeSend row.1 .unknown (some "interrupted") 0 .empty charged reserved with
  | none => .ok acc
  | some l => .ok (l, acc.2 + 1)

/-- `DISPATCHED_SETTLEMENTS`, ordered by rowid. -/
def dispatchedSettlements (l : Ledger) : List (String × ℤ) :=
  ((l.settlements.filter (·.state = .dispatched)).insertionSort (·.rowid ≤ ·.rowid)).map
    fun s => (s.attemptId, s.costBound)

def reconcileSends (l : Ledger) : Except StoreError (Ledger × ℕ) :=
  l.dispatchedSettlements.foldlM reconcileSend (l, 0)

/-! ## The calls -/

/-- The tables of a store as it opens for the first time. -/
def fresh (tasks : List String) : Ledger :=
  let l : Ledger := ⟨tasks, [], [], [], none, []⟩
  { l with totals := some l.usageTotalsBackfill }

inductive Op where
  | openBudget (scope : String) (limitUnits : ℕ)
  | openWorkBudget (taskId : String) (deadlineUnixSeconds sendBound unitBound : ℕ)
  | stopWorkBudget (taskId reason : String)
  | budgetReserve (reservationId : String) (scopes : List String) (bound : ℕ)
  | budgetCharge (reservationId : String) (confirmed : Option ℕ)
  | budgetRelease (reservationId : String)
  | beginSend (scopes : List String) (context : SendContext) (manifest : RequestManifest)
  | finishSend (ticket : SendTicket) (outcome : SendOutcome)
  | reconcileSends
deriving DecidableEq

/-- The transaction either commits what its body computed or leaves the tables alone. -/
def commit (l : Ledger) (body : Except StoreError Ledger) : Ledger × Except StoreError Unit :=
  match body with
  | .ok l' => (l', .ok ())
  | .error e => (l, .error e)

def perform (l : Ledger) : Op → Ledger × Except StoreError Unit
  | .openBudget scope limitUnits => l.commit (l.openBudget scope limitUnits)
  | .openWorkBudget taskId deadline sendBound unitBound =>
    let (l', budget) := l.openWorkBudget taskId deadline sendBound unitBound
    (l', budget.map fun _ => ())
  | .stopWorkBudget taskId reason => l.commit ((l.stopWorkBudget taskId reason).map Prod.fst)
  | .budgetReserve reservationId scopes bound =>
    l.commit (l.budgetReserve reservationId scopes bound)
  | .budgetCharge reservationId confirmed => l.commit (l.budgetCharge reservationId confirmed)
  | .budgetRelease reservationId => l.commit (l.budgetRelease reservationId)
  | .beginSend scopes context manifest =>
    l.commit ((l.beginSend scopes context manifest).map Prod.fst)
  | .finishSend ticket outcome => l.commit (l.finishSend ticket outcome)
  | .reconcileSends => l.commit (l.reconcileSends.map Prod.fst)

/-- One call, whether it succeeds or fails. -/
def Performs (l : Ledger) (op : Op) (l' : Ledger) : Prop := (l.perform op).1 = l'

end Ledger

end Rivect
