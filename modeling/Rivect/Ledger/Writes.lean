import Rivect.Ledger.Model
import Rivect.Lib.Fallible
import Rivect.Lib.Run

/-! # Every call is a run of row writes

A call that commits has made a list of writes, each with the check its statement carries; a
call that fails has made none. An invariant of the ledger is proved write by write.
-/

namespace Rivect.Ledger

open Lib List
open Within (skip map_fst ok_iff of_forall trivially)

inductive Write where
  | openScope (scope : String) (limitUnits : ℤ)
  | openWork (row : WorkBudgetRow) (limitUnits : ℤ)
  | stopWork (taskId reason : String)
  | reserve (reservationId scope : String) (bound : ℤ)
  | resolve (reservationId : String) (terminal : ReservationState) (confirmed : Option ℤ)
  | dispatch (rowid : ℤ) (context : SendContext) (attemptId : String) (costBound : ℤ)
  | close (attemptId : String) (exactness : Exactness) (unknownReason : Option String)
      (wireRetries : ℕ) (bins : UsageBins ℤ) (charged : Option ℤ)

def stopped (l : Ledger) (taskId reason : String) : Ledger :=
  { l with
    workBudgets := l.workBudgets.map fun w =>
      if w.taskId = taskId ∧ w.state = .open then
        { w with state := .stopped, stopReason := some reason }
      else w }

/-- One write, with what was checked before it. -/
def Applies (l : Ledger) : Write → Ledger → Prop
  | .openScope scope limitUnits, l' =>
    l.scopeRow scope = none ∧ 0 ≤ limitUnits ∧ l' = l.insertScope scope limitUnits
  | .openWork row limitUnits, l' =>
    l.scopeRow row.taskId = none ∧ l.workRow row.taskId = none ∧ row.state = .open ∧
      0 ≤ limitUnits ∧ 0 ≤ row.sendBound ∧
      l' = { l.insertScope row.taskId limitUnits with workBudgets := l.workBudgets ++ [row] }
  | .stopWork taskId reason, l' => l' = l.stopped taskId reason
  | .reserve reservationId scope bound, l' =>
    0 ≤ bound ∧ ∃ n, reserveAt reservationId bound n l scope = .ok l'
  | .resolve reservationId terminal confirmed, l' =>
    terminal ≠ .reserved ∧ (terminal = .released → confirmed = none) ∧ (∀ c ∈ confirmed, 0 ≤ c) ∧
      l.resolveReservationTx reservationId terminal confirmed (terminal = .released) = .ok l'
  | .dispatch rowid context attemptId costBound, l' =>
    0 ≤ costBound ∧ ∃ l1, l.nextSettlementRowid = .ok (l1, rowid) ∧
      l1.insertSettlementDispatched rowid context attemptId costBound = .ok l'
  | .close attemptId exactness unknownReason wireRetries bins charged, l' =>
    ∃ l1, l.settleUsageSettlement attemptId exactness unknownReason wireRetries bins charged =
        some l1 ∧
      l1.settleUsageTotal bins.totalTokens charged bins.promptTokens attemptId = .ok l'

/-- The writes that a call can make. -/
def Op.makes : Op → Write → Prop
  | .openBudget .., .openScope .. => True
  | .openWorkBudget taskId _ sendBound _, .openWork row _ =>
    row.taskId = taskId ∧ row.sendBound = sendBound
  | .stopWorkBudget taskId reason, .stopWork t r => t = taskId ∧ r = reason
  | .budgetReserve reservationId scopes _, .reserve id scope _ =>
    id = reservationId ∧ scope ∈ scopes
  | .budgetCharge reservationId _, .resolve id terminal _ =>
    id = reservationId ∧ terminal = .charged
  | .budgetRelease reservationId, .resolve id terminal _ =>
    id = reservationId ∧ terminal = .released
  | .beginSend scopes _ manifest, .reserve id scope _ =>
    id = manifest.attemptId ∧ scope ∈ scopes
  | .beginSend _ _ manifest, .dispatch _ _ id _ => id = manifest.attemptId
  | .finishSend ticket _, .close id .. => id = ticket.attemptId
  | .finishSend ticket _, .resolve id terminal _ => id = ticket.attemptId ∧ terminal = .charged
  | .reconcileSends, .close .. => True
  | .reconcileSends, .resolve _ terminal _ => terminal = .charged
  | _, _ => False

/-- One write of a call. -/
def Op.Writes (op : Op) (l : Ledger) (w : Write) (l' : Ledger) : Prop :=
  Applies l w l' ∧ op.makes w

/-- The writes of one call, in order. -/
def Made (op : Op) (l l' : Ledger) : Prop := ∃ ws, Run op.Writes l ws l'

theorem Made.nil (op : Op) (l : Ledger) : Made op l l := ⟨[], .nil l⟩

theorem Made.single {op : Op} {l l' : Ledger} {w : Write} (h : Applies l w l')
    (hop : op.makes w) : Made op l l' :=
  ⟨[w], .single ⟨h, hop⟩⟩

theorem Made.trans {op : Op} {l l' l'' : Ledger} (h : Made op l l') (h' : Made op l' l'') :
    Made op l l'' := by
  obtain ⟨ws, hrun⟩ := h
  obtain ⟨ws', hrun'⟩ := h'
  exact ⟨ws ++ ws', hrun.append hrun'⟩

theorem Made.invariant {op : Op} {I : Ledger → Prop} {l l' : Ledger} (h : Made op l l')
    (hstep : ∀ a w b, I a → Applies a w b → op.makes w → I b) (hl : I l) : I l' := by
  obtain ⟨ws, hrun⟩ := h
  exact hrun.invariant (fun a w b ha hw => hstep a w b ha hw.1 hw.2) hl

variable {l : Ledger}

/-- Any refusal. -/
abbrev Refused : StoreError → Prop := fun _ => True

theorem budgetUnitsI64_within (units : ℕ) :
    Within Refused (fun stored : ℤ => stored = units) (budgetUnitsI64 units) := by
  unfold budgetUnitsI64
  split
  · rfl
  · trivial

theorem workBoundI64_within (field : String) (value : ℕ) :
    Within Refused (fun stored : ℤ => stored = value) (workBoundI64 field value) := by
  unfold workBoundI64
  split
  · rfl
  · trivial

theorem storedOpt_within (units : Option ℕ) :
    Within Refused (fun stored => stored = units.map (Nat.cast : ℕ → ℤ)) (storedOpt units) := by
  cases units with
  | none => rfl
  | some n =>
    apply Within.bind (budgetUnitsI64_within n)
    rintro _ rfl
    rfl

theorem unsigned_within (value : ℤ) :
    Within Refused (fun n : ℕ => (n : ℤ) = value) (unsigned value) := by
  unfold unsigned
  split
  · trivial
  · next h => exact Int.toNat_of_nonneg (Int.not_lt.mp h)

theorem workBudgetOn_within {taskId : String} {w : WorkBudgetRow} {b : BudgetScope}
    (hw : l.workRow taskId = some w) (hb : l.scopeRow taskId = some b) :
    Within Refused (· ≠ none) (l.workBudgetOn taskId) := by
  simp only [workBudgetOn, hw, hb]
  apply Within.bind (unsigned_within _)
  intro _ _
  apply Within.bind (unsigned_within _)
  intro _ _
  apply Within.bind (unsigned_within _)
  intro _ _
  apply Within.bind (unsigned_within _)
  intro _ _
  apply Within.bind (unsigned_within _)
  intro _ _
  simp

/-! ## Calls without a loop -/

theorem openBudget_made (scope : String) (limitUnits : ℕ) :
    Within Refused (Made (.openBudget scope limitUnits) l) (l.openBudget scope limitUnits) := by
  apply Within.bind (budgetUnitsI64_within limitUnits)
  rintro stored rfl
  split
  · trivial
  · next hfree =>
    apply Made.single (w := .openScope scope limitUnits)
    · exact ⟨by simpa using hfree, Int.natCast_nonneg _, rfl⟩
    · trivial

theorem openWorkBudgetTx_made (taskId : String) (deadline sendBound unitBound : ℕ) :
    Within Refused
      (fun r => Made (.openWorkBudget taskId deadline sendBound unitBound) l r.1 ∧ r.2 ≠ none)
      (l.openWorkBudgetTx taskId deadline sendBound unitBound) := by
  apply Within.bind (workBoundI64_within _ deadline)
  rintro _ rfl
  apply Within.bind (workBoundI64_within _ sendBound)
  rintro _ rfl
  apply Within.bind (workBoundI64_within _ unitBound)
  rintro _ rfl
  split
  · trivial
  split
  · trivial
  next hwork =>
  split
  · trivial
  next hscope =>
  have hscope : l.scopeRow taskId = none := by simpa using hscope
  apply Within.bind
  · apply workBudgetOn_within (w := ⟨taskId, deadline, sendBound, .open, none⟩)
      (b := ⟨taskId, unitBound, 0, 0⟩)
    · unfold workRow at hwork ⊢
      simp [insertScope, find?_append, hwork]
    · unfold scopeRow at hscope ⊢
      simp [insertScope, find?_append, hscope]
  intro budget hbudget
  refine ⟨?_, hbudget⟩
  apply Made.single (w := .openWork ⟨taskId, deadline, sendBound, .open, none⟩ unitBound)
  · exact ⟨hscope, hwork, rfl, Int.natCast_nonneg _, Int.natCast_nonneg _, rfl⟩
  · exact ⟨rfl, rfl⟩

theorem stopWorkBudget_made (taskId reason : String) :
    Within Refused (fun r => Made (.stopWorkBudget taskId reason) l r.1)
      (l.stopWorkBudget taskId reason) := by
  unfold stopWorkBudget
  split
  · trivial
  apply Within.bind trivially
  rintro (_ | budget) -
  · trivial
  · dsimp only
    split
    · apply Made.single (w := .stopWork taskId reason) rfl
      exact ⟨rfl, rfl⟩
    · trivial

theorem budgetCharge_made (reservationId : String) (confirmed : Option ℕ) :
    Within Refused (Made (.budgetCharge reservationId confirmed) l)
      (l.budgetCharge reservationId confirmed) := by
  apply Within.bind (storedOpt_within confirmed)
  rintro stored rfl
  apply of_forall
  intro l' hl'
  apply Made.single (w := .resolve reservationId .charged (confirmed.map Nat.cast))
  · exact ⟨by decide, by simp, by simp, hl'⟩
  · exact ⟨rfl, rfl⟩

theorem budgetRelease_made (reservationId : String) :
    Within Refused (Made (.budgetRelease reservationId) l) (l.budgetRelease reservationId) := by
  apply of_forall
  intro l' hl'
  apply Made.single (w := .resolve reservationId .released none)
  · exact ⟨by decide, by simp, by simp, hl'⟩
  · exact ⟨rfl, rfl⟩

/-! ## The reservation loop -/

theorem reserveAll_run {reservationId : String} {storedBound : ℤ} {bound : ℕ}
    {scopes : List String} {l' : Ledger} (hbound : 0 ≤ storedBound)
    (h : scopes.foldlM (reserveAt reservationId storedBound bound) l = .ok l') :
    Run Applies l (scopes.map (.reserve reservationId · storedBound)) l' := by
  apply (Run.of_foldlM h).relabel
  intro a scope b hb
  exact ⟨hbound, bound, hb⟩

theorem budgetReserve_made (reservationId : String) (scopes : List String) (bound : ℕ) :
    Within Refused
      (fun l' => (∀ r ∈ l.reservations, r.reservationId ≠ reservationId) ∧
        Made (.budgetReserve reservationId scopes bound) l l')
      (l.budgetReserve reservationId scopes bound) := by
  unfold budgetReserve
  split
  · trivial
  apply Within.bind (budgetUnitsI64_within bound)
  rintro _ rfl
  split
  · trivial
  next hunused =>
  apply of_forall
  intro l' hl'
  refine ⟨by simpa using hunused, _, (reserveAll_run (Int.natCast_nonneg _) hl').mem.mono ?_⟩
  rintro a w b ⟨happlies, hw⟩
  obtain ⟨scope, hscope, rfl⟩ := mem_map.mp hw
  exact ⟨happlies, rfl, hscope⟩

/-- What a begun send checked, and the writes it made. -/
structure Begun (l : Ledger) (scopes : List String) (context : SendContext)
    (manifest : RequestManifest) (l' : Ledger) (ticket : SendTicket) : Prop where
  bound : manifest.costBound < 2 ^ 63
  fresh : l.settlementRow manifest.attemptId = none
  allowed : ∀ t ∈ l.openScopes scopes, l.checkSendBound t = .ok ()
  writes : ∃ rowid, Run Applies l
    ((l.openScopes scopes).map (.reserve manifest.attemptId · manifest.costBound) ++
      [.dispatch rowid context manifest.attemptId manifest.costBound]) l'
  ticket_eq : ticket = ⟨manifest.attemptId, manifest.costBound, !(l.openScopes scopes).isEmpty⟩

theorem forM_ok_iff {ts : List String} {check : String → Except StoreError Unit} :
    ts.forM check = .ok () ↔ ∀ t ∈ ts, check t = .ok () := by
  induction ts with
  | nil => simp [List.forM, pure, Except.pure]
  | cons a ts ih =>
    change (check a >>= fun _ => ts.forM check) = .ok () ↔ _
    rw [forall_mem_cons, ← ih]
    cases check a with
    | error e => simp
    | ok u => simp

theorem beginSend_begun (scopes : List String) (context : SendContext)
    (manifest : RequestManifest) :
    Within Refused (fun r => Begun l scopes context manifest r.1 r.2)
      (l.beginSend scopes context manifest) := by
  have hbound : Within Refused (fun stored : ℤ => stored = manifest.costBound ∧
      manifest.costBound < 2 ^ 63) (budgetUnitsI64 manifest.costBound) := by
    unfold budgetUnitsI64
    split
    · next h => exact ⟨rfl, h⟩
    · trivial
  apply Within.bind hbound
  rintro _ ⟨rfl, hlt⟩
  split
  · trivial
  next hfresh =>
  apply Within.bind (P := fun _ => ∀ t ∈ l.openScopes scopes, l.checkSendBound t = .ok ())
  · exact of_forall fun _ h => forM_ok_iff.mp h
  intro _ hallowed
  apply Within.bind (P := fun l1 => Run Applies l
    ((l.openScopes scopes).map (.reserve manifest.attemptId · manifest.costBound)) l1)
  · exact of_forall fun l1 h => reserveAll_run (Int.natCast_nonneg _) h
  intro l1 hreserved
  apply Within.bind (of_forall fun _ h => h)
  rintro ⟨l2, rowid⟩ hnext
  apply Within.bind (of_forall fun _ h => h)
  intro l3 hinsert
  exact
    { bound := hlt
      fresh := by simpa using hfresh
      allowed := hallowed
      writes := ⟨rowid, hreserved.append
        (.single ⟨Int.natCast_nonneg _, l2, hnext, hinsert⟩)⟩
      ticket_eq := rfl }

theorem mem_openScopes {scopes : List String} {t : String} :
    t ∈ l.openScopes scopes ↔ t ∈ scopes ∧ (l.scopeRow t).isSome := by
  have hloop : ∀ opened : List String, (∀ t ∈ opened, (l.scopeRow t).isSome) →
      ∀ t, t ∈ scopes.foldl (fun opened scope =>
        if (l.scopeRow scope).isSome ∧ scope ∉ opened then opened ++ [scope] else opened) opened ↔
      t ∈ opened ∨ t ∈ scopes ∧ (l.scopeRow t).isSome := by
    induction scopes with
    | nil => simp
    | cons a scopes ih =>
      intro opened hopened t
      rw [foldl_cons]
      split
      · next ha =>
        rw [ih _ (by simpa [or_imp, forall_and] using ⟨hopened, ha.1⟩)]
        by_cases hta : t = a
        · subst hta
          simp [ha.1]
        · simp [hta]
      · next ha =>
        rw [ih _ hopened]
        by_cases hta : t = a
        · subst hta
          by_cases ht : t ∈ opened
          · simp [ht]
          · simp [ht, show (l.scopeRow t).isSome = false by simpa [ht] using ha]
        · simp [hta]
  have := hloop [] (by simp) t
  simpa [openScopes] using this

theorem Begun.made {scopes : List String} {context : SendContext} {manifest : RequestManifest}
    {l' : Ledger} {ticket : SendTicket} (h : Begun l scopes context manifest l' ticket) :
    Made (.beginSend scopes context manifest) l l' := by
  obtain ⟨rowid, hrun⟩ := h.writes
  refine ⟨_, hrun.mem.mono ?_⟩
  rintro a w b ⟨happlies, hw⟩
  refine ⟨happlies, ?_⟩
  rcases mem_append.mp hw with hw | hw
  · obtain ⟨t, ht, rfl⟩ := mem_map.mp hw
    exact ⟨rfl, (mem_openScopes.mp ht).1⟩
  · obtain rfl := mem_singleton.mp hw
    rfl

theorem nodup_openScopes (scopes : List String) : (l.openScopes scopes).Nodup := by
  have hloop : ∀ opened : List String, opened.Nodup →
      (scopes.foldl (fun opened scope =>
        if (l.scopeRow scope).isSome ∧ scope ∉ opened then opened ++ [scope] else opened)
        opened).Nodup := by
    induction scopes with
    | nil => exact fun _ h => h
    | cons a scopes ih =>
      intro opened hopened
      rw [foldl_cons]
      split
      · next ha =>
        apply ih
        rw [nodup_append]
        refine ⟨hopened, by simp, ?_⟩
        rintro b hb c hc rfl
        exact ha.2 (by simpa using (mem_singleton.mp hc) ▸ hb)
      · exact ih _ hopened
  exact hloop [] nodup_nil

/-! ## Closing a send -/

theorem closeSend_within (op : Op) {attemptId : String} {exactness : Exactness}
    {unknownReason : Option String} {wireRetries : ℕ} {bins : UsageBins ℤ}
    {charged : Option ℤ} {reserved : Bool} (hpos : ∀ c ∈ charged, 0 ≤ c)
    (hclose : op.makes (.close attemptId exactness unknownReason wireRetries bins charged))
    (hresolve : op.makes (.resolve attemptId .charged charged)) :
    Within Refused (fun r => ∀ l' ∈ r, Made op l l')
      (l.closeSend attemptId exactness unknownReason wireRetries bins charged reserved) := by
  unfold closeSend
  split
  · simp
  next l1 hsettle =>
  apply Within.bind (of_forall fun _ h => h)
  intro l2 htotal
  have hmade : Made op l l2 := Made.single
    (w := .close attemptId exactness unknownReason wireRetries bins charged)
    ⟨l1, hsettle, htotal⟩ hclose
  split
  · apply Within.bind (of_forall fun _ h => h)
    intro l3 hl3
    simp only [ok_iff, Option.mem_def, Option.some.injEq, forall_eq']
    exact hmade.trans (Made.single (w := .resolve attemptId .charged charged)
      ⟨by decide, by simp, hpos, hl3⟩ hresolve)
  · simpa using hmade

theorem finishSend_made (ticket : SendTicket) (outcome : SendOutcome) :
    Within Refused (Made (.finishSend ticket outcome) l) (l.finishSend ticket outcome) := by
  unfold finishSend
  dsimp only
  split
  · trivial
  apply Within.bind (storedOpt_within _)
  rintro charged rfl
  apply skip
  intro bins
  apply Within.bind
  · apply closeSend_within (.finishSend ticket outcome)
    · simp
    · rfl
    · exact ⟨rfl, rfl⟩
  rintro (_ | l') hl'
  · trivial
  · exact hl' l' rfl

/-! ## What the ledger writes do beside the scope rows -/

/-- A reservation row after its reservation has resolved. -/
def resolveRow (id : String) (terminal : ReservationState) (confirmed : Option ℤ)
    (r : BudgetReservation) : BudgetReservation :=
  if r.reservationId = id then { r with state := terminal, charged := confirmed } else r

section ResolveRow

variable {id : String} {terminal : ReservationState} {confirmed : Option ℤ}
  (r : BudgetReservation)

@[simp] theorem resolveRow_reservationId :
    (resolveRow id terminal confirmed r).reservationId = r.reservationId := by
  unfold resolveRow
  split <;> rfl

@[simp] theorem resolveRow_scope :
    (resolveRow id terminal confirmed r).scope = r.scope := by
  unfold resolveRow
  split <;> rfl

@[simp] theorem resolveRow_bound :
    (resolveRow id terminal confirmed r).bound = r.bound := by
  unfold resolveRow
  split <;> rfl

end ResolveRow

theorem updateScope_frame {scope : String} {guard : BudgetScope → Bool}
    {write : BudgetScope → BudgetScope} {l' : Ledger}
    (h : l.updateScope scope guard write = some l') : l' = { l with scopes := l'.scopes } := by
  unfold updateScope at h
  split at h
  · rw [← Option.some.inj h]
  · cases h

theorem reserveAt_rows {id scope : String} {bound : ℤ} {n : ℕ} {l' : Ledger}
    (h : reserveAt id bound n l scope = .ok l') :
    l' = { l with
      scopes := l'.scopes
      reservations := l.reservations ++ [⟨id, scope, bound, .reserved, none⟩] } := by
  unfold reserveAt at h
  split at h
  · cases h
  next l1 hreserve =>
  unfold insertReservation at h
  split at h
  · cases h
  rw [← Except.ok.inj h, updateScope_frame hreserve]

theorem resolveAt_frame {confirmed : Option ℤ} {release : Bool} {row : BudgetReservation} :
    Within Refused (fun l' => l' = { l with scopes := l'.scopes })
      (resolveAt confirmed release l row) := by
  unfold resolveAt
  split
  · cases hrelease : l.releaseBudgetScope row.scope row.bound with
    | none => rfl
    | some l1 => exact updateScope_frame hrelease
  · split
    · trivial
    · split
      · next hcharge => exact updateScope_frame hcharge
      · trivial

theorem mem_reservationScopes {id : String} {r : BudgetReservation} :
    r ∈ l.reservationScopes id ↔ r ∈ l.reservations ∧ r.reservationId = id := by
  rw [reservationScopes, mem_insertionSort, mem_filter, decide_eq_true_iff]

theorem resolveReservationTx_rows {id : String} {terminal : ReservationState}
    {confirmed : Option ℤ} {release : Bool} :
    Within Refused
      (fun l' => (∀ r ∈ l.reservations, r.reservationId = id → r.state = .reserved) ∧
        l' = { l with
          scopes := l'.scopes
          reservations := l.reservations.map (resolveRow id terminal confirmed) })
      (l.resolveReservationTx id terminal confirmed release) := by
  unfold resolveReservationTx
  dsimp only
  split
  · trivial
  split
  · trivial
  next hall =>
  apply Within.bind (P := fun a => a = { l with scopes := a.scopes })
  · refine Within.foldlM (I := fun _ (a : Ledger) => a = { l with scopes := a.scopes }) ?_ rfl
    intro seen row a _ ha
    apply resolveAt_frame.imp
    intro b hb
    rw [hb, ha]
  · intro a ha
    constructor
    · intro r hr hid
      simpa using find?_eq_none.mp hall r (mem_reservationScopes.mpr ⟨hr, hid⟩)
    · rw [ha]
      rfl

/-! ## What the settlement writes do -/

theorem le_maxRowid {rows : List Settlement} {s : Settlement} (hs : s ∈ rows) :
    s.rowid ≤ (maxRowid rows).getD 0 := by
  unfold maxRowid
  cases hmax : (rows.map Settlement.rowid).max? with
  | none =>
    rw [max?_eq_none_iff, map_eq_nil_iff] at hmax
    simp [hmax] at hs
  | some m => exact (max?_eq_some_iff.mp hmax).2 _ (mem_map_of_mem hs)

theorem storeTotals_eq {t : UsageTotals} {l' : Ledger} (h : l.storeTotals t = .ok l') :
    l' = { l with totals := some t } := by
  unfold storeTotals at h
  split at h
  · exact (Except.ok.inj h).symm
  · cases h

theorem nextSettlementRowid_eq {l1 : Ledger} {rowid : ℤ}
    (h : l.nextSettlementRowid = .ok (l1, rowid)) :
    ∃ t, l.totals = some t ∧ rowid = max t.nextRowid ((maxRowid l.settlements).getD 0 + 1) ∧
      l1 = { l with
        totals := some
          { t with nextRowid := rowid + 1, dispatchedCount := t.dispatchedCount + 1 } } := by
  unfold nextSettlementRowid at h
  split at h
  · cases h
  next t ht =>
  dsimp only at h
  cases hstore : l.storeTotals
      { t with
        nextRowid := max t.nextRowid ((maxRowid l.settlements).getD 0 + 1) + 1
        dispatchedCount := t.dispatchedCount + 1 } with
  | error e =>
    rw [hstore] at h
    cases h
  | ok l2 =>
    rw [hstore] at h
    obtain ⟨rfl, hrowid⟩ := Prod.mk.inj (Except.ok.inj h)
    have hrowid : rowid = max t.nextRowid ((maxRowid l.settlements).getD 0 + 1) := by omega
    exact ⟨t, ht, hrowid, hrowid ▸ storeTotals_eq hstore⟩

theorem Applies.dispatch_eq {rowid costBound : ℤ} {context : SendContext} {id : String}
    {l' : Ledger} (h : Applies l (.dispatch rowid context id costBound) l') :
    ∃ t, l.totals = some t ∧ rowid = max t.nextRowid ((maxRowid l.settlements).getD 0 + 1) ∧
      (∀ s ∈ l.settlements, s.attemptId ≠ id ∧ s.rowid ≠ rowid) ∧
      l' = { l with
        totals := some
          { t with nextRowid := rowid + 1, dispatchedCount := t.dispatchedCount + 1 }
        settlements := l.settlements ++ [settlementDispatched rowid context id costBound] } := by
  obtain ⟨-, l1, hnext, hinsert⟩ := h
  obtain ⟨t, ht, hrowid, rfl⟩ := nextSettlementRowid_eq hnext
  unfold insertSettlementDispatched at hinsert
  split at hinsert
  · cases hinsert
  next hfree =>
  exact ⟨t, ht, hrowid, by simpa using hfree, (Except.ok.inj hinsert).symm⟩

/-- A settlement row after it has closed. -/
def closed (exactness : Exactness) (unknownReason : Option String) (wireRetries : ℕ)
    (bins : UsageBins ℤ) (charged : Option ℤ) (s : Settlement) : Settlement :=
  { s with
    state := .settled
    exactness := exactness
    unknownReason := unknownReason
    wireRetries := wireRetries
    bins := bins
    chargedUnits := charged }

def closeRow (id : String) (close : Settlement → Settlement) (s : Settlement) : Settlement :=
  if s.attemptId = id ∧ s.state = .dispatched then close s else s

section CloseRow

variable {id : String} {exactness : Exactness} {unknownReason : Option String} {wireRetries : ℕ}
  {bins : UsageBins ℤ} {charged : Option ℤ} (s : Settlement)

@[simp] theorem closeRow_rowid :
    (closeRow id (closed exactness unknownReason wireRetries bins charged) s).rowid = s.rowid := by
  unfold closeRow
  split <;> rfl

@[simp] theorem closeRow_attemptId :
    (closeRow id (closed exactness unknownReason wireRetries bins charged) s).attemptId =
      s.attemptId := by
  unfold closeRow
  split <;> rfl

@[simp] theorem closeRow_costBound :
    (closeRow id (closed exactness unknownReason wireRetries bins charged) s).costBound =
      s.costBound := by
  unfold closeRow
  split <;> rfl

end CloseRow

theorem Applies.close_eq {id : String} {exactness : Exactness} {unknownReason : Option String}
    {wireRetries : ℕ} {bins : UsageBins ℤ} {charged : Option ℤ} {l' : Ledger}
    (h : Applies l (.close id exactness unknownReason wireRetries bins charged) l') :
    ∃ rows, rows = l.settlements.map
        (closeRow id (closed exactness unknownReason wireRetries bins charged)) ∧
      (∃ s ∈ l.settlements, s.attemptId = id ∧ s.state = .dispatched) ∧
      l' = { l with
        settlements := rows
        totals := l.totals.map fun t => addSettled t bins.totalTokens charged bins.promptTokens
          ((rows.find? (·.attemptId = id)).map Settlement.rowid =
            maxRowid (rows.filter (·.state = .settled))) } := by
  obtain ⟨l1, hsettle, htotal⟩ := h
  unfold settleUsageSettlement at hsettle
  split at hsettle
  · next hany =>
    obtain ⟨s, hs, hguard⟩ := any_eq_true.mp hany
    cases hsettle
    refine ⟨_, rfl, ⟨s, hs, by simpa using hguard⟩, ?_⟩
    unfold settleUsageTotal at htotal
    split at htotal
    · next hnone =>
      rw [← Except.ok.inj htotal]
      dsimp only at hnone
      simp only [hnone, Option.map_none]
      rfl
    · next t ht =>
      rw [storeTotals_eq htotal]
      dsimp only at ht
      simp only [ht, Option.map_some]
      rfl
  · cases hsettle

theorem Applies.resolved {w : Write} {l' : Ledger} (h : Applies l w l') {r : BudgetReservation}
    (hr : r ∈ l.reservations) (hstate : r.state ≠ .reserved) : r ∈ l'.reservations := by
  cases w with
  | openScope scope limitUnits =>
    obtain ⟨-, -, rfl⟩ := h
    exact hr
  | openWork row limitUnits =>
    obtain ⟨-, -, -, -, -, rfl⟩ := h
    exact hr
  | stopWork taskId reason =>
    obtain rfl := h
    exact hr
  | reserve id scope bound =>
    obtain ⟨-, n, hok⟩ := h
    rw [reserveAt_rows hok]
    exact mem_append_left _ hr
  | resolve id terminal confirmed =>
    obtain ⟨-, -, -, hok⟩ := h
    obtain ⟨hrows, heq⟩ := resolveReservationTx_rows.of_ok hok
    have hid : r.reservationId ≠ id := fun hid => hstate (hrows r hr hid)
    rw [heq]
    exact mem_map.mpr ⟨r, hr, by simp [resolveRow, hid]⟩
  | dispatch rowid context id costBound =>
    obtain ⟨t, -, -, -, rfl⟩ := h.dispatch_eq
    exact hr
  | close id exactness unknownReason wireRetries bins charged =>
    obtain ⟨_, rfl, -, rfl⟩ := h.close_eq
    exact hr

/-- No settlement row has a negative bound. -/
def CostsStored (l : Ledger) : Prop := ∀ s ∈ l.settlements, 0 ≤ s.costBound

theorem reconcileSends_made (hcosts : l.CostsStored) :
    Within Refused (fun r => Made .reconcileSends l r.1) l.reconcileSends := by
  refine Within.foldlM (fun _ (acc : Ledger × ℕ) => Made .reconcileSends l acc.1) ?_ (Made.nil _ l)
  rintro seen ⟨id, bound⟩ ⟨a, n⟩ hmem hmade
  have hbound : 0 ≤ bound := by
    obtain ⟨s, hs, heq⟩ := mem_map.mp hmem
    rw [mem_insertionSort, mem_filter] at hs
    obtain ⟨rfl, rfl⟩ := Prod.mk.inj heq
    exact hcosts s hs.1
  apply Within.bind
  · apply closeSend_within .reconcileSends
    · intro c hc
      split at hc <;> simp_all
    · trivial
    · rfl
  rintro (_ | l') hl'
  · exact hmade
  · exact hmade.trans (hl' l' rfl)

/-! ## One call -/

theorem commit_made {op : Op} {body : Except StoreError Ledger}
    (h : Within Refused (Made op l) body) : Made op l (l.commit body).1 := by
  cases body with
  | ok l' => exact h
  | error e => exact Made.nil op l

theorem commit_error {body : Except StoreError Ledger} {e : StoreError}
    (h : (l.commit body).2 = .error e) : (l.commit body).1 = l := by
  cases body with
  | ok l' => cases h
  | error e => rfl

theorem perform_made (hcosts : l.CostsStored) (op : Op) : Made op l (l.perform op).1 := by
  cases op with
  | openBudget scope limitUnits => exact commit_made (openBudget_made scope limitUnits)
  | openWorkBudget taskId deadline sendBound unitBound =>
    have h := openWorkBudgetTx_made (l := l) taskId deadline sendBound unitBound
    simp only [perform, openWorkBudget]
    split
    · exact Made.nil _ l
    · next l' htx => exact (h.of_ok htx).1
    · next l' budget htx => exact (h.of_ok htx).1
  | stopWorkBudget taskId reason => exact commit_made (map_fst (stopWorkBudget_made taskId reason))
  | budgetReserve reservationId scopes bound =>
    exact commit_made ((budgetReserve_made reservationId scopes bound).imp fun _ h => h.2)
  | budgetCharge reservationId confirmed =>
    exact commit_made (budgetCharge_made reservationId confirmed)
  | budgetRelease reservationId => exact commit_made (budgetRelease_made reservationId)
  | beginSend scopes context manifest =>
    exact commit_made (map_fst ((beginSend_begun scopes context manifest).imp fun _ h => h.made))
  | finishSend ticket outcome => exact commit_made (finishSend_made ticket outcome)
  | reconcileSends => exact commit_made (map_fst (reconcileSends_made hcosts))

theorem perform_error {op : Op} {e : StoreError} (h : (l.perform op).2 = .error e) :
    (l.perform op).1 = l := by
  cases op with
  | openWorkBudget taskId deadline sendBound unitBound =>
    have hmade := openWorkBudgetTx_made (l := l) taskId deadline sendBound unitBound
    simp only [perform, openWorkBudget] at h ⊢
    split
    · rfl
    · next l' htx => exact absurd rfl (hmade.of_ok htx).2
    · next l' budget htx =>
      rw [htx] at h
      cases h
  | _ => exact commit_error h

end Rivect.Ledger
