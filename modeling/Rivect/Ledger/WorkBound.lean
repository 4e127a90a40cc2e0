import Rivect.Ledger.Resolution

/-! # The send bound of bounded work

While sends go one after the other, the reservations at a work scope are its settled sends,
so the count that the dispatch transaction compares with the bound is complete. The
comparison is made only while the worker row is open.
-/

namespace Rivect.Ledger

open Lib List

variable {l l' : Ledger}

/-- The calls of bounded work; the standalone reservations are not sends. -/
def Op.isWork : Op → Bool
  | .openWorkBudget .. => true
  | .stopWorkBudget .. => true
  | .beginSend .. => true
  | .finishSend .. => true
  | .reconcileSends => true
  | _ => false

/-- Every earlier send at a work scope that the call draws on has settled. -/
def Serial (l : Ledger) : Op → Prop
  | .beginSend scopes _ _ =>
    ∀ t ∈ l.openScopes scopes, (l.workRow t).isSome → ∀ r ∈ l.reservations, r.scope = t →
      ∀ s ∈ l.settlements, s.attemptId = r.reservationId → s.state = .settled
  | _ => True

instance (l : Ledger) : (op : Op) → Decidable (Serial l op)
  | .beginSend scopes _ _ => inferInstanceAs (Decidable (∀ t ∈ l.openScopes scopes,
      (l.workRow t).isSome → ∀ r ∈ l.reservations, r.scope = t →
        ∀ s ∈ l.settlements, s.attemptId = r.reservationId → s.state = .settled))
  | .openBudget .. | .openWorkBudget .. | .stopWorkBudget .. | .budgetReserve ..
  | .budgetCharge .. | .budgetRelease .. | .finishSend .. | .reconcileSends => isTrue trivial

def SerialStep (l : Ledger) (op : Op) (l' : Ledger) : Prop :=
  Performs l op l' ∧ op.isWork ∧ Serial l op

/-- An admitted send draws on a stopped worker's scope whose settled sends fill its bound. -/
def Overruns (l : Ledger) : Op → Prop
  | .beginSend scopes _ manifest =>
    l.Admitted scopes manifest ∧ ∃ t ∈ l.openScopes scopes, ∃ w, l.workRow t = some w ∧
      w.state = .stopped ∧ w.sendBound ≤ l.settledSends t
  | _ => False

theorem not_overruns_of_open (h : ∀ w ∈ l.workBudgets, w.state = .open) (op : Op) :
    ¬ Overruns l op := by
  cases op with
  | beginSend scopes context manifest =>
    rintro ⟨-, t, -, w, hw, hstopped, -⟩
    rw [h w (mem_of_find?_eq_some hw)] at hstopped
    cases hstopped
  | _ => exact fun h => h

def BoundedStep (l : Ledger) (op : Op) (l' : Ledger) : Prop :=
  SerialStep l op l' ∧ ¬ Overruns l op

/-- The sends at a scope, settled or not. -/
def sendsAt (l : Ledger) (scope : String) : ℕ := l.reservations.countP (·.scope = scope)

/-- Every reservation is a send, and no worker has more of them than its bound. -/
structure Bounded (l : Ledger) : Prop where
  sound : l.Sound
  sent : ∀ r ∈ l.reservations, ∃ s ∈ l.settlements, s.attemptId = r.reservationId
  bounded : ∀ t w, l.workRow t = some w → (l.sendsAt t : ℤ) ≤ w.sendBound

theorem settledSends_le (l : Ledger) (t : String) : l.settledSends t ≤ l.sendsAt t := by
  unfold settledSends sendsAt
  rw [countP_filter]
  exact countP_mono_left fun r _ h => by simp_all

theorem settledSends_eq (h : l.Bounded) {t : String}
    (hserial : ∀ r ∈ l.reservations, r.scope = t → ∀ s ∈ l.settlements,
      s.attemptId = r.reservationId → s.state = .settled) : l.settledSends t = l.sendsAt t := by
  unfold settledSends sendsAt
  rw [countP_filter]
  apply countP_congr
  intro r hr
  constructor
  · intro hboth
    simp_all
  · intro hscope
    have hscope : r.scope = t := by simpa using hscope
    obtain ⟨s, hs, hid⟩ := h.sent r hr
    simpa [hscope] using ⟨s, hs, hid, hserial r hr hscope s hs hid⟩

/-! ## Worker rows -/

/-- A worker keeps its bound, and a stopped one stays as it is. -/
def WorkStays (l l' : Ledger) : Prop :=
  ∀ t w, l.workRow t = some w → ∃ w', l'.workRow t = some w' ∧ w'.sendBound = w.sendBound ∧
    (w.state = .stopped → w' = w)

theorem WorkStays.refl (l : Ledger) : WorkStays l l := fun _ w h => ⟨w, h, rfl, fun _ => rfl⟩

theorem WorkStays.trans {l'' : Ledger} (h : WorkStays l l') (h' : WorkStays l' l'') :
    WorkStays l l'' := by
  intro t w hw
  obtain ⟨w', hw', hbound, hsame⟩ := h t w hw
  obtain ⟨w'', hw'', hbound', hsame'⟩ := h' t w' hw'
  refine ⟨w'', hw'', hbound'.trans hbound, fun hstate => ?_⟩
  obtain rfl := hsame hstate
  exact hsame' hstate

theorem workRow_congr (h : l'.workBudgets = l.workBudgets) (t : String) :
    l'.workRow t = l.workRow t := by
  rw [workRow, h, workRow]

theorem WorkStays.of_eq (h : l'.workBudgets = l.workBudgets) : WorkStays l l' :=
  fun t w hw => ⟨w, (workRow_congr h t).trans hw, rfl, fun _ => rfl⟩

theorem workRow_stopped (taskId reason t : String) :
    (l.stopped taskId reason).workRow t = (l.workRow t).map fun w =>
      if w.taskId = taskId ∧ w.state = .open then
        { w with state := .stopped, stopReason := some reason }
      else w := by
  have hname : (fun w : WorkBudgetRow => decide (w.taskId = t)) ∘
      (fun w => if w.taskId = taskId ∧ w.state = .open then
        { w with state := .stopped, stopReason := some reason } else w) =
      fun w => decide (w.taskId = t) := by
    funext w
    simp only [Function.comp_apply]
    split <;> rfl
  unfold workRow stopped
  rw [find?_map, hname]

theorem workRow_append {row : WorkBudgetRow} {t : String} (hnone : l.workRow row.taskId = none) :
    (l.workBudgets ++ [row]).find? (·.taskId = t) =
      if t = row.taskId then some row else l.workRow t := by
  rw [find?_append]
  unfold workRow at hnone ⊢
  by_cases ht : t = row.taskId
  · subst ht
    simp [hnone]
  · cases l.workBudgets.find? (fun w => decide (w.taskId = t)) <;> simp [ht, Ne.symm ht]

theorem Applies.workStays {w : Write} (h : Applies l w l') : WorkStays l l' := by
  cases w with
  | openScope scope limitUnits =>
    obtain ⟨-, -, rfl⟩ := h
    exact .of_eq rfl
  | openWork row limitUnits =>
    obtain ⟨-, hnone, -, -, -, rfl⟩ := h
    intro t w hw
    refine ⟨w, ?_, rfl, fun _ => rfl⟩
    refine (workRow_append hnone).trans ?_
    rw [if_neg, hw]
    rintro rfl
    rw [hnone] at hw
    cases hw
  | stopWork taskId reason =>
    obtain rfl := h
    intro t w hw
    refine ⟨_, by rw [workRow_stopped, hw, Option.map_some], ?_, fun hstate => ?_⟩
    · split <;> rfl
    · exact if_neg fun h => by simp [hstate] at h
  | reserve id scope bound =>
    obtain ⟨-, n, hok⟩ := h
    rw [reserveAt_rows hok]
    exact .of_eq rfl
  | resolve id terminal confirmed =>
    obtain ⟨-, -, -, hok⟩ := h
    rw [(resolveReservationTx_rows.of_ok hok).2]
    exact .of_eq rfl
  | dispatch rowid context id costBound =>
    obtain ⟨t, -, -, -, rfl⟩ := h.dispatch_eq
    exact .of_eq rfl
  | close id exactness unknownReason wireRetries bins charged =>
    obtain ⟨_, rfl, -, rfl⟩ := h.close_eq
    exact .of_eq rfl

theorem perform_workStays (hl : l.CostsStored) (op : Op) : WorkStays l (l.perform op).1 :=
  (perform_made hl op).invariant (fun _ _ _ ha hw _ => ha.trans hw.workStays) (.refl l)

theorem openWorkBudget_refused {t : String} {w : WorkBudgetRow} (hw : l.workRow t = some w)
    (deadline sendBound unitBound : ℕ) :
    ∃ e, l.openWorkBudget t deadline sendBound unitBound = (l, .error e) := by
  have hrefused : Within Fails (fun _ => False)
      (l.openWorkBudgetTx t deadline sendBound unitBound) := by
    apply Within.skip
    intro _
    apply Within.skip
    intro _
    apply Within.skip
    intro _
    split
    · trivial
    · simp only [hw]
      trivial
  unfold openWorkBudget
  cases htx : l.openWorkBudgetTx t deadline sendBound unitBound with
  | ok r => exact (hrefused.of_ok htx).elim
  | error e => exact ⟨e, rfl⟩

/-! ## The invariant -/

/-- The writes that begin a send. -/
def Write.begins : Write → Bool
  | .reserve .. => true
  | .dispatch .. => true
  | _ => false

theorem sendsAt_eq_zero (h : l.Sound) {t : String} (hnone : l.scopeRow t = none) :
    l.sendsAt t = 0 := by
  apply countP_eq_zero.mpr
  intro r hr hscope
  have hrow := (h.rows r hr).scope
  have hscope : r.scope = t := by simpa using hscope
  rw [hscope, hnone] at hrow
  cases hrow

theorem Applies.bounded {w : Write} (h : Applies l w l') (hl : l.Bounded)
    (hw : w.begins = false) : l'.Bounded := by
  have hsound := h.sound hl.sound
  cases w with
  | openScope scope limitUnits =>
    obtain ⟨-, -, rfl⟩ := h
    exact ⟨hsound, hl.sent, hl.bounded⟩
  | openWork row limitUnits =>
    obtain ⟨hscope, hnone, -, -, hbound, rfl⟩ := h
    refine ⟨hsound, hl.sent, fun t w hrow => ?_⟩
    have hrow := (workRow_append hnone).symm.trans hrow
    change ((l.sendsAt t : ℕ) : ℤ) ≤ w.sendBound
    by_cases ht : t = row.taskId
    · rw [if_pos ht] at hrow
      obtain rfl := Option.some.inj hrow
      rw [ht, sendsAt_eq_zero hl.sound hscope]
      exact hbound
    · rw [if_neg ht] at hrow
      exact hl.bounded t w hrow
  | stopWork taskId reason =>
    obtain rfl := h
    refine ⟨hsound, hl.sent, fun t w' hrow => ?_⟩
    rw [workRow_stopped] at hrow
    obtain ⟨w, hw, rfl⟩ := Option.map_eq_some_iff.mp hrow
    have := hl.bounded t w hw
    split <;> exact this
  | reserve id scope bound => cases hw
  | resolve id terminal confirmed =>
    obtain ⟨-, -, -, hok⟩ := h
    have hrows := (resolveReservationTx_rows.of_ok hok).2
    have hsends : ∀ t, l'.sendsAt t = l.sendsAt t := by
      intro t
      rw [hrows]
      simp [sendsAt, countP_map, Function.comp_def]
    refine ⟨hsound, ?_, fun t w hrow => ?_⟩
    · rw [hrows]
      intro r' hr'
      obtain ⟨r, hr, rfl⟩ := mem_map.mp hr'
      rw [resolveRow_reservationId]
      exact hl.sent r hr
    · rw [hsends]
      rw [hrows] at hrow
      exact hl.bounded t w hrow
  | dispatch rowid context id costBound => cases hw
  | close id exactness unknownReason wireRetries bins charged =>
    obtain ⟨_, rfl, -, rfl⟩ := h.close_eq
    refine ⟨hsound, fun r hr => ?_, hl.bounded⟩
    obtain ⟨s, hs, hid⟩ := hl.sent r hr
    exact ⟨_, mem_map_of_mem hs, (closeRow_attemptId s).trans hid⟩

/-- The dispatch transaction compares an open worker's settled sends with its bound. -/
theorem settledSends_lt_of_check {t : String} {w : WorkBudgetRow} (hw : l.workRow t = some w)
    (hopen : w.state = .open) (hcheck : l.checkSendBound t = .ok ()) :
    (l.settledSends t : ℤ) < w.sendBound := by
  by_contra hge
  have hcond : w.state = .open ∧ w.sendBound ≤ l.settledSends t := ⟨hopen, Int.not_lt.mp hge⟩
  simp only [checkSendBound, hw, if_pos hcond] at hcheck
  cases hbound : unsigned w.sendBound with
  | ok n =>
    rw [hbound] at hcheck
    cases hcheck
  | error e =>
    rw [hbound] at hcheck
    cases hcheck

/-- A send that begins adds one reservation at each of its scopes, and its settlement row. -/
theorem beginSend_rows (hl : l.Sound) {scopes : List String} {context : SendContext}
    {manifest : RequestManifest} {ticket : SendTicket}
    (h : l.beginSend scopes context manifest = .ok (l', ticket)) :
    l'.workBudgets = l.workBudgets ∧
      l'.reservations = l.reservations ++ (l.openScopes scopes).map
        (⟨manifest.attemptId, ·, manifest.costBound, .reserved, none⟩) ∧
      ∃ s, s.attemptId = manifest.attemptId ∧ l'.settlements = l.settlements ++ [s] := by
  obtain ⟨-, -, -, ⟨rowid, hrun⟩, -⟩ := (beginSend_begun scopes context manifest).of_ok h
  obtain ⟨a, hreserves, hdispatch⟩ := hrun.split
  have hreserved := reserved_of_run hl (nodup_openScopes scopes) hreserves
  cases hdispatch with
  | cons hwrite hrest =>
    cases hrest
    obtain ⟨t, -, -, -, rfl⟩ := hwrite.dispatch_eq
    exact ⟨hreserved.workBudgets, hreserved.rows, _, rfl, by rw [hreserved.settlements]⟩

theorem beginSend_bounded (hl : l.Bounded) {scopes : List String} {context : SendContext}
    {manifest : RequestManifest} {ticket : SendTicket}
    (h : l.beginSend scopes context manifest = .ok (l', ticket)) (hsound : l'.Sound)
    (hserial : Serial l (.beginSend scopes context manifest))
    (hbounded : ¬ Overruns l (.beginSend scopes context manifest)) : l'.Bounded := by
  obtain ⟨hwork, hrows, s, hid, hsettlements⟩ := beginSend_rows hl.sound h
  refine ⟨hsound, ?_, ?_⟩
  · intro r hr
    rw [hsettlements]
    rw [hrows] at hr
    rcases mem_append.mp hr with hr | hr
    · obtain ⟨q, hq, heq⟩ := hl.sent r hr
      exact ⟨q, mem_append_left _ hq, heq⟩
    · obtain ⟨t, -, rfl⟩ := mem_map.mp hr
      exact ⟨s, by simp, hid⟩
  · intro t w hw
    rw [workRow_congr hwork] at hw
    have hold := hl.bounded t w hw
    have hsends : l'.sendsAt t = l.sendsAt t + (l.openScopes scopes).count t := by
      rw [sendsAt, hrows, countP_append, countP_map]
      rfl
    by_cases ht : t ∈ l.openScopes scopes
    · rw [hsends, count_eq_one_of_mem (nodup_openScopes scopes) ht]
      have hadmitted := (beginSend_ok_iff hl.sound _).mp ⟨_, h⟩
      have hall := settledSends_eq hl (hserial t ht (Option.isSome_iff_exists.mpr ⟨w, hw⟩))
      have hlt : (l.settledSends t : ℤ) < w.sendBound := by
        by_cases hopen : w.state = .open
        · exact settledSends_lt_of_check hw hopen (hadmitted.allowed t ht)
        · have hstopped : w.state = .stopped := by cases hstate : w.state <;> simp_all
          by_contra hge
          exact hbounded ⟨hadmitted, t, ht, w, hw, hstopped, Int.not_lt.mp hge⟩
      omega
    · rw [hsends, count_eq_zero_of_not_mem ht]
      exact hold

theorem fresh_bounded (tasks : List String) : (fresh tasks).Bounded :=
  ⟨fresh_sound tasks, by simp [fresh], by simp [fresh, workRow]⟩

theorem bounded_step {op : Op} (hl : l.Bounded) (hstep : BoundedStep l op l') : l'.Bounded := by
  obtain ⟨⟨rfl, hwork, hserial⟩, hover⟩ := hstep
  have hmade := perform_made hl.sound.costs op
  have hsound := perform_sound hl.sound op
  have hplain : (∀ w, op.makes w → w.begins = false) → (l.perform op).1.Bounded :=
    fun hop => hmade.invariant (fun _ _ _ ha hw hmakes => hw.bounded ha (hop _ hmakes)) hl
  cases op with
  | beginSend scopes context manifest =>
    cases hsend : l.beginSend scopes context manifest with
    | error e =>
      simp only [perform, hsend]
      exact hl
    | ok r =>
      have hperform : (l.perform (.beginSend scopes context manifest)).1 = r.1 := by
        simp [perform, hsend, commit, Except.map]
      rw [hperform] at hsound ⊢
      exact beginSend_bounded hl hsend hsound hserial hover
  | budgetReserve reservationId scopes bound => cases hwork
  | _ =>
    apply hplain
    intro w hw
    cases w with
    | reserve id scope bound => exact False.elim hw
    | dispatch rowid context id costBound => exact False.elim hw
    | _ => rfl

/-- The sends settled at a work scope never pass its bound while no send overruns a stopped
worker's; and a stopped worker stays as it is and is never opened again. -/
theorem send_bound_kept {tasks : List String} {ops : List Op}
    (hrun : Run BoundedStep (fresh tasks) ops l) :
    (∀ t w, l.workRow t = some w → (l.settledSends t : ℤ) ≤ w.sendBound) ∧
      ∀ pre post a, ops = pre ++ post → Run Performs (fresh tasks) pre a →
        ∀ t w, a.workRow t = some w → w.state = .stopped → l.workRow t = some w ∧
          ∀ deadline sendBound unitBound,
            ∃ e, a.openWorkBudget t deadline sendBound unitBound = (a, .error e) := by
  have hkeep : ∀ a op b, a.Bounded → BoundedStep a op b → b.Bounded :=
    fun a op b ha hop => bounded_step ha hop
  have hl := hrun.invariant hkeep (fresh_bounded tasks)
  constructor
  · intro t w hw
    have hsends := hl.bounded t w hw
    have hsettled := settledSends_le l t
    omega
  · rintro pre post a rfl hpre t w hw hstopped
    obtain ⟨b, hb, hpost⟩ := hrun.split
    obtain rfl := (hb.mono fun _ _ _ h => h.1.1).unique (fun s op a b ha hb => ha.symm.trans hb) hpre
    have hstays := hpost.relates (R := WorkStays) WorkStays.refl (fun _ _ _ => WorkStays.trans)
      hkeep (fun a op b ha hop => hop.1.1 ▸ perform_workStays ha.sound.costs op)
      (hb.invariant hkeep (fresh_bounded tasks))
    obtain ⟨w', hw', -, hsame⟩ := hstays t w hw
    rw [hsame hstopped] at hw'
    exact ⟨hw', openWorkBudget_refused hw⟩

/-- A worker of one send that a child's send fills, and its stop. -/
theorem send_bound_kept_filled : ∃ l, Run BoundedStep (fresh ["task"])
      [.openWorkBudget "task" 60 1 10,
        .beginSend ["child", "task"] ⟨"turn", "local", none, none⟩ ⟨"a", 4⟩,
        .finishSend ⟨"a", 4, true⟩ (.failed 0), .stopWorkBudget "task" "bound reached"] l ∧
    l.settledSends "task" = 1 ∧ l.workRow "task" = some ⟨"task", 60, 1, .stopped, some "bound reached"⟩ ∧
    ((l.settledSends "task" : ℕ) : ℤ) ≤ 1 := by
  have hrun : Run BoundedStep (fresh ["task"])
      [.openWorkBudget "task" 60 1 10,
        .beginSend ["child", "task"] ⟨"turn", "local", none, none⟩ ⟨"a", 4⟩,
        .finishSend ⟨"a", 4, true⟩ (.failed 0), .stopWorkBudget "task" "bound reached"] _ :=
    .cons ⟨⟨rfl, rfl, trivial⟩, not_overruns_of_open (by decide) _⟩
      (.cons ⟨⟨rfl, rfl, by decide⟩, not_overruns_of_open (by decide) _⟩
        (.cons ⟨⟨rfl, rfl, trivial⟩, not_overruns_of_open (by decide) _⟩
          (.cons ⟨⟨rfl, rfl, trivial⟩, not_overruns_of_open (by decide) _⟩ (.nil _))))
  exact ⟨_, hrun, by decide, by decide, (send_bound_kept hrun).1 "task" _ rfl⟩

/-- Two sends settle at a scope of one: the second begins after the stop. -/
theorem send_bound_passed : ¬ ∀ (tasks : List String) (ops : List Op) (l : Ledger),
    Run SerialStep (fresh tasks) ops l → ∀ t w, l.workRow t = some w →
      (l.settledSends t : ℤ) ≤ w.sendBound := by
  intro hclaim
  have hrun : Run SerialStep (fresh ["task"])
      [.openWorkBudget "task" 60 1 10,
        .beginSend ["task"] ⟨"turn", "local", none, none⟩ ⟨"a", 4⟩,
        .finishSend ⟨"a", 4, true⟩ (.failed 0), .stopWorkBudget "task" "stopped",
        .beginSend ["task"] ⟨"turn", "local", none, none⟩ ⟨"b", 4⟩,
        .finishSend ⟨"b", 4, true⟩ (.failed 0)] _ :=
    .cons ⟨rfl, rfl, trivial⟩ (.cons ⟨rfl, rfl, by decide⟩ (.cons ⟨rfl, rfl, trivial⟩
      (.cons ⟨rfl, rfl, trivial⟩ (.cons ⟨rfl, rfl, by decide⟩ (.cons ⟨rfl, rfl, trivial⟩ (.nil _))))))
  exact absurd (hclaim ["task"] _ _ hrun "task" _ rfl) (by decide)

end Rivect.Ledger
