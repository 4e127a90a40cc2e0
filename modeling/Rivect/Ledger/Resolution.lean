import Rivect.Ledger.Conservation

/-! # A reservation resolves as a whole, and once

Every row of a reservation is in one state as long as no row is reserved under an id that has
already resolved. The standalone reserve asks for an unused id; a send asks only for an
unused attempt.
-/

namespace Rivect.Ledger

open Lib List

variable {l l' l'' : Ledger}

/-- All rows of one reservation are in the same state, at the same confirmed cost. -/
def Together (l : Ledger) : Prop :=
  ∀ r ∈ l.reservations, ∀ r' ∈ l.reservations, r.reservationId = r'.reservationId →
    r.state = r'.state ∧ r.charged = r'.charged

/-- A scope keeps its limit and a resolved row stays as it is. -/
structure Evolves (l l' : Ledger) : Prop where
  limits : ∀ t b, l.scopeRow t = some b →
    ∃ b', l'.scopeRow t = some b' ∧ b'.limitUnits = b.limitUnits
  resolved : ∀ r ∈ l.reservations, r.state ≠ .reserved → r ∈ l'.reservations

theorem Evolves.refl (l : Ledger) : Evolves l l :=
  ⟨fun _ b h => ⟨b, h, rfl⟩, fun _ h _ => h⟩

theorem Evolves.trans (h : Evolves l l') (h' : Evolves l' l'') : Evolves l l'' := by
  constructor
  · intro t b hb
    obtain ⟨b', hb', hlimit⟩ := h.limits t b hb
    obtain ⟨b'', hb'', hlimit'⟩ := h'.limits t b' hb'
    exact ⟨b'', hb'', hlimit'.trans hlimit⟩
  · intro r hr hstate
    exact h'.resolved r (h.resolved r hr hstate) hstate

theorem limits_of_map {f : BudgetScope → BudgetScope}
    (hf : ∀ b, (f b).scope = b.scope ∧ (f b).limitUnits = b.limitUnits)
    (hscopes : l'.scopes = l.scopes.map f) (t : String) (b : BudgetScope)
    (hb : l.scopeRow t = some b) : ∃ b', l'.scopeRow t = some b' ∧ b'.limitUnits = b.limitUnits := by
  refine ⟨f b, ?_, (hf b).2⟩
  unfold scopeRow at hb ⊢
  rw [hscopes, find?_map]
  simp only [Function.comp_def, hf, hb, Option.map_some]

theorem limits_of_append {rows : List BudgetScope} (hscopes : l'.scopes = l.scopes ++ rows)
    (t : String) (b : BudgetScope) (hb : l.scopeRow t = some b) :
    ∃ b', l'.scopeRow t = some b' ∧ b'.limitUnits = b.limitUnits := by
  refine ⟨b, ?_, rfl⟩
  unfold scopeRow at hb ⊢
  rw [hscopes, find?_append, hb]
  rfl

theorem Applies.evolves {w : Write} (h : Applies l w l') (hl : l.Sound) : Evolves l l' := by
  refine ⟨?_, fun r hr hstate => h.resolved hr hstate⟩
  cases w with
  | openScope scope limitUnits =>
    obtain ⟨-, -, rfl⟩ := h
    exact limits_of_append rfl
  | openWork row limitUnits =>
    obtain ⟨-, -, -, -, -, rfl⟩ := h
    exact limits_of_append rfl
  | stopWork taskId reason =>
    obtain rfl := h
    exact fun t b hb => ⟨b, hb, rfl⟩
  | reserve id scope bound =>
    obtain ⟨-, n, hok⟩ := h
    obtain ⟨-, -, -, -, -, rfl⟩ := reserveAt_eq hl.names hok
    apply limits_of_map _ rfl
    intro c
    split <;> exact ⟨rfl, rfl⟩
  | resolve id terminal confirmed =>
    obtain ⟨-, -, -, hok⟩ := h
    obtain ⟨-, -, rfl⟩ := (resolveReservationTx_within hl.names).of_ok hok
    exact limits_of_map (f := settleScope _ _ _) (fun c => ⟨rfl, rfl⟩) rfl
  | dispatch rowid context id costBound =>
    obtain ⟨t, -, -, -, rfl⟩ := h.dispatch_eq
    exact fun t b hb => ⟨b, hb, rfl⟩
  | close id exactness unknownReason wireRetries bins charged =>
    obtain ⟨_, rfl, -, rfl⟩ := h.close_eq
    exact fun t b hb => ⟨b, hb, rfl⟩

theorem perform_evolves (hl : l.Sound) (op : Op) : Evolves l (l.perform op).1 := by
  have h := (perform_made hl.costs op).invariant (I := fun a => a.Sound ∧ Evolves l a)
    (fun a w b ha hw _ => ⟨hw.sound ha.1, ha.2.trans (hw.evolves ha.1)⟩) ⟨hl, .refl l⟩
  exact h.2

/-! ## Rows of one id -/

/-- Every row of the id is still reserved. -/
def Unresolved (l : Ledger) (id : String) : Prop :=
  ∀ r ∈ l.reservations, r.reservationId = id → r.state = .reserved

/-- A reservation row joins rows that are still reserved. -/
def Joins (l : Ledger) : Write → Prop
  | .reserve id _ _ => l.Unresolved id
  | _ => True

theorem Applies.together {w : Write} (h : Applies l w l') (hl : l.Sound) (ht : l.Together)
    (hjoins : l.Joins w) : l'.Together := by
  cases w with
  | openScope scope limitUnits =>
    obtain ⟨-, -, rfl⟩ := h
    exact ht
  | openWork row limitUnits =>
    obtain ⟨-, -, -, -, -, rfl⟩ := h
    exact ht
  | stopWork taskId reason =>
    obtain rfl := h
    exact ht
  | reserve id scope bound =>
    obtain ⟨-, n, hok⟩ := h
    obtain ⟨-, -, -, -, -, rfl⟩ := reserveAt_eq hl.names hok
    have hold : ∀ r ∈ l.reservations, r.reservationId = id → r.state = .reserved ∧ r.charged = none :=
      fun r hr hid => ⟨hjoins r hr hid, (hl.rows r hr).unresolved (hjoins r hr hid)⟩
    intro r hr r' hr' hid
    rcases mem_append.mp hr with hr | hr <;> rcases mem_append.mp hr' with hr' | hr'
    · exact ht r hr r' hr' hid
    · obtain rfl := mem_singleton.mp hr'
      exact hold r hr hid
    · obtain rfl := mem_singleton.mp hr
      obtain ⟨hstate, hcharged⟩ := hold r' hr' hid.symm
      exact ⟨hstate.symm, hcharged.symm⟩
    · rw [mem_singleton.mp hr, mem_singleton.mp hr']
      exact ⟨rfl, rfl⟩
  | resolve id terminal confirmed =>
    obtain ⟨-, -, -, hok⟩ := h
    obtain ⟨-, -, rfl⟩ := (resolveReservationTx_within hl.names).of_ok hok
    intro r' hr' q' hq' hid
    obtain ⟨r, hr, rfl⟩ := mem_map.mp hr'
    obtain ⟨q, hq, rfl⟩ := mem_map.mp hq'
    rw [resolveRow_reservationId, resolveRow_reservationId] at hid
    by_cases hrid : r.reservationId = id
    · have hqid : q.reservationId = id := hid.symm.trans hrid
      simp [resolveRow, hrid, hqid]
    · have hqid : q.reservationId ≠ id := fun h => hrid (hid.trans h)
      simpa [resolveRow, hrid, hqid] using ht r hr q hq hid
  | dispatch rowid context id costBound =>
    obtain ⟨t, -, -, -, rfl⟩ := h.dispatch_eq
    exact ht
  | close id exactness unknownReason wireRetries bins charged =>
    obtain ⟨_, rfl, -, rfl⟩ := h.close_eq
    exact ht

theorem Applies.unresolved {w : Write} {id : String} (h : Applies l w l') (hl : l.Sound)
    (hid : l.Unresolved id)
    (hw : (∃ i t b, w = .reserve i t b) ∨ ∃ n c i b, w = .dispatch n c i b) :
    l'.Unresolved id := by
  rcases hw with ⟨i, t, b, rfl⟩ | ⟨n, c, i, b, rfl⟩
  · obtain ⟨-, n, hok⟩ := h
    obtain ⟨-, -, -, -, -, rfl⟩ := reserveAt_eq hl.names hok
    intro r hr heq
    rcases mem_append.mp hr with hr | hr
    · exact hid r hr heq
    · rw [mem_singleton.mp hr]
  · obtain ⟨t, -, -, -, rfl⟩ := h.dispatch_eq
    exact hid

/-! ## When a send is admitted -/

/-- The two statements at a scope go through: the bound fits, and the id has no row there. -/
def Fits (l : Ledger) (id : String) (bound : ℤ) (scope : String) : Prop :=
  (∀ b, l.scopeRow scope = some b → b.spent + b.reserved + bound ≤ b.limitUnits) ∧
    ∀ r ∈ l.reservations, r.reservationId = id → r.scope ≠ scope

/-- The checks that a send passes. -/
structure Admitted (l : Ledger) (scopes : List String) (manifest : RequestManifest) : Prop where
  bound : manifest.costBound < 2 ^ 63
  fresh : l.settlementRow manifest.attemptId = none
  allowed : ∀ t ∈ l.openScopes scopes, l.checkSendBound t = .ok ()
  fits : ∀ t ∈ l.openScopes scopes, l.Fits manifest.attemptId manifest.costBound t
  counted : ∃ r, l.nextSettlementRowid = .ok r

section Reserve

variable {id scope : String} {bound : ℤ} {n : ℕ}

theorem scopeRow_of_mem (hnames : (l.scopes.map BudgetScope.scope).Nodup) {b : BudgetScope}
    (hb : b ∈ l.scopes) : l.scopeRow b.scope = some b := by
  cases hrow : l.scopeRow b.scope with
  | none => exact absurd (find?_eq_none.mp hrow b hb) (by simp)
  | some c =>
    obtain ⟨hc, hscope⟩ := mem_scopes_of_scopeRow hrow
    rw [inj_on_of_nodup_map hnames hc hb hscope]

theorem scopeRow_setScope (write : BudgetScope → BudgetScope)
    (hwrite : ∀ b, (write b).scope = b.scope) {t : String} (ht : t ≠ scope) :
    (l.setScope scope write).scopeRow t = l.scopeRow t := by
  have hname : (fun b : BudgetScope => decide (b.scope = t)) ∘
      (fun b => if b.scope = scope then write b else b) = fun b => decide (b.scope = t) := by
    funext b
    simp only [Function.comp_apply]
    split <;> simp [hwrite]
  unfold scopeRow setScope
  rw [find?_map, hname]
  cases hrow : l.scopes.find? (fun b => decide (b.scope = t)) with
  | none => rfl
  | some b =>
    have hb : b.scope = t := by simpa using find?_some hrow
    simp [hb, ht]

theorem reserveAt_frame (hnames : (l.scopes.map BudgetScope.scope).Nodup)
    (h : reserveAt id bound n l scope = .ok l') :
    l'.settlements = l.settlements ∧ l'.totals = l.totals ∧
      l'.reservations = l.reservations ++ [⟨id, scope, bound, .reserved, none⟩] ∧
      l.Fits id bound scope ∧ ∀ t, t ≠ scope → (l'.Fits id bound t ↔ l.Fits id bound t) := by
  obtain ⟨b, hb, hscope, hfits, hfree, rfl⟩ := reserveAt_eq hnames h
  have hrow := scopeRow_of_mem hnames hb
  rw [hscope] at hrow
  refine ⟨rfl, rfl, rfl, ⟨?_, hfree⟩, ?_⟩
  · intro c hc
    obtain rfl := Option.mem_unique hrow hc
    exact hfits
  · intro t ht
    have hscopeRow := scopeRow_setScope (l := l)
      (fun b => { b with reserved := b.reserved + bound }) (fun _ => rfl) ht
    constructor
    · rintro ⟨hlimit, hunused⟩
      refine ⟨fun c hc => hlimit c (hscopeRow.trans hc), fun r hr => hunused r ?_⟩
      exact mem_append_left _ hr
    · rintro ⟨hlimit, hunused⟩
      refine ⟨fun c hc => hlimit c (hscopeRow.symm.trans hc), fun r hr hid => ?_⟩
      rcases mem_append.mp hr with hr | hr
      · exact hunused r hr hid
      · rw [mem_singleton.mp hr]
        exact ht.symm

theorem reserveAt_ok (hrow : (l.scopeRow scope).isSome) (hfits : l.Fits id bound scope) :
    ∃ l', reserveAt id bound n l scope = .ok l' := by
  obtain ⟨b, hb⟩ := Option.isSome_iff_exists.mp hrow
  obtain ⟨hmem, hname⟩ := mem_scopes_of_scopeRow hb
  have hany : (l.scopes.any fun c =>
      c.scope = scope ∧ (decide (c.spent + c.reserved + bound ≤ c.limitUnits)) = true) = true := by
    apply any_eq_true.mpr
    exact ⟨b, hmem, by simpa [hname] using hfits.1 b hb⟩
  unfold reserveAt reserveBudget updateScope
  rw [if_pos hany]
  exact ⟨_, if_neg (by simpa using hfits.2)⟩

/-- What the reservation loop of a call does. -/
structure Reserved (l : Ledger) (id : String) (bound : ℤ) (ts : List String) (l' : Ledger) :
    Prop where
  settlements : l'.settlements = l.settlements
  totals : l'.totals = l.totals
  workBudgets : l'.workBudgets = l.workBudgets
  rows : l'.reservations = l.reservations ++ ts.map (⟨id, ·, bound, .reserved, none⟩)
  fits : ∀ t ∈ ts, l.Fits id bound t

theorem reserved_of_run {ts : List String} (hl : l.Sound) (hts : ts.Nodup)
    (h : Run Applies l (ts.map (.reserve id · bound)) l') : l.Reserved id bound ts l' := by
  induction ts generalizing l with
  | nil =>
    cases h
    exact ⟨rfl, rfl, rfl, by simp, by simp⟩
  | cons t ts ih =>
    cases h with
    | cons hwrite hrest =>
      obtain ⟨ht, hts⟩ := nodup_cons.mp hts
      obtain ⟨m, hok⟩ := hwrite.2
      obtain ⟨hsettlements, htotals, hrows, hfits, hframe⟩ := reserveAt_frame hl.names hok
      have ha := ih (hwrite.sound hl) hts hrest
      have hwork := congrArg Ledger.workBudgets (reserveAt_rows hok)
      refine ⟨ha.settlements.trans hsettlements, ha.totals.trans htotals,
        ha.workBudgets.trans hwork, ?_, ?_⟩
      · rw [ha.rows, hrows, append_assoc]
        rfl
      · intro u hu
        rcases mem_cons.mp hu with rfl | hu
        · exact hfits
        · exact (hframe u (fun h => ht (h ▸ hu))).mp (ha.fits u hu)

theorem reserveAll_ok {ts : List String} (hbound : 0 ≤ bound) (hl : l.Sound) (hts : ts.Nodup)
    (hrows : ∀ t ∈ ts, (l.scopeRow t).isSome) (hfits : ∀ t ∈ ts, l.Fits id bound t) :
    ∃ l', ts.foldlM (reserveAt id bound n) l = .ok l' := by
  induction ts generalizing l with
  | nil => exact ⟨l, rfl⟩
  | cons t ts ih =>
    obtain ⟨ht, hts⟩ := nodup_cons.mp hts
    obtain ⟨a, ha⟩ := reserveAt_ok (n := n) (hrows t mem_cons_self) (hfits t mem_cons_self)
    obtain ⟨-, -, -, -, hframe⟩ := reserveAt_frame hl.names ha
    have hwrite : Applies l (.reserve id t bound) a := ⟨hbound, n, ha⟩
    rw [foldlM_cons, ha]
    refine ih (hwrite.sound hl) hts ?_ ?_
    · intro u hu
      obtain ⟨b, hb⟩ := Option.isSome_iff_exists.mp (hrows u (mem_cons_of_mem _ hu))
      obtain ⟨c, hc, -⟩ := (hwrite.evolves hl).limits u b hb
      exact Option.isSome_iff_exists.mpr ⟨c, hc⟩
    · intro u hu
      exact (hframe u (fun h => ht (h ▸ hu))).mpr (hfits u (mem_cons_of_mem _ hu))

end Reserve

theorem nextSettlementRowid_congr (hsettlements : l'.settlements = l.settlements)
    (htotals : l'.totals = l.totals) :
    (∃ r, l'.nextSettlementRowid = .ok r) ↔ ∃ r, l.nextSettlementRowid = .ok r := by
  unfold nextSettlementRowid storeTotals
  rw [htotals, hsettlements]
  cases l.totals with
  | none => simp
  | some t =>
    dsimp only
    split <;> simp

theorem beginSend_ok_iff (hl : l.Sound) {scopes : List String} (context : SendContext)
    {manifest : RequestManifest} :
    (∃ r, l.beginSend scopes context manifest = .ok r) ↔ l.Admitted scopes manifest := by
  constructor
  · rintro ⟨⟨l', ticket⟩, h⟩
    obtain ⟨hbound, hfresh, hallowed, ⟨rowid, hrun⟩, -⟩ :=
      (beginSend_begun scopes context manifest).of_ok h
    obtain ⟨a, hreserves, hdispatch⟩ := hrun.split
    have hreserved := reserved_of_run hl (nodup_openScopes scopes) hreserves
    refine ⟨hbound, hfresh, hallowed, hreserved.fits, ?_⟩
    cases hdispatch with
    | cons hwrite _ =>
      obtain ⟨-, b, hnext, -⟩ := hwrite
      exact (nextSettlementRowid_congr hreserved.settlements hreserved.totals).mp ⟨_, hnext⟩
  · rintro ⟨hbound, hfresh, hallowed, hfits, hcounted⟩
    have hforM := forM_ok_iff.mpr hallowed
    obtain ⟨a, ha⟩ := reserveAll_ok (n := manifest.costBound) (Int.natCast_nonneg _) hl
      (nodup_openScopes scopes) (fun t ht => (mem_openScopes.mp ht).2) hfits
    have hreserved := reserved_of_run hl (nodup_openScopes scopes)
      (reserveAll_run (Int.natCast_nonneg _) ha)
    obtain ⟨⟨b, rowid⟩, hnext⟩ :=
      (nextSettlementRowid_congr hreserved.settlements hreserved.totals).mpr hcounted
    have hinsert : ∃ c, b.insertSettlementDispatched rowid context manifest.attemptId
        manifest.costBound = .ok c := by
      obtain ⟨t, -, hrowid, rfl⟩ := nextSettlementRowid_eq hnext
      have hid : ∀ s ∈ a.settlements, s.attemptId ≠ manifest.attemptId := by
        rw [hreserved.settlements]
        simpa [settlementRow] using hfresh
      have hold : ∀ s ∈ a.settlements, s.rowid ≠ rowid := by
        intro s hs
        have := le_maxRowid hs
        omega
      refine ⟨_, if_neg ?_⟩
      simp only [any_eq_true, decide_eq_true_iff, not_exists, not_and, not_or]
      exact fun s hs => ⟨hid s hs, hold s hs⟩
    obtain ⟨c, hc⟩ := hinsert
    refine ⟨(c, ⟨manifest.attemptId, manifest.costBound, !(l.openScopes scopes).isEmpty⟩), ?_⟩
    simp only [beginSend, budgetUnitsI64, hbound, if_true, ok_bind, hfresh, Option.isSome_none,
      Bool.false_eq_true, if_false, hforM, ha, hnext, hc]

theorem beginSend_reserves (hl : l.Sound) {scopes : List String} {context : SendContext}
    {manifest : RequestManifest} {ticket : SendTicket}
    (h : l.beginSend scopes context manifest = .ok (l', ticket)) :
    ticket.costBound = manifest.costBound ∧ ∀ t ∈ l.openScopes scopes,
      (⟨manifest.attemptId, t, manifest.costBound, .reserved, none⟩ : BudgetReservation) ∈
        l'.reservations := by
  obtain ⟨-, -, -, ⟨rowid, hrun⟩, hticket⟩ := (beginSend_begun scopes context manifest).of_ok h
  obtain ⟨a, hreserves, hdispatch⟩ := hrun.split
  refine ⟨congrArg SendTicket.costBound hticket, fun t ht => ?_⟩
  have hrow : (⟨manifest.attemptId, t, manifest.costBound, .reserved, none⟩ : BudgetReservation) ∈
      a.reservations := by
    rw [(reserved_of_run hl (nodup_openScopes scopes) hreserves).rows]
    exact mem_append_right _ (mem_map.mpr ⟨t, ht, rfl⟩)
  cases hdispatch with
  | cons hwrite hrest =>
    cases hrest
    obtain ⟨_, -, -, -, heq⟩ := hwrite.dispatch_eq
    have heq : l' = _ := heq
    rw [heq]
    exact hrow

/-! ## Conservation over runs -/

/-- An admitted send that draws on an open scope reuses the id of a resolved reservation. -/
def Mixes (l : Ledger) : Op → Prop
  | .beginSend scopes _ manifest =>
    l.Admitted scopes manifest ∧ l.openScopes scopes ≠ [] ∧
      ∃ r ∈ l.reservations, r.reservationId = manifest.attemptId ∧ r.state ≠ .reserved
  | _ => False

def UnmixedStep (l : Ledger) (op : Op) (l' : Ledger) : Prop := Performs l op l' ∧ ¬ Mixes l op

/-- What the ledger is promised in a state. -/
structure Conserved (l : Ledger) : Prop where
  names : (l.scopes.map BudgetScope.scope).Nodup
  keys : (l.reservations.map fun r => (r.reservationId, r.scope)).Nodup
  reserved : ∀ b ∈ l.scopes, b.reserved = l.reservedAt b.scope ∧ 0 ≤ b.reserved
  spent : ∀ b ∈ l.scopes, b.spent = l.spentAt b.scope ∧ 0 ≤ b.spent
  fits : ∀ b ∈ l.scopes, b.spent + b.reserved ≤ b.limitUnits
  together : l.Together

/-- What a call is promised: limits and resolved rows stay, and a refusal writes nothing. -/
structure Lawful (l : Ledger) (op : Op) (l' : Ledger) : Prop where
  evolves : Evolves l l'
  refused : ∀ e, (l.perform op).2 = .error e → l' = l

theorem Sound.conserved (h : l.Sound) (ht : l.Together) : l.Conserved := by
  refine ⟨h.names, h.keys, ?_, ?_, fun b hb => (h.balanced b hb).fits, ht⟩
  · intro b hb
    have hreserved := (h.balanced b hb).reserved
    refine ⟨hreserved, ?_⟩
    rw [hreserved]
    exact tally_nonneg fun r hr _ => (h.rows r hr).bound
  · intro b hb
    have hspent := (h.balanced b hb).spent
    refine ⟨hspent, ?_⟩
    rw [hspent]
    apply tally_nonneg
    intro r hr _
    cases hcharged : r.charged with
    | none => exact (h.rows r hr).bound
    | some units => exact ((h.rows r hr).charged units hcharged).1

theorem perform_lawful (h : l.Sound) (op : Op) : Lawful l op (l.perform op).1 :=
  ⟨perform_evolves h op, fun _ => perform_error⟩

/-- A call whose writes reserve nothing keeps rows together. -/
theorem Made.together {op : Op} (h : Made op l l') (hl : l.Sound) (ht : l.Together)
    (hop : ∀ id t b, ¬ op.makes (.reserve id t b)) : l'.Together := by
  have hboth := h.invariant (I := fun a => a.Sound ∧ a.Together) ?_ ⟨hl, ht⟩
  · exact hboth.2
  · rintro a w b ⟨ha, hat⟩ hw hmakes
    refine ⟨hw.sound ha, hw.together ha hat ?_⟩
    cases w with
    | reserve id t b => exact absurd hmakes (hop id t b)
    | _ => trivial

theorem Made.together_of_unresolved {op : Op} (h : Made op l l') (id : String) (hl : l.Sound)
    (ht : l.Together) (hid : l.Unresolved id)
    (hop : ∀ w, op.makes w → (∃ t b, w = .reserve id t b) ∨ ∃ n c b, w = .dispatch n c id b) :
    l'.Together := by
  have hboth := h.invariant (I := fun a => a.Sound ∧ a.Together ∧ a.Unresolved id) ?_ ⟨hl, ht, hid⟩
  · exact hboth.2.1
  · rintro a w b ⟨ha, hat, haid⟩ hw hmakes
    rcases hop w hmakes with ⟨t, n, rfl⟩ | ⟨n, c, m, rfl⟩
    · exact ⟨hw.sound ha, hw.together ha hat haid,
        hw.unresolved ha haid (.inl ⟨_, _, _, rfl⟩)⟩
    · exact ⟨hw.sound ha, hw.together ha hat trivial,
        hw.unresolved ha haid (.inr ⟨_, _, _, _, rfl⟩)⟩

theorem commit_together {body : Except StoreError Ledger} (ht : l.Together)
    (h : ∀ l', body = .ok l' → l'.Together) : (l.commit body).1.Together := by
  cases body with
  | ok l' => exact h l' rfl
  | error e => exact ht

theorem perform_together (hl : l.Sound) (ht : l.Together) {op : Op} (hop : ¬ Mixes l op) :
    (l.perform op).1.Together := by
  have hmade := perform_made hl.costs op
  cases op with
  | budgetReserve reservationId scopes bound =>
    apply commit_together ht
    intro l' hok
    obtain ⟨hunused, hmade⟩ := (budgetReserve_made reservationId scopes bound).of_ok hok
    apply hmade.together_of_unresolved reservationId hl ht
    · exact fun r hr hid => absurd hid (hunused r hr)
    · intro w hw
      cases w with
      | reserve id t b =>
        obtain rfl := hw.1
        exact .inl ⟨t, b, rfl⟩
      | _ => exact absurd hw id
  | beginSend scopes context manifest =>
    apply commit_together ht
    intro l' hok
    cases hsend : l.beginSend scopes context manifest with
    | error e =>
      rw [hsend] at hok
      cases hok
    | ok r =>
      rw [hsend] at hok
      obtain rfl : r.1 = l' := Except.ok.inj hok
      have hadmitted := (beginSend_ok_iff hl _).mp ⟨r, hsend⟩
      have hbegun := (beginSend_begun scopes context manifest).of_ok hsend
      by_cases hopen : l.openScopes scopes = []
      · obtain ⟨rowid, hrun⟩ := hbegun.writes
        rw [hopen] at hrun
        cases hrun with
        | cons hwrite hrest =>
          cases hrest
          exact hwrite.together hl ht trivial
      · have hid : l.Unresolved manifest.attemptId := by
          intro q hq hid
          by_contra hstate
          exact hop ⟨hadmitted, hopen, q, hq, hid, hstate⟩
        apply hbegun.made.together_of_unresolved _ hl ht hid
        intro w hw
        cases w with
        | reserve id t b =>
          obtain rfl := hw.1
          exact .inl ⟨t, b, rfl⟩
        | dispatch n c id b =>
          obtain rfl := hw
          exact .inr ⟨n, c, b, rfl⟩
        | _ => exact absurd hw id
  | _ => exact hmade.together hl ht fun _ _ _ h => h

/-- A mixing send leaves a resolved row beside a reserved one. -/
theorem not_together_of_mixes (hl : l.Sound) {op : Op} (hop : Mixes l op) :
    ¬ (l.perform op).1.Together := by
  cases op with
  | beginSend scopes context manifest =>
    obtain ⟨hadmitted, hopen, r, hr, hid, hstate⟩ := hop
    obtain ⟨⟨l', ticket⟩, hsend⟩ := (beginSend_ok_iff hl context).mpr hadmitted
    have hperform : (l.perform (.beginSend scopes context manifest)).1 = l' := by
      simp [perform, hsend, commit, Except.map]
    have hkept := (perform_evolves hl (.beginSend scopes context manifest)).resolved r hr hstate
    rw [hperform] at hkept ⊢
    obtain ⟨t, ht⟩ := exists_mem_of_ne_nil _ hopen
    have hrow := (beginSend_reserves hl hsend).2 t ht
    intro htogether
    exact hstate (htogether r hkept _ hrow hid).1
  | _ => exact absurd hop id

/-- INV-022 over every run: the counters, the limits, single resolution and refusals hold
unconditionally, and the rows of a reservation resolve together in every reached state exactly
if no admitted send reuses the id of a resolved reservation. -/
theorem conservation {tasks : List String} {ops : List Op}
    (hrun : Run Performs (fresh tasks) ops l) :
    Run UnmixedStep (fresh tasks) ops l ↔
      ∀ pre post a, ops = pre ++ post → Run Performs (fresh tasks) pre a →
        a.Conserved ∧ ∀ op b, Performs a op b → Lawful a op b := by
  constructor
  · rintro hunmixed pre post a rfl hpre
    obtain ⟨b, hb, -⟩ := hunmixed.split
    obtain rfl : b = a := (hb.mono fun _ _ _ h => h.1).unique
      (fun s op a b ha hb => ha.symm.trans hb) hpre
    have hboth := hb.invariant (I := fun a => a.Sound ∧ a.Together) ?_
      ⟨fresh_sound tasks, by simp [Together, fresh]⟩
    · refine ⟨hboth.1.conserved hboth.2, ?_⟩
      rintro op c rfl
      exact perform_lawful hboth.1 op
    · rintro a op _ ⟨ha, hat⟩ ⟨rfl, hop⟩
      exact ⟨perform_sound ha op, perform_together ha hat hop⟩
  · intro hclaim
    apply hrun.guarded
    rintro pre op post a b rfl hpre rfl hmixes
    have hnext := (hclaim (pre ++ [op]) post _ (by simp) (hpre.append (.single rfl))).1
    exact not_together_of_mixes (sound_of_run hpre (fresh_sound tasks)) hmixes hnext.together

/-- Two scopes, one reservation of both, and its charge. -/
theorem conservation_charged : ∃ l, Run Performs (fresh [])
      [.openBudget "task" 10, .openBudget "root" 20, .budgetReserve "a" ["task", "root"] 4,
        .budgetCharge "a" (some 3)] l ∧
    l.scopes = [⟨"task", 10, 3, 0⟩, ⟨"root", 20, 3, 0⟩] ∧ l.Conserved := by
  have hrun : Run UnmixedStep (fresh [])
      [.openBudget "task" 10, .openBudget "root" 20, .budgetReserve "a" ["task", "root"] 4,
        .budgetCharge "a" (some 3)] _ :=
    .cons ⟨rfl, id⟩ (.cons ⟨rfl, id⟩ (.cons ⟨rfl, id⟩ (.cons ⟨rfl, id⟩ (.nil _))))
  have hperforms := hrun.mono fun _ _ _ h => h.1
  exact ⟨_, hperforms, by decide,
    ((conservation hperforms).mp hrun _ [] _ (append_nil _).symm hperforms).1⟩

/-- A charged reservation and a later send of the same id on another scope. -/
theorem not_conserved_of_reused_id : ¬ ∀ (tasks : List String) (ops : List Op) (l : Ledger),
    Run Performs (fresh tasks) ops l → l.Conserved := by
  intro hclaim
  have h := hclaim [] [.openBudget "task" 10, .openBudget "root" 20, .budgetReserve "a" ["task"] 4,
      .budgetCharge "a" none, .beginSend ["root"] ⟨"turn", "local", none, none⟩ ⟨"a", 4⟩] _
    (.cons rfl (.cons rfl (.cons rfl (.cons rfl (.cons rfl (.nil _))))))
  have := h.together ⟨"a", "task", 4, .charged, none⟩ (by decide) ⟨"a", "root", 4, .reserved, none⟩
    (by decide) rfl
  exact absurd this.1 (by decide)

end Rivect.Ledger
