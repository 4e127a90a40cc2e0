import Mathlib.Algebra.Order.Group.Int
import Rivect.Ledger.Writes
import Rivect.Lib.Tally

/-! # Conservation of the budget ledger

The counters of a scope are the tallies of its reservation rows. Reserving adds a row and
its bound at once; resolving moves the bound of every row of one reservation.
-/

namespace Rivect.Ledger

open Lib List

variable {l l' : Ledger}

/-- The bounds that the reserved rows of a scope hold. -/
def reservedAt (l : Ledger) (scope : String) : ℤ :=
  tally (fun r : BudgetReservation => r.scope = scope ∧ r.state = .reserved)
    BudgetReservation.bound l.reservations

/-- The units that the charged rows of a scope cost; an unknown cost is the bound. -/
def spentAt (l : Ledger) (scope : String) : ℤ :=
  tally (fun r : BudgetReservation => r.scope = scope ∧ r.state = .charged)
    (fun r => r.charged.getD r.bound) l.reservations

structure Balanced (l : Ledger) (b : BudgetScope) : Prop where
  reserved : b.reserved = l.reservedAt b.scope
  spent : b.spent = l.spentAt b.scope
  fits : b.spent + b.reserved ≤ b.limitUnits

/-- A reservation row holds a bound, and no charge above it. -/
structure RowSound (l : Ledger) (r : BudgetReservation) : Prop where
  bound : 0 ≤ r.bound
  charged : ∀ c ∈ r.charged, 0 ≤ c ∧ c ≤ r.bound
  unresolved : r.state = .reserved → r.charged = none
  scope : (l.scopeRow r.scope).isSome

/-- The invariant of the ledger. -/
structure Sound (l : Ledger) : Prop where
  balanced : ∀ b ∈ l.scopes, l.Balanced b
  rows : ∀ r ∈ l.reservations, l.RowSound r
  names : (l.scopes.map BudgetScope.scope).Nodup
  keys : (l.reservations.map fun r => (r.reservationId, r.scope)).Nodup
  costs : l.CostsStored

/-! ## Writing one scope -/

/-- The scope rows of one name, rewritten. -/
def setScope (l : Ledger) (scope : String) (write : BudgetScope → BudgetScope) : Ledger :=
  { l with scopes := l.scopes.map fun b => if b.scope = scope then write b else b }

theorem mem_scopes_of_scopeRow {t : String} {b : BudgetScope} (h : l.scopeRow t = some b) :
    b ∈ l.scopes ∧ b.scope = t :=
  ⟨mem_of_find?_eq_some h, by simpa using find?_some h⟩

theorem scopeRow_isSome {t : String} :
    (l.scopeRow t).isSome ↔ t ∈ l.scopes.map BudgetScope.scope := by
  simp [scopeRow, find?_isSome]

/-- Names are unique, so the guard of an update concerns one row. -/
theorem updateScope_eq {scope : String} {guard : BudgetScope → Bool}
    {write : BudgetScope → BudgetScope} (hnames : (l.scopes.map BudgetScope.scope).Nodup)
    (h : l.updateScope scope guard write = some l') :
    ∃ b ∈ l.scopes, b.scope = scope ∧ guard b ∧ l' = l.setScope scope write := by
  unfold updateScope at h
  split at h
  · next hany =>
    obtain ⟨b, hb, hguard⟩ := any_eq_true.mp hany
    have hguard : b.scope = scope ∧ guard b := by simpa using hguard
    refine ⟨b, hb, hguard.1, hguard.2, ?_⟩
    cases h
    have hmap : ∀ c ∈ l.scopes, (if c.scope = scope ∧ guard c then write c else c) =
        if c.scope = scope then write c else c := by
      intro c hc
      by_cases hcs : c.scope = scope
      · obtain rfl : c = b := inj_on_of_nodup_map hnames hc hb (hcs.trans hguard.1.symm)
        simp [hguard]
      · simp [hcs]
    simp [setScope, map_congr_left hmap]
  · cases h

theorem setScope_names {scope : String} {write : BudgetScope → BudgetScope}
    (hwrite : ∀ b, (write b).scope = b.scope) :
    (l.setScope scope write).scopes.map BudgetScope.scope = l.scopes.map BudgetScope.scope := by
  simp only [setScope, map_map]
  apply map_congr_left
  intro b _
  by_cases hb : b.scope = scope <;> simp [hb, hwrite]

/-! ## Reserving -/

theorem reserveAt_eq {id scope : String} {bound : ℤ} {n : ℕ}
    (hnames : (l.scopes.map BudgetScope.scope).Nodup)
    (h : reserveAt id bound n l scope = .ok l') :
    ∃ b ∈ l.scopes, b.scope = scope ∧ b.spent + b.reserved + bound ≤ b.limitUnits ∧
      (∀ r ∈ l.reservations, r.reservationId = id → r.scope ≠ scope) ∧
      l' = { l.setScope scope fun b => { b with reserved := b.reserved + bound } with
        reservations := l.reservations ++ [⟨id, scope, bound, .reserved, none⟩] } := by
  unfold reserveAt at h
  split at h
  · cases h
  next l1 hreserve =>
  obtain ⟨b, hb, hscope, hfits, rfl⟩ := updateScope_eq hnames hreserve
  unfold insertReservation at h
  split at h
  · cases h
  next hfree =>
  cases h
  exact ⟨b, hb, hscope, by simpa using hfits, by simpa [setScope] using hfree, rfl⟩

/-! ## Resolving -/

/-- A scope after its share of the rows has resolved. -/
def settleScope (confirmed : Option ℤ) (release : Bool) (rows : List BudgetReservation)
    (b : BudgetScope) : BudgetScope :=
  { b with
    spent := b.spent + if release then 0 else
      tally (fun r : BudgetReservation => r.scope = b.scope)
        (fun r => confirmed.getD r.bound) rows
    reserved := b.reserved -
      tally (fun r : BudgetReservation => r.scope = b.scope) BudgetReservation.bound rows }

@[simp] theorem settleScope_scope (confirmed : Option ℤ) (release : Bool)
    (rows : List BudgetReservation) (b : BudgetScope) :
    (settleScope confirmed release rows b).scope = b.scope := rfl

theorem settleScope_nil (confirmed : Option ℤ) (release : Bool) (b : BudgetScope) :
    settleScope confirmed release [] b = b := by
  simp [settleScope]

theorem settleScope_append (confirmed : Option ℤ) (release : Bool)
    (seen : List BudgetReservation) (row : BudgetReservation) (b : BudgetScope) :
    settleScope confirmed release (seen ++ [row]) b =
      if (settleScope confirmed release seen b).scope = row.scope then
        { settleScope confirmed release seen b with
          spent := (settleScope confirmed release seen b).spent +
            if release then 0 else confirmed.getD row.bound
          reserved := (settleScope confirmed release seen b).reserved - row.bound }
      else settleScope confirmed release seen b := by
  by_cases hs : row.scope = b.scope
  · cases release <;> simp [settleScope, share, hs] <;> omega
  · have hs' : ¬ b.scope = row.scope := fun h => hs h.symm
    cases release <;> simp [settleScope, share, hs, hs']

theorem releaseBudgetScope_getD (scope : String) (bound : ℤ) :
    (l.releaseBudgetScope scope bound).getD l =
      l.setScope scope fun b => { b with reserved := b.reserved - bound } := by
  unfold releaseBudgetScope updateScope
  split
  · simp [setScope]
  · next hnone =>
    have hnone : ∀ b ∈ l.scopes, b.scope ≠ scope := by simpa using hnone
    have hmap : ∀ b ∈ l.scopes, (if b.scope = scope then
        { b with reserved := b.reserved - bound } else b) = b := fun b hb => if_neg (hnone b hb)
    simp [setScope, map_congr_left hmap]

section

variable (hnames : (l.scopes.map BudgetScope.scope).Nodup)
include hnames

theorem resolveAt_within {confirmed : Option ℤ} {release : Bool} {row : BudgetReservation} :
    Within Refused (fun l' => (release = false → ∀ c ∈ confirmed, c ≤ row.bound) ∧
      l' = l.setScope row.scope fun b =>
        { b with
          spent := b.spent + if release then 0 else confirmed.getD row.bound
          reserved := b.reserved - row.bound })
      (resolveAt confirmed release l row) := by
  unfold resolveAt
  split
  · next hrelease => simp [releaseBudgetScope_getD, hrelease]
  next hrelease =>
  split
  · trivial
  next hbound =>
  split
  · next l1 hcharge =>
    obtain ⟨b, -, -, -, rfl⟩ := updateScope_eq hnames hcharge
    refine ⟨fun _ c hc => ?_, by simp⟩
    obtain rfl : confirmed = some c := hc
    simpa using hbound
  · trivial

theorem resolveAll_within {confirmed : Option ℤ} {release : Bool} {rows : List BudgetReservation} :
    Within Refused
      (fun l' => (release = false → ∀ r ∈ rows, ∀ c ∈ confirmed, c ≤ r.bound) ∧
        l' = { l with scopes := l.scopes.map (settleScope confirmed release rows) })
      (rows.foldlM (resolveAt confirmed release) l) := by
  refine Within.foldlM (I := fun seen (a : Ledger) =>
    (release = false → ∀ r ∈ seen, ∀ c ∈ confirmed, c ≤ r.bound) ∧
      a = { l with scopes := l.scopes.map (settleScope confirmed release seen) }) ?_ ?_
  · rintro seen row a - ⟨hseen, rfl⟩
    have hnames' : ((l.scopes.map (settleScope confirmed release seen)).map
        BudgetScope.scope).Nodup := by
      rwa [map_map, show BudgetScope.scope ∘ settleScope confirmed release seen =
        BudgetScope.scope from rfl]
    apply (resolveAt_within hnames').imp
    rintro b ⟨hrow, rfl⟩
    constructor
    · intro hrelease r hr
      rcases mem_append.mp hr with hr | hr
      · exact hseen hrelease r hr
      · rw [mem_singleton.mp hr]
        exact hrow hrelease
    · simp only [setScope, map_map]
      congr 1
      apply map_congr_left
      intro c _
      exact (settleScope_append confirmed release seen row c).symm
  · refine ⟨by simp, ?_⟩
    rw [map_id'' (settleScope_nil confirmed release)]

theorem resolveReservationTx_within {id : String} {terminal : ReservationState}
    {confirmed : Option ℤ} {release : Bool} :
    Within Refused
      (fun l' => (∃ r ∈ l.reservations, r.reservationId = id) ∧
        (∀ r ∈ l.reservations, r.reservationId = id →
          r.state = .reserved ∧ (release = false → ∀ c ∈ confirmed, c ≤ r.bound)) ∧
        l' = { l with
          scopes := l.scopes.map (settleScope confirmed release
            (l.reservations.filter (·.reservationId = id)))
          reservations := l.reservations.map (resolveRow id terminal confirmed) })
      (l.resolveReservationTx id terminal confirmed release) := by
  have hperm : (l.reservationScopes id).Perm (l.reservations.filter (·.reservationId = id)) :=
    perm_insertionSort _ _
  unfold resolveReservationTx
  dsimp only
  split
  · trivial
  next hsome =>
  split
  · trivial
  next hall =>
  apply Within.bind (resolveAll_within hnames)
  rintro a ⟨hbound, rfl⟩
  refine ⟨?_, ?_, ?_⟩
  · obtain ⟨r, hr⟩ := exists_mem_of_ne_nil _ (by simpa using hsome)
    exact ⟨r, mem_reservationScopes.mp hr⟩
  · intro r hr hid
    have hr := mem_reservationScopes.mpr ⟨hr, hid⟩
    exact ⟨by simpa using find?_eq_none.mp hall r hr, fun hrelease => hbound hrelease r hr⟩
  · have hsettle : settleScope confirmed release (l.reservationScopes id) =
        settleScope confirmed release (l.reservations.filter (·.reservationId = id)) := by
      funext b
      simp only [settleScope, tally_perm hperm]
    rw [setReservationState, hsettle]
    rfl

end

/-! ## The invariant, write by write -/

theorem Sound.congr (h : l.Sound) (hscopes : l'.scopes = l.scopes)
    (hrows : l'.reservations = l.reservations) (hcosts : l'.CostsStored) : l'.Sound := by
  have hscopeRow : ∀ t, l'.scopeRow t = l.scopeRow t := fun t => by rw [scopeRow, hscopes, scopeRow]
  refine ⟨?_, ?_, by rw [hscopes]; exact h.names, by rw [hrows]; exact h.keys, hcosts⟩
  · intro b hb
    rw [hscopes] at hb
    obtain ⟨hreserved, hspent, hfits⟩ := h.balanced b hb
    refine ⟨?_, ?_, hfits⟩
    · rw [reservedAt, hrows, hreserved, reservedAt]
    · rw [spentAt, hrows, hspent, spentAt]
  · intro r hr
    rw [hrows] at hr
    obtain ⟨hbound, hcharged, hunresolved, hscope⟩ := h.rows r hr
    exact ⟨hbound, hcharged, hunresolved, by rwa [hscopeRow]⟩

theorem insertScope_sound (h : l.Sound) {scope : String} {limitUnits : ℤ}
    (hnone : l.scopeRow scope = none) (hlimit : 0 ≤ limitUnits) :
    (l.insertScope scope limitUnits).Sound := by
  have hfree : ∀ b ∈ l.scopes, b.scope ≠ scope := by simpa [scopeRow] using hnone
  have hrows : ∀ r ∈ l.reservations, r.scope ≠ scope := by
    intro r hr heq
    have := (h.rows r hr).scope
    rw [heq, hnone] at this
    cases this
  refine ⟨?_, ?_, ?_, h.keys, h.costs⟩
  · intro b hb
    rcases mem_append.mp hb with hb | hb
    · exact ⟨(h.balanced b hb).reserved, (h.balanced b hb).spent, (h.balanced b hb).fits⟩
    · obtain rfl := mem_singleton.mp hb
      refine ⟨?_, ?_, by simpa using hlimit⟩
      · apply Eq.symm
        apply tally_eq_zero
        intro r hr
        simp [hrows r hr]
      · apply Eq.symm
        apply tally_eq_zero
        intro r hr
        simp [hrows r hr]
  · intro r hr
    obtain ⟨hbound, hcharged, hunresolved, hscope⟩ := h.rows r hr
    refine ⟨hbound, hcharged, hunresolved, ?_⟩
    rw [scopeRow_isSome] at hscope ⊢
    simp only [insertScope, map_append]
    exact mem_append_left _ hscope
  · simp only [insertScope, map_append, map_singleton, nodup_append]
    refine ⟨h.names, by simp, ?_⟩
    intro t ht t' ht' heq
    obtain ⟨b, hb, rfl⟩ := mem_map.mp ht
    exact hfree b hb (heq.trans (mem_singleton.mp ht'))

theorem reserve_sound (h : l.Sound) {id scope : String} {bound : ℤ} {n : ℕ} (hbound : 0 ≤ bound)
    (hok : reserveAt id bound n l scope = .ok l') : l'.Sound := by
  obtain ⟨b, hb, hscope, hfits, hfree, rfl⟩ := reserveAt_eq h.names hok
  refine ⟨?_, ?_, ?_, ?_, h.costs⟩
  · intro c' hc'
    obtain ⟨c, hc, rfl⟩ := mem_map.mp hc'
    obtain ⟨hreserved, hspent, hlimit⟩ := h.balanced c hc
    by_cases hcs : c.scope = scope
    · obtain rfl : c = b := inj_on_of_nodup_map h.names hc hb (hcs.trans hscope.symm)
      simp only [hcs, if_true]
      refine ⟨?_, ?_, by simpa [add_assoc] using hfits⟩
      · simp [reservedAt, share, hcs, hreserved]
      · simp [spentAt, share, hcs, hspent]
    · simp only [hcs, if_false]
      refine ⟨?_, ?_, hlimit⟩
      · simp [reservedAt, share, Ne.symm hcs, hreserved]
      · simp [spentAt, share, hspent]
  · have hscopeRow : ∀ t, t ∈ l.scopes.map BudgetScope.scope →
        (scopeRow { l.setScope scope (fun b => { b with reserved := b.reserved + bound }) with
          reservations := l.reservations ++ [⟨id, scope, bound, .reserved, none⟩] } t).isSome := by
      intro t ht
      rwa [scopeRow_isSome, setScope_names (by simp)]
    intro r hr
    rcases mem_append.mp hr with hr | hr
    · obtain ⟨hr0, hcharged, hunresolved, hrow⟩ := h.rows r hr
      exact ⟨hr0, hcharged, hunresolved, hscopeRow _ (scopeRow_isSome.mp hrow)⟩
    · obtain rfl := mem_singleton.mp hr
      exact ⟨hbound, by simp, fun _ => rfl, hscopeRow _ (mem_map.mpr ⟨b, hb, hscope⟩)⟩
  · rw [show (List.map BudgetScope.scope (setScope l scope _).scopes) = _ from
      setScope_names (by simp)]
    exact h.names
  · rw [map_append, nodup_append]
    refine ⟨h.keys, by simp, ?_⟩
    rintro _ hr _ hs rfl
    obtain ⟨r, hr, heq⟩ := mem_map.mp hr
    rw [map_singleton, mem_singleton] at hs
    obtain ⟨hid, hsc⟩ := Prod.mk.inj (heq.trans hs)
    exact hfree r hr hid hsc

section Resolve

variable {id scope : String} {terminal : ReservationState} {confirmed : Option ℤ}

theorem reservedAt_resolve (scope : String) (confirmed : Option ℤ)
    (hreserved : ∀ r ∈ l.reservations, r.reservationId = id → r.state = .reserved)
    (hterminal : terminal ≠ .reserved) :
    l.reservedAt scope =
      tally (fun r : BudgetReservation => r.scope = scope ∧ r.state = .reserved)
        BudgetReservation.bound (l.reservations.map (resolveRow id terminal confirmed)) +
      tally (fun r : BudgetReservation => r.scope = scope) BudgetReservation.bound
        (l.reservations.filter (·.reservationId = id)) := by
  rw [tally_map, tally_filter]
  apply tally_eq_add
  intro r hr
  by_cases hid : r.reservationId = id
  · simp [share, resolveRow, hid, hreserved r hr hid, hterminal]
  · simp [share, resolveRow, hid]

theorem spentAt_charge (hreserved : ∀ r ∈ l.reservations, r.reservationId = id →
      r.state = .reserved) :
    tally (fun r : BudgetReservation => r.scope = scope ∧ r.state = .charged)
        (fun r => r.charged.getD r.bound)
        (l.reservations.map (resolveRow id .charged confirmed)) =
      l.spentAt scope + tally (fun r : BudgetReservation => r.scope = scope)
        (fun r => confirmed.getD r.bound) (l.reservations.filter (·.reservationId = id)) := by
  rw [tally_map, tally_filter]
  apply tally_eq_add
  intro r hr
  by_cases hid : r.reservationId = id
  · simp [share, resolveRow, hid, hreserved r hr hid]
  · simp [share, resolveRow, hid]

theorem spentAt_release (hreserved : ∀ r ∈ l.reservations, r.reservationId = id →
      r.state = .reserved) :
    tally (fun r : BudgetReservation => r.scope = scope ∧ r.state = .charged)
        (fun r => r.charged.getD r.bound)
        (l.reservations.map (resolveRow id .released confirmed)) = l.spentAt scope := by
  rw [tally_map]
  apply tally_congr
  intro r hr
  by_cases hid : r.reservationId = id
  · simp [share, resolveRow, hid, hreserved r hr hid]
  · simp [share, resolveRow, hid]

theorem resolve_sound (h : l.Sound)
    (hok : Applies l (.resolve id terminal confirmed) l') : l'.Sound := by
  obtain ⟨hterminal, hnone, hpos, hok⟩ := hok
  obtain ⟨-, hrows, rfl⟩ := (resolveReservationTx_within h.names).of_ok hok
  have hreserved : ∀ r ∈ l.reservations, r.reservationId = id → r.state = .reserved :=
    fun r hr hid => (hrows r hr hid).1
  -- a charge is checked against its bound, and a release confirms no units
  have hbound : ∀ r ∈ l.reservations, r.reservationId = id → ∀ c ∈ confirmed, c ≤ r.bound := by
    intro r hr hid c hc
    cases terminal with
    | reserved => exact absurd rfl hterminal
    | charged => exact (hrows r hr hid).2 (by decide) c hc
    | released =>
      rw [hnone rfl] at hc
      cases hc
  have hnames : (l.scopes.map (settleScope confirmed (terminal = .released)
      (l.reservations.filter (·.reservationId = id)))).map BudgetScope.scope =
      l.scopes.map BudgetScope.scope := by
    rw [map_map]
    rfl
  refine ⟨?_, ?_, by rw [hnames]; exact h.names, ?_, h.costs⟩
  · intro c' hc'
    obtain ⟨c, hc, rfl⟩ := mem_map.mp hc'
    obtain ⟨hres, hspent, hlimit⟩ := h.balanced c hc
    have hheld := reservedAt_resolve c.scope confirmed hreserved hterminal
    -- what is spent is at most what was held, so the limit still holds
    have hcost : tally (fun r : BudgetReservation => r.scope = c.scope)
        (fun r => confirmed.getD r.bound) (l.reservations.filter (·.reservationId = id)) ≤
        tally (fun r : BudgetReservation => r.scope = c.scope) BudgetReservation.bound
          (l.reservations.filter (·.reservationId = id)) := by
      apply tally_le
      intro r hr _
      rw [mem_filter, decide_eq_true_iff] at hr
      cases hc : confirmed with
      | none => exact le_rfl
      | some units => exact hbound r hr.1 hr.2 units hc
    have hheldNonneg : 0 ≤ tally (fun r : BudgetReservation => r.scope = c.scope)
        BudgetReservation.bound (l.reservations.filter (·.reservationId = id)) := by
      apply tally_nonneg
      intro r hr _
      exact (h.rows r (mem_of_mem_filter hr)).bound
    constructor
    · change c.reserved - _ = tally _ _ _
      rw [hres, hheld]
      exact add_sub_cancel_right _ _
    · change c.spent + _ = tally _ _ _
      rw [hspent]
      cases terminal with
      | reserved => exact absurd rfl hterminal
      | charged => exact (spentAt_charge hreserved).symm
      | released => exact (add_zero _).trans (spentAt_release hreserved).symm
    · change c.spent + _ + (c.reserved - _) ≤ c.limitUnits
      split <;> omega
  · intro r' hr'
    obtain ⟨r, hr, rfl⟩ := mem_map.mp hr'
    obtain ⟨hr0, hcharged, hunresolved, hrow⟩ := h.rows r hr
    refine ⟨by simpa using hr0, ?_, ?_, ?_⟩
    · intro c hc
      by_cases hid : r.reservationId = id
      · simp only [resolveRow, hid, if_true] at hc
        rw [resolveRow_bound]
        exact ⟨hpos c hc, hbound r hr hid c hc⟩
      · simp only [resolveRow, hid, if_false] at hc ⊢
        exact hcharged c hc
    · by_cases hid : r.reservationId = id
      · simp [resolveRow, hid, hterminal]
      · simpa [resolveRow, hid] using hunresolved
    · rw [scopeRow_isSome] at hrow ⊢
      rwa [hnames, resolveRow_scope]
  · rw [map_map]
    simpa [Function.comp_def] using h.keys

end Resolve

theorem Applies.sound {w : Write} (h : Applies l w l') (hl : l.Sound) : l'.Sound := by
  cases w with
  | openScope scope limitUnits =>
    obtain ⟨hnone, hlimit, rfl⟩ := h
    exact insertScope_sound hl hnone hlimit
  | openWork row limitUnits =>
    obtain ⟨hnone, -, -, hlimit, -, rfl⟩ := h
    have hsound := insertScope_sound hl hnone hlimit
    exact hsound.congr rfl rfl hsound.costs
  | stopWork taskId reason =>
    obtain rfl := h
    exact hl.congr rfl rfl hl.costs
  | reserve id scope bound =>
    obtain ⟨hbound, n, hok⟩ := h
    exact reserve_sound hl hbound hok
  | resolve id terminal confirmed => exact resolve_sound hl h
  | dispatch rowid context id costBound =>
    have hcost := h.1
    obtain ⟨t, -, -, -, rfl⟩ := h.dispatch_eq
    refine hl.congr (by rfl) (by rfl) ?_
    intro s hs
    rcases mem_append.mp hs with hs | hs
    · exact hl.costs s hs
    · rw [mem_singleton.mp hs]
      exact hcost
  | close id exactness unknownReason wireRetries bins charged =>
    obtain ⟨_, rfl, -, rfl⟩ := h.close_eq
    refine hl.congr (by rfl) (by rfl) ?_
    intro s' hs'
    obtain ⟨s, hs, rfl⟩ := mem_map.mp hs'
    rw [closeRow_costBound]
    exact hl.costs s hs

theorem fresh_sound (tasks : List String) : (fresh tasks).Sound := by
  refine ⟨?_, ?_, ?_, ?_, ?_⟩ <;> simp [fresh, CostsStored]

theorem perform_sound (h : l.Sound) (op : Op) : (l.perform op).1.Sound :=
  (perform_made h.costs op).invariant (fun _ _ _ ha hw _ => hw.sound ha) h

theorem sound_of_run {ops : List Op} (hrun : Run Performs l ops l') (h : l.Sound) : l'.Sound :=
  hrun.invariant (fun _ op _ ha hperform => hperform ▸ perform_sound ha op) h

end Rivect.Ledger
