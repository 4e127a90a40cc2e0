import Mathlib.Algebra.Order.Group.Int
import Rivect.Ledger.Writes
import Rivect.Lib.Tally

/-! # The incremental usage totals

The totals row is kept by one statement per dispatch and one per close. It stays what a scan
of the settlement rows would compute, in whatever order the rows close.
-/

namespace Rivect.Ledger

open Lib List

variable {l l' : Ledger} {rows : List Settlement} {t : UsageTotals}

/-- A sum over the settled rows. -/
def settledSum (f : Settlement → ℤ) (rows : List Settlement) : ℤ :=
  tally (fun s : Settlement => s.state = .settled) f rows

/-- The settled row of the highest identity. -/
def Newest (rows : List Settlement) (s : Settlement) : Prop :=
  s ∈ rows ∧ s.state = .settled ∧ ∀ r ∈ rows, r.state = .settled → r.rowid ≤ s.rowid

/-- The totals row stands for the settlement rows. A sum of nothing may be absent or zero. -/
structure Represents (t : UsageTotals) (rows : List Settlement) : Prop where
  settledCount : t.settledCount = settledSum (fun _ => 1) rows
  settledWithoutTotal : t.settledWithoutTotal =
    settledSum (fun s => if s.bins.totalTokens.isNone then 1 else 0) rows
  totalTokens : t.totalTokens.getD 0 = settledSum (fun s => s.bins.totalTokens.getD 0) rows
  totalSeen : (∃ s ∈ rows, s.state = .settled ∧ s.bins.totalTokens.isSome) → t.totalTokens.isSome
  chargedCount : t.chargedCount =
    settledSum (fun s => if s.chargedUnits.isSome then 1 else 0) rows
  chargedUnits : t.chargedUnits.getD 0 = settledSum (fun s => s.chargedUnits.getD 0) rows
  chargedSeen : (∃ s ∈ rows, s.state = .settled ∧ s.chargedUnits.isSome) → t.chargedUnits.isSome
  latestPromptTokens : ∀ s, Newest rows s → t.latestPromptTokens = s.bins.promptTokens
  noPromptTokens : (∀ s ∈ rows, s.state ≠ .settled) → t.latestPromptTokens = none
  dispatchedCount : t.dispatchedCount = rows.countP (·.state = .dispatched)
  nextRowid : ∀ s ∈ rows, s.rowid < t.nextRowid

/-- The keys of the settlement table, and its totals row. -/
structure Totalled (l : Ledger) : Prop where
  attempts : (l.settlements.map Settlement.attemptId).Nodup
  rowids : (l.settlements.map Settlement.rowid).Nodup
  costs : l.CostsStored
  totals : ∃ t, l.totals = some t ∧ Represents t l.settlements

/-! ## A dispatch -/

theorem settledSum_dispatch (f : Settlement → ℤ) {s : Settlement} (hs : s.state = .dispatched) :
    settledSum f (rows ++ [s]) = settledSum f rows := by
  simp [settledSum, share, hs]

theorem newest_dispatch {s r : Settlement} (hs : s.state = .dispatched) :
    Newest (rows ++ [s]) r ↔ Newest rows r := by
  constructor
  · rintro ⟨hmem, hstate, hmax⟩
    refine ⟨?_, hstate, fun q hq => hmax q (mem_append_left _ hq)⟩
    rcases mem_append.mp hmem with h | h
    · exact h
    · rw [mem_singleton.mp h, hs] at hstate
      cases hstate
  · rintro ⟨hmem, hstate, hmax⟩
    refine ⟨mem_append_left _ hmem, hstate, fun q hq hqs => ?_⟩
    rcases mem_append.mp hq with h | h
    · exact hmax q h hqs
    · rw [mem_singleton.mp h, hs] at hqs
      cases hqs

theorem exists_settled_dispatch {P : Settlement → Prop} {s : Settlement}
    (hs : s.state = .dispatched) :
    (∃ r ∈ rows ++ [s], r.state = .settled ∧ P r) ↔ ∃ r ∈ rows, r.state = .settled ∧ P r := by
  constructor
  · rintro ⟨r, hr, hstate, hP⟩
    rcases mem_append.mp hr with h | h
    · exact ⟨r, h, hstate, hP⟩
    · rw [mem_singleton.mp h, hs] at hstate
      cases hstate
  · rintro ⟨r, hr, h⟩
    exact ⟨r, mem_append_left _ hr, h⟩

theorem Represents.dispatch (h : Represents t rows) {s : Settlement}
    (hs : s.state = .dispatched) (hrowid : t.nextRowid ≤ s.rowid) :
    Represents
      { t with nextRowid := s.rowid + 1, dispatchedCount := t.dispatchedCount + 1 }
      (rows ++ [s]) where
  settledCount := by rw [settledSum_dispatch _ hs]; exact h.settledCount
  settledWithoutTotal := by rw [settledSum_dispatch _ hs]; exact h.settledWithoutTotal
  totalTokens := by rw [settledSum_dispatch _ hs]; exact h.totalTokens
  totalSeen := by rw [exists_settled_dispatch hs]; exact h.totalSeen
  chargedCount := by rw [settledSum_dispatch _ hs]; exact h.chargedCount
  chargedUnits := by rw [settledSum_dispatch _ hs]; exact h.chargedUnits
  chargedSeen := by rw [exists_settled_dispatch hs]; exact h.chargedSeen
  latestPromptTokens r hr := h.latestPromptTokens r ((newest_dispatch hs).mp hr)
  noPromptTokens hnone := h.noPromptTokens fun r hr => hnone r (mem_append_left _ hr)
  dispatchedCount := by simp [countP_append, hs, h.dispatchedCount]
  nextRowid r hr := by
    rcases mem_append.mp hr with hr | hr
    · have := h.nextRowid r hr
      change r.rowid < s.rowid + 1
      omega
    · rw [mem_singleton.mp hr]
      exact Int.lt_succ s.rowid

/-! ## A close -/

section Close

variable {pre post : List Settlement} {s s' : Settlement}

theorem settledSum_close (f : Settlement → ℤ) (hs : s.state = .dispatched)
    (hs' : s'.state = .settled) :
    settledSum f (pre ++ s' :: post) = settledSum f (pre ++ s :: post) + f s' := by
  simp [settledSum, share, hs, hs']
  omega

theorem mem_close {r : Settlement} (hr : r ∈ pre ++ s' :: post) :
    r = s' ∨ r ∈ pre ++ s :: post := by
  rcases mem_append.mp hr with hr | hr
  · exact .inr (mem_append_left _ hr)
  · rcases mem_cons.mp hr with hr | hr
    · exact .inl hr
    · exact .inr (mem_append_right _ (mem_cons_of_mem _ hr))

theorem mem_settled_close {r : Settlement} (hs : s.state = .dispatched) (hr : r.state = .settled) :
    r ∈ pre ++ s :: post → r ∈ pre ++ s' :: post := by
  intro hmem
  rcases mem_append.mp hmem with h | h
  · exact mem_append_left _ h
  · rcases mem_cons.mp h with h | h
    · rw [h, hs] at hr
      cases hr
    · exact mem_append_right _ (mem_cons_of_mem _ h)

theorem Represents.close (h : Represents t (pre ++ s :: post)) (hs : s.state = .dispatched)
    (hs' : s'.state = .settled) (hrowid : s'.rowid = s.rowid)
    (hrowids : ((pre ++ s' :: post).map Settlement.rowid).Nodup) (newest : Prop)
    [Decidable newest] (hnewest : newest ↔ Newest (pre ++ s' :: post) s') :
    Represents
      (addSettled t s'.bins.totalTokens s'.chargedUnits s'.bins.promptTokens newest)
      (pre ++ s' :: post) where
  settledCount := by simp [addSettled, settledSum_close _ hs hs', h.settledCount]
  settledWithoutTotal := by
    simp [addSettled, settledSum_close _ hs hs', h.settledWithoutTotal]
  totalTokens := by simp [addSettled, settledSum_close _ hs hs', h.totalTokens]
  totalSeen _ := rfl
  chargedCount := by simp [addSettled, settledSum_close _ hs hs', h.chargedCount]
  chargedUnits := by simp [addSettled, settledSum_close _ hs hs', h.chargedUnits]
  chargedSeen _ := rfl
  latestPromptTokens r hr := by
    have hmem : s' ∈ pre ++ s' :: post := by simp
    by_cases hnew : newest
    · have hmax := hnewest.mp hnew
      have heq : r.rowid = s'.rowid :=
        le_antisymm (hmax.2.2 r hr.1 hr.2.1) (hr.2.2 s' hmem hs')
      obtain rfl : r = s' := inj_on_of_nodup_map hrowids hr.1 hmem heq
      simp [addSettled, hnew]
    · have hne : r ≠ s' := by
        rintro rfl
        exact hnew (hnewest.mpr hr)
      have hold : Newest (pre ++ s :: post) r := by
        refine ⟨(mem_close hr.1).resolve_left hne, hr.2.1, fun q hq hqs => ?_⟩
        exact hr.2.2 q (mem_settled_close hs hqs hq) hqs
      simpa [addSettled, hnew] using h.latestPromptTokens r hold
  noPromptTokens hnone := absurd hs' (hnone s' (by simp))
  dispatchedCount := by
    simp [addSettled, countP_append, hs, hs', h.dispatchedCount]
    omega
  nextRowid r hr := by
    rcases mem_close (s := s) hr with rfl | hr
    · rw [hrowid]
      exact h.nextRowid s (by simp)
    · exact h.nextRowid r hr

end Close

/-! ## Write by write -/

theorem maxRowid_eq_some {m : ℤ} :
    maxRowid rows = some m ↔ (∃ s ∈ rows, s.rowid = m) ∧ ∀ s ∈ rows, s.rowid ≤ m := by
  simp [maxRowid, max?_eq_some_iff]

/-- Attempts are unique, so a close rewrites one row in its place. -/
theorem closeRow_split {id : String} (close : Settlement → Settlement)
    (hattempts : (rows.map Settlement.attemptId).Nodup)
    (hopen : ∃ s ∈ rows, s.attemptId = id ∧ s.state = .dispatched) :
    ∃ pre s post, rows = pre ++ s :: post ∧ s.attemptId = id ∧ s.state = .dispatched ∧
      (∀ r ∈ pre, r.attemptId ≠ id) ∧
      rows.map (closeRow id close) = pre ++ close s :: post := by
  obtain ⟨s, hs, hid, hstate⟩ := hopen
  obtain ⟨pre, post, rfl⟩ := append_of_mem hs
  have hother : ∀ r, r ∈ pre ∨ r ∈ post → r.attemptId ≠ id := by
    intro r hr heq
    rw [map_append, map_cons, nodup_middle, nodup_cons] at hattempts
    apply hattempts.1
    rw [hid, ← heq, ← map_append]
    exact mem_map_of_mem (mem_append.mpr hr)
  have hsame : ∀ r, r ∈ pre ∨ r ∈ post → closeRow id close r = r :=
    fun r hr => if_neg fun h => hother r hr h.1
  refine ⟨pre, s, post, rfl, hid, hstate, fun r hr => hother r (.inl hr), ?_⟩
  have hpre : pre.map (closeRow id close) = pre :=
    (map_congr_left fun r hr => hsame r (.inl hr)).trans (map_id' _)
  have hpost : post.map (closeRow id close) = post :=
    (map_congr_left fun r hr => hsame r (.inr hr)).trans (map_id' _)
  rw [map_append, map_cons, hpre, hpost, closeRow, if_pos ⟨hid, hstate⟩]

theorem Totalled.congr (h : l.Totalled) (hsettlements : l'.settlements = l.settlements)
    (htotals : l'.totals = l.totals) : l'.Totalled := by
  obtain ⟨hattempts, hrowids, hcosts, ht⟩ := h
  refine ⟨?_, ?_, ?_, ?_⟩
  · rwa [hsettlements]
  · rwa [hsettlements]
  · rwa [CostsStored, hsettlements]
  · rwa [hsettlements, htotals]

theorem dispatch_totalled (h : l.Totalled) {rowid costBound : ℤ} {context : SendContext}
    {id : String} (hw : Applies l (.dispatch rowid context id costBound) l') : l'.Totalled := by
  obtain ⟨hattempts, hrowids, hcosts, t, ht, hrep⟩ := h
  have hcost := hw.1
  obtain ⟨t', ht', hrowid, hfree, rfl⟩ := hw.dispatch_eq
  obtain rfl : t = t' := Option.mem_unique ht ht'
  refine ⟨?_, ?_, ?_, _, rfl, ?_⟩
  · rw [map_append, nodup_append]
    refine ⟨hattempts, by simp, ?_⟩
    intro a ha b hb heq
    obtain ⟨s, hs, rfl⟩ := mem_map.mp ha
    exact (hfree s hs).1 (heq.trans (mem_singleton.mp hb))
  · rw [map_append, nodup_append]
    refine ⟨hrowids, by simp, ?_⟩
    intro a ha b hb heq
    obtain ⟨s, hs, rfl⟩ := mem_map.mp ha
    exact (hfree s hs).2 (heq.trans (mem_singleton.mp hb))
  · intro s hs
    rcases mem_append.mp hs with hs | hs
    · exact hcosts s hs
    · rw [mem_singleton.mp hs]
      exact hcost
  · have hnext : t.nextRowid ≤ rowid := hrowid ▸ le_max_left _ _
    exact hrep.dispatch (s := settlementDispatched rowid context id costBound) rfl hnext

theorem close_totalled (h : l.Totalled) {id : String} {exactness : Exactness}
    {unknownReason : Option String} {wireRetries : ℕ} {bins : UsageBins ℤ} {charged : Option ℤ}
    (hw : Applies l (.close id exactness unknownReason wireRetries bins charged) l') :
    l'.Totalled := by
  obtain ⟨hattempts, hrowids, hcosts, t, ht, hrep⟩ := h
  obtain ⟨rows, hrows, hopen, rfl⟩ := hw.close_eq
  have hkey : ∀ f : Settlement → ℤ, (∀ s, f (closeRow id
      (closed exactness unknownReason wireRetries bins charged) s) = f s) →
      rows.map f = l.settlements.map f := by
    intro f hf
    rw [hrows, map_map]
    exact map_congr_left fun s _ => hf s
  have hids : rows.map Settlement.attemptId = l.settlements.map Settlement.attemptId := by
    rw [hrows, map_map]
    exact map_congr_left fun s _ => closeRow_attemptId s
  have hrowids' : (rows.map Settlement.rowid).Nodup := by
    rw [hkey _ closeRow_rowid]
    exact hrowids
  refine ⟨by rw [hids]; exact hattempts, hrowids', ?_, ?_⟩
  · intro s' hs'
    rw [hrows] at hs'
    obtain ⟨s, hs, rfl⟩ := mem_map.mp hs'
    rw [closeRow_costBound]
    exact hcosts s hs
  · obtain ⟨pre, s, post, hsplit, hid, hstate, hpre, hclosed⟩ :=
      closeRow_split (closed exactness unknownReason wireRetries bins charged) hattempts hopen
    rw [hsplit] at hrep
    rw [hclosed] at hrows
    subst hrows
    rw [ht]
    have hsettled : (closed exactness unknownReason wireRetries bins charged s).state = .settled :=
      rfl
    refine ⟨_, rfl, hrep.close hstate hsettled rfl hrowids' _ ?_⟩
    have hfind : (pre ++ closed exactness unknownReason wireRetries bins charged s :: post).find?
        (·.attemptId = id) = some (closed exactness unknownReason wireRetries bins charged s) := by
      rw [find?_append, find?_eq_none.mpr (by simpa using hpre), Option.none_or]
      exact find?_cons_of_pos (decide_eq_true hid)
    rw [hfind, Option.map_some, eq_comm, maxRowid_eq_some]
    constructor
    · rintro ⟨-, hmax⟩
      exact ⟨by simp, rfl, fun r hr hrs => hmax r (mem_filter.mpr ⟨hr, by simpa using hrs⟩)⟩
    · rintro ⟨hmem, hsettled, hmax⟩
      refine ⟨⟨_, mem_filter.mpr ⟨hmem, by simpa using hsettled⟩, rfl⟩, fun r hr => ?_⟩
      rw [mem_filter, decide_eq_true_iff] at hr
      exact hmax r hr.1 hr.2

theorem Applies.totalled {w : Write} (h : Applies l w l') (hl : l.Totalled) : l'.Totalled := by
  cases w with
  | openScope scope limitUnits =>
    obtain ⟨-, -, rfl⟩ := h
    exact hl.congr rfl rfl
  | openWork row limitUnits =>
    obtain ⟨-, -, -, -, -, rfl⟩ := h
    exact hl.congr rfl rfl
  | stopWork taskId reason =>
    obtain rfl := h
    exact hl.congr rfl rfl
  | reserve id scope bound =>
    obtain ⟨-, n, hok⟩ := h
    rw [reserveAt_rows hok]
    exact hl.congr rfl rfl
  | resolve id terminal confirmed =>
    obtain ⟨-, -, -, hok⟩ := h
    rw [(resolveReservationTx_rows.of_ok hok).2]
    exact hl.congr rfl rfl
  | dispatch rowid context id costBound => exact dispatch_totalled hl h
  | close id exactness unknownReason wireRetries bins charged => exact close_totalled hl h

theorem perform_totalled (h : l.Totalled) (op : Op) : (l.perform op).1.Totalled :=
  (perform_made h.costs op).invariant (fun _ _ _ ha hw _ => hw.totalled ha) h

/-! ## Rows settle once -/

/-- Settled rows and resolved reservations stay, every row keeps its attempt and its identity,
and the identities of new rows are above the old ones. -/
structure Settles (l l' : Ledger) : Prop where
  kept : ∀ s ∈ l.settlements, ∃ s' ∈ l'.settlements,
    s'.attemptId = s.attemptId ∧ s'.rowid = s.rowid ∧ (s.state = .settled → s' = s)
  above : ∀ s' ∈ l'.settlements, (∃ s ∈ l.settlements, s.attemptId = s'.attemptId ∧
    s.rowid = s'.rowid) ∨ ∀ s ∈ l.settlements, s.rowid < s'.rowid
  resolved : ∀ r ∈ l.reservations, r.state ≠ .reserved → r ∈ l'.reservations

theorem Settles.refl (l : Ledger) : Settles l l :=
  ⟨fun s hs => ⟨s, hs, rfl, rfl, fun _ => rfl⟩, fun s hs => .inl ⟨s, hs, rfl, rfl⟩,
    fun _ hr _ => hr⟩

theorem Settles.trans {l'' : Ledger} (h : Settles l l') (h' : Settles l' l'') :
    Settles l l'' := by
  refine ⟨?_, ?_, fun r hr hstate => h'.resolved r (h.resolved r hr hstate) hstate⟩
  · intro s hs
    obtain ⟨s', hs', hid, hrowid, hsame⟩ := h.kept s hs
    obtain ⟨s'', hs'', hid', hrowid', hsame'⟩ := h'.kept s' hs'
    refine ⟨s'', hs'', hid'.trans hid, hrowid'.trans hrowid, fun hstate => ?_⟩
    obtain rfl := hsame hstate
    exact hsame' hstate
  · intro s'' hs''
    rcases h'.above s'' hs'' with ⟨s', hs', hid', hrowid'⟩ | habove
    · rcases h.above s' hs' with ⟨s, hs, hid, hrowid⟩ | habove
      · exact .inl ⟨s, hs, hid.trans hid', hrowid.trans hrowid'⟩
      · exact .inr fun s hs => hrowid' ▸ habove s hs
    · refine .inr fun s hs => ?_
      obtain ⟨s', hs', -, hrowid, -⟩ := h.kept s hs
      exact hrowid ▸ habove s' hs'

theorem Settles.of_settlements (h : l'.settlements = l.settlements)
    (hresolved : ∀ r ∈ l.reservations, r.state ≠ .reserved → r ∈ l'.reservations) :
    Settles l l' := by
  refine ⟨?_, ?_, hresolved⟩ <;> rw [h]
  · exact (Settles.refl l).kept
  · exact (Settles.refl l).above

theorem Applies.settles {w : Write} (h : Applies l w l') (hl : l.Totalled) : Settles l l' := by
  have hresolved : ∀ r ∈ l.reservations, r.state ≠ .reserved → r ∈ l'.reservations :=
    fun _ hr => h.resolved hr
  cases w with
  | openScope scope limitUnits =>
    obtain ⟨-, -, rfl⟩ := h
    exact .of_settlements rfl hresolved
  | openWork row limitUnits =>
    obtain ⟨-, -, -, -, -, rfl⟩ := h
    exact .of_settlements rfl hresolved
  | stopWork taskId reason =>
    obtain rfl := h
    exact .of_settlements rfl hresolved
  | reserve id scope bound =>
    obtain ⟨-, n, hok⟩ := h
    rw [reserveAt_rows hok] at hresolved ⊢
    exact .of_settlements rfl hresolved
  | resolve id terminal confirmed =>
    obtain ⟨-, -, -, hok⟩ := h
    rw [(resolveReservationTx_rows.of_ok hok).2] at hresolved ⊢
    exact .of_settlements rfl hresolved
  | dispatch rowid context id costBound =>
    obtain ⟨t, ht, hrep⟩ := hl.totals
    obtain ⟨t', ht', hrowid, -, rfl⟩ := h.dispatch_eq
    obtain rfl : t = t' := Option.mem_unique ht ht'
    refine ⟨fun s hs => ⟨s, mem_append_left _ hs, rfl, rfl, fun _ => rfl⟩, ?_, hresolved⟩
    intro s' hs'
    rcases mem_append.mp hs' with hs' | hs'
    · exact .inl ⟨s', hs', rfl, rfl⟩
    · rw [mem_singleton.mp hs']
      refine .inr fun s hs => lt_of_lt_of_le (hrep.nextRowid s hs) ?_
      exact hrowid ▸ le_max_left _ _
  | close id exactness unknownReason wireRetries bins charged =>
    obtain ⟨_, rfl, -, rfl⟩ := h.close_eq
    refine ⟨fun s hs => ⟨_, mem_map_of_mem hs, by simp, by simp, fun hstate => ?_⟩, ?_,
      hresolved⟩
    · exact if_neg fun h => by simp [hstate] at h
    · intro s' hs'
      obtain ⟨s, hs, rfl⟩ := mem_map.mp hs'
      exact .inl ⟨s, hs, by simp, by simp⟩

theorem perform_settles (h : l.Totalled) (op : Op) : Settles l (l.perform op).1 := by
  have hboth := (perform_made h.costs op).invariant (I := fun a => a.Totalled ∧ Settles l a)
    (fun a w b ha hw _ => ⟨hw.totalled ha.1, ha.2.trans (hw.settles ha.1)⟩) ⟨h, .refl l⟩
  exact hboth.2

/-! ## The scan -/

theorem sum_one (rows : List Settlement) : (rows.map fun _ => (1 : ℤ)).sum = rows.length := by
  induction rows with
  | nil => rfl
  | cons s rows ih =>
    rw [map_cons, sum_cons, ih, length_cons]
    omega

theorem sum_isNone (f : Settlement → Option ℤ) (rows : List Settlement) :
    (rows.map fun s => if (f s).isNone then (1 : ℤ) else 0).sum =
      rows.length - (rows.filterMap f).length := by
  induction rows with
  | nil => rfl
  | cons s rows ih =>
    rw [map_cons, sum_cons, ih]
    cases hf : f s with
    | none =>
      simp [hf]
      omega
    | some v => simp [hf]

theorem sum_isSome (f : Settlement → Option ℤ) (rows : List Settlement) :
    (rows.map fun s => if (f s).isSome then (1 : ℤ) else 0).sum = (rows.filterMap f).length := by
  induction rows with
  | nil => rfl
  | cons s rows ih =>
    rw [map_cons, sum_cons, ih]
    cases hf : f s with
    | none => simp [hf]
    | some v =>
      simp [hf]
      omega

theorem sum_getD (f : Settlement → Option ℤ) (rows : List Settlement) :
    (rows.map fun s => (f s).getD 0).sum = (rows.filterMap f).sum := by
  induction rows with
  | nil => rfl
  | cons s rows ih => cases hf : f s <;> simp [hf, ih]

theorem sqlSum_getD (values : List ℤ) : (sqlSum values).getD 0 = values.sum := by
  cases values <;> simp [sqlSum]

theorem sqlSum_isSome {f : Settlement → Option ℤ}
    (h : ∃ s ∈ rows, s.state = .settled ∧ (f s).isSome) :
    (sqlSum ((rows.filter (·.state = .settled)).filterMap f)).isSome := by
  obtain ⟨s, hs, hstate, hf⟩ := h
  obtain ⟨v, hv⟩ := Option.isSome_iff_exists.mp hf
  have hmem : v ∈ (rows.filter (·.state = .settled)).filterMap f :=
    mem_filterMap.mpr ⟨s, mem_filter.mpr ⟨hs, by simpa using hstate⟩, hv⟩
  have hne : ((rows.filter (·.state = .settled)).filterMap f).isEmpty = false := by
    rw [isEmpty_eq_false_iff]
    exact ne_nil_of_mem hmem
  rw [sqlSum, hne]
  rfl

theorem newest_head {s : Settlement}
    (h : ((rows.filter (·.state = .settled)).insertionSort (·.rowid ≥ ·.rowid)).head? = some s) :
    Newest rows s := by
  obtain ⟨tail, htail⟩ := head?_eq_some_iff.mp h
  have hmem : ∀ r, r ∈ s :: tail ↔ r ∈ rows ∧ r.state = .settled := by
    intro r
    rw [← htail, mem_insertionSort, mem_filter, decide_eq_true_iff]
  have hsorted := pairwise_insertionSort (fun a b : Settlement => a.rowid ≥ b.rowid)
    (rows.filter (·.state = .settled))
  rw [htail, pairwise_cons] at hsorted
  refine ⟨((hmem s).mp mem_cons_self).1, ((hmem s).mp mem_cons_self).2, ?_⟩
  intro r hr hstate
  rcases mem_cons.mp ((hmem r).mpr ⟨hr, hstate⟩) with rfl | hr
  · exact le_rfl
  · exact hsorted.1 r hr

theorem exists_newest (h : ∃ s ∈ rows, s.state = .settled) : ∃ s, Newest rows s ∧
    ((rows.filter (·.state = .settled)).insertionSort (·.rowid ≥ ·.rowid)).head? = some s := by
  obtain ⟨s, hs, hstate⟩ := h
  have hmem : s ∈ (rows.filter (·.state = .settled)).insertionSort (·.rowid ≥ ·.rowid) := by
    rw [mem_insertionSort, mem_filter, decide_eq_true_iff]
    exact ⟨hs, hstate⟩
  cases hhead : ((rows.filter (·.state = .settled)).insertionSort (·.rowid ≥ ·.rowid)).head? with
  | none =>
    rw [head?_eq_none_iff.mp hhead] at hmem
    cases hmem
  | some r => exact ⟨r, newest_head hhead, rfl⟩

theorem Newest.unique (hrowids : (rows.map Settlement.rowid).Nodup) {s r : Settlement}
    (hs : Newest rows s) (hr : Newest rows r) : s = r :=
  inj_on_of_nodup_map hrowids hs.1 hr.1
    (le_antisymm (hr.2.2 s hs.1 hs.2.1) (hs.2.2 r hr.1 hr.2.1))

theorem backfill_represents (hrowids : (l.settlements.map Settlement.rowid).Nodup) :
    Represents l.usageTotalsBackfill l.settlements where
  settledCount := (sum_one _).symm
  settledWithoutTotal := (sum_isNone _ _).symm
  totalTokens := (sqlSum_getD _).trans (sum_getD _ _).symm
  totalSeen := sqlSum_isSome
  chargedCount := (sum_isSome _ _).symm
  chargedUnits := (sqlSum_getD _).trans (sum_getD _ _).symm
  chargedSeen := sqlSum_isSome
  latestPromptTokens s hs := by
    obtain ⟨r, hr, hhead⟩ := exists_newest ⟨s, hs.1, hs.2.1⟩
    obtain rfl := hs.unique hrowids hr
    simp only [usageTotalsBackfill, hhead]
    rfl
  noPromptTokens hnone := by
    have hempty : l.settlements.filter (·.state = .settled) = [] := by
      simpa [filter_eq_nil_iff] using hnone
    simp [usageTotalsBackfill, hempty]
  dispatchedCount := rfl
  nextRowid s hs := by
    have := le_maxRowid hs
    simp only [usageTotalsBackfill]
    omega

theorem exists_of_settledSum_pos {f : Settlement → Option ℤ}
    (h : 0 < settledSum (fun s => if (f s).isSome then 1 else 0) rows) :
    ∃ s ∈ rows, s.state = .settled ∧ (f s).isSome := by
  by_contra hnone
  have hzero : settledSum (fun s => if (f s).isSome then 1 else 0) rows = 0 := by
    apply sum_eq_zero
    intro x hx
    obtain ⟨s, hs, rfl⟩ := mem_map.mp hx
    rw [mem_filter, decide_eq_true_iff] at hs
    exact if_neg fun hf => hnone ⟨s, hs.1, hs.2, hf⟩
  omega

theorem settledSum_isNone_add (f : Settlement → Option ℤ) (rows : List Settlement) :
    settledSum (fun _ => 1) rows =
      settledSum (fun s => if (f s).isNone then 1 else 0) rows +
        settledSum (fun s => if (f s).isSome then 1 else 0) rows := by
  apply tally_eq_add
  intro s _
  by_cases hs : s.state = .settled <;> cases hf : f s <;> simp [share, hs, hf]

theorem eq_of_getD_eq {a b : Option ℤ} (ha : a.isSome) (hb : b.isSome) (h : a.getD 0 = b.getD 0) :
    a = b := by
  cases a <;> cases b <;> simp_all

theorem Represents.read {t' : UsageTotals} (h : Represents t rows) (h' : Represents t' rows)
    (ht : l.totals = some t) (ht' : l'.totals = some t') :
    l.settlementTotals = l'.settlementTotals := by
  have hcount := h.settledCount.trans h'.settledCount.symm
  have hwithout := h.settledWithoutTotal.trans h'.settledWithoutTotal.symm
  have hcharges := h.chargedCount.trans h'.chargedCount.symm
  have hdispatched := h.dispatchedCount.trans h'.dispatchedCount.symm
  have htotal : (if t.settledWithoutTotal < t.settledCount then t.totalTokens else none) =
      if t'.settledWithoutTotal < t'.settledCount then t'.totalTokens else none := by
    rw [← hcount, ← hwithout]
    split
    · next hlt =>
      rw [h.settledCount, h.settledWithoutTotal,
        settledSum_isNone_add (fun s => s.bins.totalTokens)] at hlt
      have hseen : ∃ s ∈ rows, s.state = .settled ∧ s.bins.totalTokens.isSome :=
        exists_of_settledSum_pos (by omega)
      exact eq_of_getD_eq (h.totalSeen hseen) (h'.totalSeen hseen)
        (h.totalTokens.trans h'.totalTokens.symm)
    · rfl
  have hcharged : (if 0 < t.chargedCount then t.chargedUnits else none) =
      if 0 < t'.chargedCount then t'.chargedUnits else none := by
    rw [← hcharges]
    split
    · next hlt =>
      rw [h.chargedCount] at hlt
      have hseen := exists_of_settledSum_pos hlt
      exact eq_of_getD_eq (h.chargedSeen hseen) (h'.chargedSeen hseen)
        (h.chargedUnits.trans h'.chargedUnits.symm)
    · rfl
  have hlatest : t.latestPromptTokens = t'.latestPromptTokens := by
    by_cases hsettled : ∃ s ∈ rows, s.state = .settled
    · obtain ⟨s, hs, -⟩ := exists_newest hsettled
      rw [h.latestPromptTokens s hs, h'.latestPromptTokens s hs]
    · have hnone : ∀ s ∈ rows, s.state ≠ .settled := fun s hs hstate => hsettled ⟨s, hs, hstate⟩
      rw [h.noPromptTokens hnone, h'.noPromptTokens hnone]
  unfold settlementTotals
  rw [ht, ht']
  simp only [htotal, hcharged]
  simp only [hcount, hwithout, hdispatched, hlatest]

theorem Represents.fresh (h : Represents t l.settlements) (ht : l.totals = some t) :
    l.usageTotalsStale = false := by
  unfold usageTotalsStale
  rw [ht]
  simp only [Bool.or_eq_false_iff, decide_eq_false_iff_not, not_not]
  refine ⟨?_, h.dispatchedCount⟩
  cases hmax : maxRowid l.settlements with
  | none => rfl
  | some m =>
    obtain ⟨⟨s, hs, rfl⟩, -⟩ := maxRowid_eq_some.mp hmax
    simpa using h.nextRowid s hs

theorem fresh_totalled (tasks : List String) : (fresh tasks).Totalled :=
  ⟨nodup_nil, nodup_nil, by simp [CostsStored, fresh], _, rfl,
    backfill_represents (l := ⟨tasks, [], [], [], none, []⟩) nodup_nil⟩

/-- From a consistent store the incremental row reads as the scan would, never falls behind,
and every attempt settles and is charged once, under identities that only grow. -/
theorem totals_recomputed {start : Ledger} {ops : List Op} (hstart : start.Totalled)
    (hrun : Run Performs start ops l) :
    l.settlementTotals = { l with totals := some l.usageTotalsBackfill }.settlementTotals ∧
      l.usageTotalsStale = false ∧ (l.settlements.map Settlement.attemptId).Nodup ∧
      ∀ pre post a, ops = pre ++ post → Run Performs start pre a → Settles a l := by
  have hkeep : ∀ a op b, a.Totalled → Performs a op b → b.Totalled :=
    fun a op b ha hop => hop ▸ perform_totalled ha op
  have hl := hrun.invariant hkeep hstart
  obtain ⟨t, ht, hrep⟩ := hl.totals
  refine ⟨hrep.read (backfill_represents hl.rowids) ht rfl, hrep.fresh ht, hl.attempts, ?_⟩
  rintro pre post a rfl hpre
  obtain ⟨b, hb, hpost⟩ := hrun.split
  obtain rfl := hb.unique (fun s op a b ha hb => ha.symm.trans hb) hpre
  exact hpost.relates (R := Settles) Settles.refl (fun _ _ _ => Settles.trans) hkeep
    (fun a op b ha hop => hop ▸ perform_settles ha op) (hb.invariant hkeep hstart)

/-- Two sends that settle in the opposite order of their dispatch, the later one unmeasured. -/
theorem totals_recomputed_out_of_order : ∃ l, Run Performs (fresh [])
      [.openBudget "root" 20,
        .beginSend ["root"] ⟨"turn", "local", none, none⟩ ⟨"a", 4⟩,
        .beginSend [] ⟨"turn", "local", none, none⟩ ⟨"b", 4⟩,
        .finishSend ⟨"b", 4, false⟩ (.failed 1),
        .finishSend ⟨"a", 4, true⟩ (.settled (.exact 2 1 3) 0)] l ∧
    l.settlementTotals = .ok ⟨2, 1, some 3, some 3, 0, none⟩ ∧
    { l with totals := some l.usageTotalsBackfill }.settlementTotals =
      .ok ⟨2, 1, some 3, some 3, 0, none⟩ ∧ l.usageTotalsStale = false := by
  have hrun : Run Performs (fresh [])
      [.openBudget "root" 20,
        .beginSend ["root"] ⟨"turn", "local", none, none⟩ ⟨"a", 4⟩,
        .beginSend [] ⟨"turn", "local", none, none⟩ ⟨"b", 4⟩,
        .finishSend ⟨"b", 4, false⟩ (.failed 1),
        .finishSend ⟨"a", 4, true⟩ (.settled (.exact 2 1 3) 0)] _ :=
    .cons rfl (.cons rfl (.cons rfl (.cons rfl (.cons rfl (.nil _)))))
  have h := totals_recomputed (fresh_totalled []) hrun
  exact ⟨_, hrun, rfl, h.1.symm.trans rfl, h.2.1⟩

end Rivect.Ledger
