import Mathlib.Data.List.Pairwise
import Rivect.Update.Evidence

/-! # What retention keeps

A pruning pass removes only what is settled, never the newest carrier of a cause nor the newest
success, and a settlement rewrites only what a success supersedes. So a call loses no open record
and no cause, wherever it stops.
-/

namespace Rivect.Update

open Lib Prog List

variable {start dir before after : Directory} {G : Directory → Prop}

namespace Directory

theorem eq_of_name {row row' : Row} (h : row ∈ dir.rows) (h' : row' ∈ dir.rows)
    (hname : row.name = row'.name) : row = row' :=
  inj_on_of_nodup_map dir.names h h' hname

theorem eq_of_written {row row' : Row} (h : row ∈ dir.rows) (h' : row' ∈ dir.rows)
    (hwritten : row.written = row'.written) : row = row' := by
  by_contra hne
  have hdistinct : dir.rows.Pairwise fun a b => a.written ≠ b.written :=
    dir.ordered.imp Nat.ne_of_lt
  have : Std.Symm fun a b : Row => a.written ≠ b.written := ⟨fun _ _ => Ne.symm⟩
  exact hdistinct.forall h h' hne hwritten

theorem mem_of_row {name : RecordName} {row : Row} (h : dir.row name = some row) :
    row ∈ dir.rows ∧ row.name = name :=
  ⟨mem_of_find?_eq_some h, by simpa using List.find?_some h⟩

theorem mem_listing {entry : Stored} :
    entry ∈ dir.listing ↔ ∃ row ∈ dir.rows, ⟨row.name, row.written, row.bytes⟩ = entry :=
  mem_map

theorem listing_names : (dir.listing.map Stored.name).Nodup := by
  rw [listing, map_map]
  exact dir.names

/-- The newest of the rows with a property. -/
structure IsNewest (dir : Directory) (P : UpdateEvidence → Prop) (row : Row) : Prop where
  stored : row ∈ dir.rows
  has : P row.record
  newest : ∀ other ∈ dir.rows, P other.record → other.written ≤ row.written

theorem IsNewest.unique {P : UpdateEvidence → Prop} {row row' : Row} (h : dir.IsNewest P row)
    (h' : dir.IsNewest P row') : row = row' :=
  eq_of_written h.stored h'.stored
    (Nat.le_antisymm (h'.newest row h.stored h.has) (h.newest row' h'.stored h'.has))

end Directory

open Directory

/-- A record of an attempt that succeeded. -/
def Succeeded (evidence : UpdateEvidence) : Prop := evidence.terminal = .success

/-- A stored record carries the cause. -/
def Carried (dir : Directory) (cause : Failure) : Prop :=
  ∃ row ∈ dir.rows, row.record.firstFailure = some cause

/-- The stored record that a listed name stands for. -/
def Holds (dir : Directory) (name : RecordName) (record : UpdateEvidence) : Prop :=
  ∃ row ∈ dir.rows, row.name = name ∧ row.record = record

theorem Holds.unique {name : RecordName} {record record' : UpdateEvidence}
    (h : Holds dir name record) (h' : Holds dir name record') : record = record' := by
  obtain ⟨row, hrow, hname, hrecord⟩ := h
  obtain ⟨row', hrow', hname', hrecord'⟩ := h'
  have hsame := eq_of_name hrow hrow' (hname.trans hname'.symm)
  rw [← hrecord, ← hrecord', hsame]

namespace EvidenceStore

/-! ## Reading changes nothing -/

theorem stored_leads (hG : G start) :
    Leads start stored (fun entries dir => dir = start ∧ entries = start.listing) G := by
  refine Leads.observe (fun entries h => ⟨rfl, ?_⟩) hG
  injection h with h
  exact h.symm

theorem read_leads {name : RecordName} (hG : G start) :
    Leads start (read name) (fun record dir => dir = start ∧ Holds start name record) G := by
  refine Leads.observe (fun record h => ⟨rfl, ?_⟩) hG
  obtain ⟨row, hrow, hdecoded⟩ := bind_eq_ok h
  obtain ⟨hmem, hname⟩ := mem_of_row (found_eq_ok hrow)
  obtain ⟨_, _, hdecoded⟩ := bind_eq_ok hdecoded
  obtain ⟨_, _, hdecoded⟩ := bind_eq_ok hdecoded
  injection hdecoded with hrecord
  exact ⟨row, hmem, hname, hrecord⟩

theorem read_bind {α : Type} {name : RecordName} {f : UpdateEvidence → Prog Directory UpdateError α}
    {Q : α → Directory → Prop} (hG : G start)
    (h : ∀ record, Holds start name record → Leads start (f record) Q G) :
    Leads start (read name >>= f) Q G := by
  refine Leads.bind (read_leads hG) ?_
  rintro record dir ⟨rfl, hholds⟩
  exact h record hholds

/-- The walk stops at a success with none among the entries before it. -/
theorem newestSuccessOf_leads (hG : G start) (entries : List (Stored × ℕ)) (decoded : ℕ) :
    Leads start (newestSuccessOf entries decoded) (fun answer dir => dir = start ∧
      (∀ index, answer.1 = some index → ∃ newer entry older,
        entries = newer ++ (entry, index) :: older ∧
        (∃ record, Holds start entry.name record ∧ Succeeded record) ∧
        ∀ other ∈ newer, ∀ record, Holds start other.1.name record → ¬ Succeeded record) ∧
      (answer.1 = none →
        ∀ other ∈ entries, ∀ record, Holds start other.1.name record → ¬ Succeeded record)) G := by
  induction entries generalizing decoded with
  | nil => exact Leads.ret ⟨rfl, fun _ h => (nomatch h), fun _ _ h => (nomatch h)⟩
  | cons head older ih =>
    obtain ⟨entry, index⟩ := head
    refine read_bind hG fun record hholds => ?_
    by_cases hsuccess : record.terminal = .success
    · rw [if_pos hsuccess]
      refine Leads.ret ⟨rfl, fun found hfound => ?_, fun h => (nomatch h)⟩
      obtain rfl := Option.some.inj hfound
      exact ⟨[], entry, older, rfl, ⟨record, hholds, hsuccess⟩, fun _ h => (nomatch h)⟩
    · rw [if_neg hsuccess]
      have hhead : ∀ record', Holds start entry.name record' → ¬ Succeeded record' := by
        intro record' hholds'
        rw [← hholds.unique hholds']
        exact hsuccess
      refine Leads.imp (ih (decoded + 1)) ?_ fun _ h => h
      rintro answer dir ⟨hdir, hfound, hnone⟩
      refine ⟨hdir, fun index' h => ?_, fun h => forall_mem_cons.mpr ⟨hhead, hnone h⟩⟩
      obtain ⟨newer, entry', older', rfl, hentry, hnewer⟩ := hfound index' h
      exact ⟨(entry, index) :: newer, entry', older', rfl, hentry,
        forall_mem_cons.mpr ⟨hhead, hnewer⟩⟩

/-- The index stands for the newest success of the directory. -/
def SuccessAt (dir : Directory) : Option ℕ → Prop
  | none => ∀ row ∈ dir.rows, ¬ Succeeded row.record
  | some index => ∃ older row newer, dir.rows = older ++ row :: newer ∧ older.length = index ∧
      dir.IsNewest Succeeded row

/-- A split of the numbered listing, read from its end, splits the rows at the number. -/
theorem rows_of_split {newer older : List (Stored × ℕ)} {entry : Stored} {index : ℕ}
    (h : dir.listing.zipIdx.reverse = newer ++ (entry, index) :: older) :
    ∃ olderRows row newerRows, dir.rows = olderRows ++ row :: newerRows ∧
      olderRows.length = index ∧ row.name = entry.name ∧
      ∀ r ∈ newerRows, ∃ other ∈ newer, other.1.name = r.name := by
  have hsplit : dir.listing.zipIdx = older.reverse ++ (entry, index) :: newer.reverse := by
    rw [← reverse_reverse dir.listing.zipIdx, h]
    simp
  have hindex : index = older.length := by
    have hget := congrArg (·[older.length]?) hsplit
    simp only [List.getElem?_zipIdx] at hget
    rw [List.getElem?_append_right (by simp)] at hget
    simp only [length_reverse, Nat.sub_self, List.getElem?_cons_zero,
      Option.map_eq_some_iff] at hget
    obtain ⟨_, _, hpair⟩ := hget
    have := congrArg Prod.snd hpair
    simpa using this.symm
  have hlisting : dir.rows.map (fun row => (⟨row.name, row.written, row.bytes⟩ : Stored)) =
      older.reverse.map Prod.fst ++ entry :: newer.reverse.map Prod.fst := by
    rw [← map_cons (f := Prod.fst) (a := (entry, index)), ← map_append, ← hsplit,
      zipIdx_map_fst]
    rfl
  obtain ⟨olderRows, rest, hrows, holder, hrest⟩ := map_eq_append_iff.mp hlisting
  obtain ⟨row, newerRows, rfl, hrow, hnewer⟩ := map_eq_cons_iff.mp hrest
  refine ⟨olderRows, row, newerRows, hrows, ?_, by rw [← hrow], ?_⟩
  · rw [hindex]
    simpa using congrArg List.length holder
  · intro r hr
    have hmem : (⟨r.name, r.written, r.bytes⟩ : Stored) ∈ newer.reverse.map Prod.fst := by
      rw [← hnewer]
      exact mem_map_of_mem hr
    obtain ⟨other, hother, hfst⟩ := mem_map.mp hmem
    exact ⟨other, mem_reverse.mp hother, by rw [hfst]⟩

theorem newestSuccess_leads (hG : G start) :
    Leads start (newestSuccess start.listing)
      (fun answer dir => dir = start ∧ SuccessAt start answer.1) G := by
  refine Leads.imp (newestSuccessOf_leads hG _ 0) ?_ fun _ h => h
  rintro ⟨success, decoded⟩ dir ⟨hdir, hfound, hnone⟩
  refine ⟨hdir, ?_⟩
  cases success with
  | none =>
    intro row hrow
    obtain ⟨index, hindex, hget⟩ :=
      getElem_of_mem (mem_listing.mpr ⟨row, hrow, rfl⟩ : _ ∈ start.listing)
    refine hnone rfl (⟨row.name, row.written, row.bytes⟩, index) ?_ row.record
      ⟨row, hrow, rfl, rfl⟩
    rw [mem_reverse, mem_zipIdx_iff_getElem?]
    exact List.getElem?_eq_some_iff.mpr ⟨hindex, hget⟩
  | some index =>
    obtain ⟨newer, entry, older, hsplit, ⟨record, hholds, hsuccess⟩, hnewer⟩ := hfound index rfl
    obtain ⟨olderRows, row, newerRows, hrows, hlength, hname, hcover⟩ := rows_of_split hsplit
    have hrow : row ∈ start.rows := by simp [hrows]
    refine ⟨olderRows, row, newerRows, hrows, hlength, hrow, ?_, ?_⟩
    · obtain ⟨held, hheld, hsame, rfl⟩ := hholds
      rw [eq_of_name hrow hheld (hname.trans hsame.symm)]
      exact hsuccess
    · intro other hother hothers
      rw [hrows, mem_append, mem_cons] at hother
      have hordered := start.ordered
      rw [hrows, pairwise_append] at hordered
      rcases hother with hother | rfl | hother
      · exact Nat.le_of_lt (hordered.2.2 other hother row mem_cons_self)
      · exact Nat.le_refl _
      · obtain ⟨x, hx, hxname⟩ := hcover other hother
        refine absurd hothers (hnewer x hx other.record ⟨other, ?_, hxname.symm, rfl⟩)
        rw [hrows]
        simp [hother]

theorem newestCarriersOf_leads (hG : G start) (entries : List Stored) (causes : List Failure)
    (carriers : List RecordName) :
    Leads start (newestCarriersOf entries causes carriers) (fun found dir => dir = start ∧
      carriers ⊆ found ∧ ∀ entry ∈ entries, ∀ record, Holds start entry.name record →
        ∀ cause, record.firstFailure = some cause → cause ∈ causes ∨
          ∃ name ∈ found, ∃ carrier, Holds start name carrier ∧ carrier.firstFailure = some cause)
      G := by
  induction entries generalizing causes carriers with
  | nil => exact Leads.ret ⟨rfl, List.Subset.refl _, fun _ h => nomatch h⟩
  | cons entry older ih =>
    refine read_bind hG fun record hholds => ?_
    have hhead : ∀ record', Holds start entry.name record' → record' = record :=
      fun _ h => h.unique hholds
    cases hfailure : record.firstFailure with
    | none =>
      refine Leads.imp (ih causes carriers) ?_ fun _ h => h
      rintro found dir ⟨hdir, hsub, hcover⟩
      refine ⟨hdir, hsub, forall_mem_cons.mpr ⟨?_, hcover⟩⟩
      intro record' hholds' cause hcause
      rw [hhead record' hholds', hfailure] at hcause
      cases hcause
    | some cause =>
      dsimp only
      by_cases hknown : cause ∈ causes
      · rw [if_pos hknown]
        refine Leads.imp (ih causes carriers) ?_ fun _ h => h
        rintro found dir ⟨hdir, hsub, hcover⟩
        refine ⟨hdir, hsub, forall_mem_cons.mpr ⟨?_, hcover⟩⟩
        intro record' hholds' cause' hcause
        rw [hhead record' hholds', hfailure] at hcause
        obtain rfl := Option.some.inj hcause
        exact Or.inl hknown
      · rw [if_neg hknown]
        refine Leads.imp (ih (causes ++ [cause]) (carriers ++ [entry.name])) ?_ fun _ h => h
        rintro found dir ⟨hdir, hsub, hcover⟩
        have hfound : entry.name ∈ found := hsub (by simp)
        have hcarried : ∃ name ∈ found, ∃ carrier, Holds start name carrier ∧
            carrier.firstFailure = some cause := ⟨entry.name, hfound, record, hholds, hfailure⟩
        refine ⟨hdir, fun name h => hsub (mem_append_left _ h),
          forall_mem_cons.mpr ⟨?_, ?_⟩⟩
        · intro record' hholds' cause' hcause
          rw [hhead record' hholds', hfailure] at hcause
          obtain rfl := Option.some.inj hcause
          exact Or.inr hcarried
        · intro other hother record' hholds' cause' hcause
          rcases hcover other hother record' hholds' cause' hcause with hknown' | hcovered
          · rcases mem_append.mp hknown' with hknown' | hnew
            · exact Or.inl hknown'
            · rw [mem_singleton.mp hnew]
              exact Or.inr hcarried
          · exact Or.inr hcovered

/-! ## A pruning pass -/

/-- A pass removed only what is settled and not spared. -/
structure Pruned (spared : RecordName → Prop) (before after : Directory) : Prop where
  rows : after.rows ⊆ before.rows
  gone : ∀ row ∈ before.rows, row ∉ after.rows → ¬ row.record.Unresolved ∧ ¬ spared row.name

variable {spared spared' : RecordName → Prop}

theorem Pruned.refl : Pruned spared dir dir := ⟨List.Subset.refl _, fun _ h h' => absurd h h'⟩

theorem Pruned.trans (h : Pruned spared before dir) (h' : Pruned spared dir after) :
    Pruned spared before after := by
  refine ⟨fun row hrow => h.rows (h'.rows hrow), fun row hrow hgone => ?_⟩
  by_cases hbetween : row ∈ dir.rows
  · exact h'.gone row hbetween hgone
  · exact h.gone row hrow hbetween

theorem Pruned.imp (h : Pruned spared before after) (hspared : ∀ name, spared' name → spared name) :
    Pruned spared' before after :=
  ⟨h.rows, fun row hrow hgone =>
    ⟨(h.gone row hrow hgone).1, fun hs => (h.gone row hrow hgone).2 (hspared _ hs)⟩⟩

theorem Pruned.remove {name : RecordName} {record : UpdateEvidence}
    (hholds : Holds start name record) (hsettled : ¬ record.Unresolved) (hspared : ¬ spared name) :
    Pruned spared start (start.remove name) := by
  refine ⟨fun row hrow => (mem_remove.mp hrow).1, fun row hrow hgone => ?_⟩
  have hname : row.name = name := by
    by_contra hne
    exact hgone (mem_remove.mpr ⟨hrow, hne⟩)
  refine ⟨?_, hname ▸ hspared⟩
  rw [Holds.unique ⟨row, hrow, hname, rfl⟩ hholds]
  exact hsettled

theorem Pruned.spares (h : Pruned spared before after) {row : Row} (hrow : row ∈ before.rows)
    (hspared : spared row.name) : row ∈ after.rows := by
  by_contra hgone
  exact (h.gone row hrow hgone).2 hspared

theorem Pruned.unresolved (h : Pruned spared before after) {row : Row} (hrow : row ∈ before.rows)
    (hopen : row.record.Unresolved) : row ∈ after.rows := by
  by_contra hgone
  exact (h.gone row hrow hgone).1 hopen

theorem not_unresolved {record : UpdateEvidence} :
    ¬ record.Unresolved ↔ record.resolved = true ∨ record.terminal = .success := by
  simp [UpdateEvidence.Unresolved, or_iff_not_imp_left]

/-- What a pass spares: the success, the settled and the carriers. -/
def Spared (entries : List Stored) (success : Option ℕ) (settled carriers : List RecordName)
    (name : RecordName) : Prop :=
  (∃ index, success = some index ∧ (entries[index]?).map Stored.name = some name) ∨
    name ∈ settled ∨ name ∈ carriers

theorem pruneEntries_leads {entries : List Stored} {count : ℕ} {success : Option ℕ}
    {settled carriers : List RecordName} (hnames : (entries.map Stored.name).Nodup)
    (walk : List (Stored × ℕ)) (hwalk : walk ⊆ entries.zipIdx) (pass : Pass) (start : Directory) :
    Leads start (pruneEntries count success settled carriers walk pass)
      (fun _ => Pruned (Spared entries success settled carriers) start)
      (Pruned (Spared entries success settled carriers) start) := by
  induction walk generalizing pass start with
  | nil => exact Leads.ret Pruned.refl
  | cons head newer ih =>
    obtain ⟨entry, index⟩ := head
    have hnewer : newer ⊆ entries.zipIdx := fun _ h => hwalk (mem_cons_of_mem _ h)
    have hentry : entries[index]? = some entry :=
      mem_zipIdx_iff_getElem?.mp (hwalk mem_cons_self)
    unfold pruneEntries
    by_cases hbounds : pass.withinBounds count
    · rw [if_pos hbounds]
      exact Leads.ret Pruned.refl
    rw [if_neg hbounds]
    by_cases hspared : some index = success ∨ entry.name ∈ settled ∨ entry.name ∈ carriers
    · rw [if_pos hspared]
      exact ih hnewer pass start
    rw [if_neg hspared]
    refine read_bind Pruned.refl fun record hholds => ?_
    by_cases hremovable : record.resolved = true ∨ record.terminal = .success
    · rw [if_pos hremovable]
      have hnot : ¬ Spared entries success settled carriers entry.name := by
        rintro (⟨index', hsuccess, hname⟩ | hlisted)
        · refine hspared (Or.inl ?_)
          obtain ⟨other, hother, hsame⟩ := Option.map_eq_some_iff.mp hname
          have hposition : (entries.map Stored.name)[index]? =
              (entries.map Stored.name)[index']? := by
            rw [List.getElem?_map, List.getElem?_map, hentry, hother]
            exact congrArg some hsame.symm
          have hlt : index < (entries.map Stored.name).length := by
            rw [length_map]
            exact (List.getElem?_eq_some_iff.mp hentry).1
          rw [hsuccess, (List.getElem?_inj hlt hnames).mp hposition]
        · exact hspared (Or.inr hlisted)
      have hremove := Pruned.remove hholds (not_unresolved.mpr hremovable) hnot
      refine Leads.bind (Q := fun _ dir => dir = start.remove entry.name)
        (Leads.effect rfl Pruned.refl hremove) ?_
      rintro _ _ rfl
      exact Leads.imp (ih hnewer _ _) (fun _ _ h => hremove.trans h) fun _ h => hremove.trans h
    rw [if_neg hremovable]
    by_cases hstop : pass.kept + 1 ≥ EVIDENCE_MAX_RECORDS
    · rw [if_pos hstop]
      exact Leads.ret Pruned.refl
    · rw [if_neg hstop]
      exact ih hnewer _ start

/-- The causes that are carried stay carried. -/
def CausesKept (before after : Directory) : Prop :=
  ∀ cause, Carried before cause → Carried after cause

/-- What is kept by a pass over a listing that names every record. -/
structure Retained (spared : RecordName → Prop) (before after : Directory) : Prop where
  pruned : Pruned spared before after
  causes : CausesKept before after

theorem Retained.refl : Retained spared dir dir := ⟨Pruned.refl, fun _ h => h⟩

theorem pruneStored_leads {entries : List Stored} {count : ℕ} {success : Option ℕ}
    {settled : List RecordName} (hnames : (entries.map Stored.name).Nodup)
    (hcover : ∀ row ∈ start.rows, ∃ entry ∈ entries, entry.name = row.name) :
    Leads start (pruneStored entries count success settled)
      (fun _ => Retained (Spared entries success settled []) start)
      (Retained (Spared entries success settled []) start) := by
  unfold pruneStored
  dsimp only
  split
  · exact Leads.ret Retained.refl
  refine Leads.bind (newestCarriersOf_leads Retained.refl entries.reverse [] []) ?_
  rintro carriers start ⟨rfl, -, hcarriers⟩
  have hretained : ∀ dir, Pruned (Spared entries success settled carriers) start dir →
      Retained (Spared entries success settled []) start dir := by
    intro dir hpruned
    refine ⟨hpruned.imp fun name h => ?_, ?_⟩
    · rcases h with h | h | h
      · exact Or.inl h
      · exact Or.inr (Or.inl h)
      · cases h
    · rintro cause ⟨row, hrow, hcause⟩
      obtain ⟨entry, hentry, hname⟩ := hcover row hrow
      rcases hcarriers entry (mem_reverse.mpr hentry) row.record ⟨row, hrow, hname.symm, rfl⟩
        cause hcause with h | ⟨name, hname', carrier, ⟨held, hheld, rfl, rfl⟩, hcarried⟩
      · cases h
      · exact ⟨held, hpruned.spares hheld (Or.inr (Or.inr hname')), hcarried⟩
  refine Leads.bind (Leads.imp (pruneEntries_leads hnames _ (List.Subset.refl _) _ _)
    (fun _ => hretained) hretained) fun _ dir h => Leads.ret h

/-- The name of a newest success. -/
def NewestSuccess (dir : Directory) (name : RecordName) : Prop :=
  ∃ row, dir.IsNewest Succeeded row ∧ row.name = name

theorem SuccessAt.is_spared {success : Option ℕ} {settled : List RecordName} {name : RecordName}
    (h : SuccessAt dir success) (hname : NewestSuccess dir name) :
    Spared dir.listing success settled [] name := by
  obtain ⟨newest, hnewest, rfl⟩ := hname
  cases success with
  | none => exact absurd hnewest.has (h newest hnewest.stored)
  | some index =>
    obtain ⟨older, row, newer, hrows, rfl, hrow⟩ := h
    have hsame := hrow.unique hnewest
    refine Or.inl ⟨older.length, rfl, ?_⟩
    rw [listing, hrows, map_append, List.getElem?_append_right (by simp)]
    simp [hsame]

theorem pruneTo_leads {count : ℕ} :
    Leads start (pruneTo count) (fun _ => Retained (NewestSuccess start) start)
      (Retained (NewestSuccess start) start) := by
  refine Leads.bind (stored_leads Retained.refl) ?_
  rintro entries start ⟨rfl, rfl⟩
  refine Leads.bind (newestSuccess_leads Retained.refl) ?_
  rintro ⟨success, decoded⟩ start ⟨rfl, hsuccess : SuccessAt start success⟩
  have hretained : ∀ dir, Retained (Spared start.listing success [] []) start dir →
      Retained (NewestSuccess start) start dir :=
    fun dir h => ⟨h.pruned.imp fun name hname => hsuccess.is_spared hname, h.causes⟩
  exact Leads.imp (pruneStored_leads listing_names fun row hrow =>
    ⟨_, mem_listing.mpr ⟨row, hrow, rfl⟩, rfl⟩) (fun _ => hretained) hretained

theorem prune_leads :
    Leads start prune (fun _ => Retained (NewestSuccess start) start)
      (Retained (NewestSuccess start) start) := by
  exact pruneTo_leads

/-! ## Admission -/

/-- The walk answers with the first entry whose record is unresolved. -/
theorem continuesOf_leads (hG : G start) (offeredBase : Option ℕ) (entries : List Stored)
    (hordered : entries.Pairwise fun newer older => older.written < newer.written) :
    Leads start (continuesOf offeredBase entries) (fun continues dir => dir = start ∧
      (continues = true → ∃ entry ∈ entries, ∃ record, Holds start entry.name record ∧
        record.Unresolved ∧ record.offeredBase = offeredBase ∧
        ∀ other ∈ entries, ∀ record', Holds start other.name record' → record'.Unresolved →
          other.written ≤ entry.written)) G := by
  induction entries with
  | nil => exact Leads.ret ⟨rfl, fun h => (nomatch h)⟩
  | cons head older ih =>
    obtain ⟨hnewest, holder⟩ := pairwise_cons.mp hordered
    refine read_bind hG fun record hholds => ?_
    by_cases hsettled : record.resolved = true ∨ record.terminal = .success
    · rw [if_pos hsettled]
      refine Leads.imp (ih holder) ?_ fun _ h => h
      rintro continues dir ⟨hdir, hfound⟩
      refine ⟨hdir, fun h => ?_⟩
      obtain ⟨entry, hentry, record', hholds', hopen, hbase, hall⟩ := hfound h
      refine ⟨entry, mem_cons_of_mem _ hentry, record', hholds', hopen, hbase,
        forall_mem_cons.mpr ⟨?_, hall⟩⟩
      intro other hother hunresolved
      rw [← hholds.unique hother] at hunresolved
      exact absurd hunresolved (not_unresolved.mpr hsettled)
    · rw [if_neg hsettled]
      refine Leads.ret ⟨rfl, fun h => ?_⟩
      have hopen : record.Unresolved := by
        by_contra hnot
        exact hsettled (not_unresolved.mp hnot)
      refine ⟨head, mem_cons_self, record, hholds, hopen, of_decide_eq_true h,
        forall_mem_cons.mpr ⟨fun _ _ _ => Nat.le_refl _, ?_⟩⟩
      intro other hother _ _ _
      exact Nat.le_of_lt (hnewest other hother)

/-- The newest unresolved record was offered the base. -/
def Continues (dir : Directory) (offeredBase : Option ℕ) : Prop :=
  ∃ row, dir.IsNewest UpdateEvidence.Unresolved row ∧ row.record.offeredBase = offeredBase

theorem continuesUnresolved_leads (hG : G start) (offeredBase : Option ℕ) :
    Leads start (continuesUnresolved offeredBase)
      (fun continues dir => dir = start ∧ (continues = true → Continues start offeredBase)) G := by
  refine Leads.bind (stored_leads hG) ?_
  rintro entries start ⟨rfl, rfl⟩
  have hordered :
      start.listing.reverse.Pairwise fun newer older => older.written < newer.written := by
    rw [pairwise_reverse, listing, pairwise_map]
    exact start.ordered
  refine Leads.imp (continuesOf_leads hG offeredBase _ hordered) ?_ fun _ h => h
  rintro continues dir ⟨hdir, hfound⟩
  refine ⟨hdir, fun h => ?_⟩
  obtain ⟨entry, hentry, record, ⟨row, hrow, hname, rfl⟩, hopen, hbase, hall⟩ := hfound h
  obtain ⟨listed, hlisted, rfl⟩ := mem_listing.mp (mem_reverse.mp hentry)
  obtain rfl := eq_of_name hrow hlisted hname
  refine ⟨row, ⟨hrow, hopen, fun other hother hunresolved => ?_⟩, hbase⟩
  exact hall _ (mem_reverse.mpr (mem_listing.mpr ⟨other, hother, rfl⟩)) _
    ⟨other, hother, rfl, rfl⟩ hunresolved

/-- Both bounds of the directory. -/
def Within (dir : Directory) : Prop :=
  dir.rows.length ≤ EVIDENCE_MAX_RECORDS ∧
    (dir.rows.map Row.bytes).sum ≤ EVIDENCE_MAX_TOTAL_BYTES

theorem admit_leads (hG : G start) (size : UpdateEvidence → ℕ) (evidence : UpdateEvidence) :
    Leads start (admitWrite size evidence false start.listing) (fun _ dir => dir = start ∧
      ((∀ name, Within (start.replace name (size evidence) evidence)) ∨
        Continues start evidence.offeredBase)) G := by
  unfold admitWrite
  rw [if_neg Bool.false_ne_true]
  split
  · refine Leads.bind (continuesUnresolved_leads hG _) ?_
    rintro continues start ⟨rfl, hcontinues⟩
    cases continues with
    | true => exact Leads.ret ⟨rfl, Or.inr (hcontinues rfl)⟩
    | false => exact Leads.fail hG
  · next hroom =>
    refine Leads.ret ⟨rfl, Or.inl fun name => ?_⟩
    have htotal : totalBytes start.listing = (start.rows.map Row.bytes).sum := by
      rw [totalBytes, listing, map_map]
      rfl
    rw [htotal, listing, length_map] at hroom
    have hrows : (start.remove name).rows.Sublist start.rows := filter_sublist
    have hlength := hrows.length_le
    have hsum := (hrows.map Row.bytes).sum_le_sum fun _ _ => Nat.zero_le _
    constructor
    · rw [Directory.replace, length_append, length_singleton]
      omega
    · rw [Directory.replace, map_append, sum_append, map_singleton, sum_singleton]
      dsimp only
      omega

/-! ## Writing -/

/-- What a write leaves: a retained directory, with the attempt's own record as the newest where the
write has landed. -/
def Written (size : UpdateEvidence → ℕ) (evidence : UpdateEvidence) (before after : Directory) :
    Prop :=
  ∃ dir name, Retained (NewestSuccess before) before dir ∧ name.stem = evidence.attemptId ∧
    after = dir.replace name (size evidence) evidence

theorem recordName_stem {attemptId : String} {name : RecordName}
    (h : recordName attemptId = .ok name) : name.stem = attemptId := by
  unfold recordName at h
  split at h
  · injection h with h
    rw [← h]
  · cases h

theorem Retained.continues {offeredBase : Option ℕ} (h : Retained spared before after)
    (hcontinues : Continues after offeredBase) : Continues before offeredBase := by
  obtain ⟨row, ⟨hrow, hopen, hnewest⟩, hbase⟩ := hcontinues
  refine ⟨row, ⟨h.pruned.rows hrow, hopen, fun other hother hunresolved => ?_⟩, hbase⟩
  exact hnewest other (h.pruned.unresolved hother hunresolved) hunresolved

theorem write_leads (size : UpdateEvidence → ℕ) (evidence : UpdateEvidence) :
    Leads start (write size evidence)
      (fun _ dir => Written size evidence start dir ∧
        ((∀ row ∈ start.rows, row.name.stem ≠ evidence.attemptId) →
          Within dir ∨ Continues start evidence.offeredBase))
      (fun dir => Retained (NewestSuccess start) start dir ∨ Written size evidence start dir) := by
  refine Leads.bind (Q := fun _ dir => dir = start)
    (Leads.ofExcept (fun _ _ => rfl) (Or.inl Retained.refl)) ?_
  rintro _ start rfl
  refine Leads.bind (Q := fun _ dir => dir = start)
    (Leads.ofExcept (fun _ _ => rfl) (Or.inl Retained.refl)) ?_
  rintro _ start rfl
  refine Leads.bind (Q := fun name dir => dir = start ∧ name.stem = evidence.attemptId)
    (Leads.ofExcept (fun _ h => ⟨rfl, recordName_stem h⟩) (Or.inl Retained.refl)) ?_
  rintro name start ⟨rfl, hname⟩
  refine Leads.bind (stored_leads (Or.inl Retained.refl)) ?_
  rintro _ start ⟨rfl, rfl⟩
  refine Leads.bind (Leads.imp pruneTo_leads (fun _ _ h => h) fun _ => Or.inl) ?_
  intro _ dir hretained
  refine Leads.bind (stored_leads (Or.inl hretained)) ?_
  rintro _ dir ⟨rfl, rfl⟩
  have hadmitted : Leads dir
      (admitWrite size evidence (start.listing.any (·.name = name)) dir.listing)
      (fun _ after => after = dir ∧ ((∀ row ∈ start.rows, row.name ≠ name) →
        (∀ name, Within (dir.replace name (size evidence) evidence)) ∨
          Continues start evidence.offeredBase))
      (fun after => Retained (NewestSuccess start) start after ∨
        Written size evidence start after) := by
    cases hreplacing : start.listing.any (·.name = name) with
    | true =>
      refine Leads.ret ⟨rfl, fun hnew => ?_⟩
      obtain ⟨entry, hentry, hsame⟩ := any_eq_true.mp hreplacing
      obtain ⟨row, hrow, rfl⟩ := mem_listing.mp hentry
      exact absurd (of_decide_eq_true hsame) (hnew row hrow)
    | false =>
      refine Leads.imp (admit_leads (Or.inl hretained) size evidence) ?_ fun _ h => h
      rintro _ after ⟨hafter, hroom⟩
      exact ⟨hafter, fun _ => hroom.imp_right hretained.continues⟩
  refine Leads.bind hadmitted ?_
  rintro _ dir ⟨rfl, hroom⟩
  have hwritten : Written size evidence start (dir.replace name (size evidence) evidence) :=
    ⟨dir, name, hretained, hname, rfl⟩
  refine Leads.bind (Q := fun _ after => after = dir.replace name (size evidence) evidence)
    (Leads.effect rfl (Or.inl hretained) (Or.inr hwritten)) ?_
  rintro _ _ rfl
  refine Leads.ret ⟨hwritten, fun hnew => ?_⟩
  have hother : ∀ row ∈ start.rows, row.name ≠ name :=
    fun row hrow hsame => hnew row hrow (hsame ▸ hname)
  exact (hroom hother).imp_left fun h => h name

/-! ## Settling -/

/-- A row stays, or it is older than the success and is marked as resolved. -/
structure Rewrites (newest row row' : Row) : Prop where
  name : row'.name = row.name
  how : row' = row ∨ row.written < newest.written ∧ row.record.resolved = false ∧
    row'.record = { row.record with resolved := true }

variable {newest : Row}

theorem Rewrites.refl {row : Row} : Rewrites newest row row := ⟨rfl, Or.inl rfl⟩

theorem Rewrites.trans {row row' row'' : Row} (h : Rewrites newest row row')
    (h' : Rewrites newest row' row'') : Rewrites newest row row'' := by
  refine ⟨h'.name.trans h.name, ?_⟩
  rcases h.how with rfl | ⟨hwritten, hopen, hrecord⟩
  · exact h'.how
  · rcases h'.how with rfl | ⟨_, hopen', _⟩
    · exact Or.inr ⟨hwritten, hopen, hrecord⟩
    · rw [hrecord] at hopen'
      cases hopen'

theorem Rewrites.failure {row row' : Row} (h : Rewrites newest row row') :
    row'.record.firstFailure = row.record.firstFailure := by
  rcases h.how with rfl | ⟨_, _, hrecord⟩
  · rfl
  · rw [hrecord]

/-- The rows of one directory are rewritten into those of the next. -/
structure Settles (newest : Row) (before after : Directory) : Prop where
  forth : ∀ row ∈ before.rows, ∃ row' ∈ after.rows, Rewrites newest row row'
  back : ∀ row' ∈ after.rows, ∃ row ∈ before.rows, Rewrites newest row row'

theorem Settles.refl : Settles newest dir dir :=
  ⟨fun row h => ⟨row, h, Rewrites.refl⟩, fun row h => ⟨row, h, Rewrites.refl⟩⟩

theorem Settles.trans (h : Settles newest before dir) (h' : Settles newest dir after) :
    Settles newest before after := by
  constructor
  · intro row hrow
    obtain ⟨row', hrow', hfirst⟩ := h.forth row hrow
    obtain ⟨row'', hrow'', hsecond⟩ := h'.forth row' hrow'
    exact ⟨row'', hrow'', hfirst.trans hsecond⟩
  · intro row'' hrow''
    obtain ⟨row', hrow', hsecond⟩ := h'.back row'' hrow''
    obtain ⟨row, hrow, hfirst⟩ := h.back row' hrow'
    exact ⟨row, hrow, hfirst.trans hsecond⟩

theorem Settles.keeps_success (h : Settles newest before after) (hnewest : newest ∈ before.rows) :
    newest ∈ after.rows := by
  obtain ⟨row', hrow', hrewrites⟩ := h.forth newest hnewest
  rcases hrewrites.how with rfl | ⟨hwritten, _⟩
  · exact hrow'
  · exact absurd hwritten (Nat.lt_irrefl _)

theorem Settles.replace {row : Row} (hrow : row ∈ start.rows) (hopen : row.record.resolved = false)
    (hwritten : row.written < newest.written) (bytes : ℕ) :
    Settles newest start
      (start.replace row.name bytes { row.record with resolved := true }) := by
  have hnew : Rewrites newest row
      ⟨row.name, start.clock, bytes, { row.record with resolved := true }⟩ :=
    ⟨rfl, Or.inr ⟨hwritten, hopen, rfl⟩⟩
  constructor
  · intro other hother
    by_cases hname : other.name = row.name
    · obtain rfl := eq_of_name hother hrow hname
      exact ⟨_, mem_replace.mpr (Or.inr rfl), hnew⟩
    · exact ⟨other, mem_replace.mpr (Or.inl ⟨hother, hname⟩), Rewrites.refl⟩
  · intro other hother
    rcases mem_replace.mp hother with ⟨hother, _⟩ | rfl
    · exact ⟨other, hother, Rewrites.refl⟩
    · exact ⟨row, hrow, hnew⟩

theorem settleEntries_leads (size : UpdateEvidence → ℕ) (walk : List Stored)
    (settled : List RecordName) (decoded : ℕ) (start : Directory)
    (hnames : (walk.map Stored.name).Nodup)
    (holder : ∀ entry ∈ walk, ∀ row ∈ start.rows, row.name = entry.name →
      row.written < newest.written) :
    Leads start (settleEntries size walk settled decoded)
      (fun answer dir => Settles newest start dir ∧ settled ⊆ answer.1 ∧
        ∀ entry ∈ walk, ∀ record, Holds start entry.name record → record.resolved = false →
          entry.name ∈ answer.1)
      (Settles newest start) := by
  induction walk generalizing settled decoded start with
  | nil => exact Leads.ret ⟨Settles.refl, List.Subset.refl _, fun _ h => (nomatch h)⟩
  | cons head newer ih =>
    rw [map_cons, nodup_cons] at hnames
    obtain ⟨hhead, hnewer⟩ := forall_mem_cons.mp holder
    refine read_bind Settles.refl fun record hholds => ?_
    cases hresolved : record.resolved with
    | true =>
      refine Leads.imp (ih settled (decoded + 1) start hnames.2 hnewer) ?_ fun _ h => h
      rintro answer dir ⟨hsettles, hsub, hcover⟩
      refine ⟨hsettles, hsub, forall_mem_cons.mpr ⟨?_, hcover⟩⟩
      intro record' hholds' hopen
      rw [hholds'.unique hholds, hresolved] at hopen
      cases hopen
    | false =>
      obtain ⟨row, hrow, hname, rfl⟩ := hholds
      have hrewritten : Settles newest start
          (start.replace head.name (size { row.record with resolved := true })
            { row.record with resolved := true }) :=
        hname ▸ Settles.replace hrow hresolved (hhead row hrow hname) _
      refine Leads.bind (Q := fun _ dir => dir = start.replace head.name
        (size { row.record with resolved := true }) { row.record with resolved := true })
        (Leads.effect rfl Settles.refl hrewritten) ?_
      rintro _ _ rfl
      -- the entries that are left name other rows, which the replacement has not touched
      have hother : ∀ entry ∈ newer, entry.name ≠ head.name := by
        intro entry hentry hsame
        exact hnames.1 (hsame ▸ mem_map_of_mem hentry)
      refine Leads.imp (ih (settled ++ [head.name]) (decoded + 1) _ hnames.2 ?_) ?_
        fun _ h => hrewritten.trans h
      · intro entry hentry other hother' hsame
        rcases mem_replace.mp hother' with ⟨hold, _⟩ | rfl
        · exact hnewer entry hentry other hold hsame
        · exact absurd hsame.symm (hother entry hentry)
      · rintro answer dir ⟨hsettles, hsub, hcover⟩
        have hsettled : head.name ∈ answer.1 := hsub (by simp)
        refine ⟨hrewritten.trans hsettles, fun name h => hsub (mem_append_left _ h),
          forall_mem_cons.mpr ⟨fun _ _ _ => hsettled, ?_⟩⟩
        rintro entry hentry record ⟨held, hheld, hheldname, hrecord⟩ hopen
        refine hcover entry hentry record ⟨held, ?_, hheldname, hrecord⟩ hopen
        exact mem_replace.mpr (Or.inl ⟨hheld, hheldname ▸ hother entry hentry⟩)

/-- What a settlement leaves: the rows of a directory in which it has rewritten those older than the
newest success, less some that neither it nor retention spares. -/
structure SettledBy (newest : Row) (before after : Directory) : Prop where
  isNewest : before.IsNewest Succeeded newest
  kept : newest ∈ after.rows
  back : ∀ row' ∈ after.rows, ∃ row ∈ before.rows, Rewrites newest row row'
  unresolved : ∀ row ∈ before.rows, row.record.resolved = false →
    ∃ row' ∈ after.rows, row'.name = row.name
  causes : CausesKept before after

theorem Settles.causes (h : Settles newest before after) : CausesKept before after := by
  rintro cause ⟨row, hrow, hcause⟩
  obtain ⟨row', hrow', hrewrites⟩ := h.forth row hrow
  exact ⟨row', hrow', hrewrites.failure.trans hcause⟩

theorem Settles.settledBy (h : Settles newest before after)
    (hnewest : before.IsNewest Succeeded newest) : SettledBy newest before after where
  isNewest := hnewest
  kept := h.keeps_success hnewest.stored
  back := h.back
  unresolved row hrow _ := by
    obtain ⟨row', hrow', hrewrites⟩ := h.forth row hrow
    exact ⟨row', hrow', hrewrites.name⟩
  causes := h.causes

theorem Settles.pruned (h : Settles newest before dir)
    (hnewest : before.IsNewest Succeeded newest)
    (hsettled : ∀ row ∈ before.rows, row.written < newest.written → row.record.resolved = false →
      spared row.name)
    (hspared : spared newest.name) (hretained : Retained spared dir after) :
    SettledBy newest before after where
  isNewest := hnewest
  kept := hretained.pruned.spares (h.keeps_success hnewest.stored) hspared
  back row' hrow' := h.back row' (hretained.pruned.rows hrow')
  unresolved row hrow hopen := by
    obtain ⟨row', hrow', hrewrites⟩ := h.forth row hrow
    by_cases holder : row.written < newest.written
    · refine ⟨row', hretained.pruned.spares hrow' ?_, hrewrites.name⟩
      rw [hrewrites.name]
      exact hsettled row hrow holder hopen
    · rcases hrewrites.how with rfl | ⟨hwritten, _⟩
      · by_cases hsuccess : Succeeded row'.record
        · have hsame := eq_of_written hrow hnewest.stored
            (Nat.le_antisymm (hnewest.newest row' hrow hsuccess) (Nat.le_of_not_lt holder))
          rw [hsame]
          exact ⟨newest, hretained.pruned.spares (h.keeps_success hnewest.stored) hspared, rfl⟩
        · exact ⟨row', hretained.pruned.unresolved hrow' ⟨hopen, hsuccess⟩, rfl⟩
      · exact absurd hwritten holder
  causes cause hcause := hretained.causes cause (h.causes cause hcause)

theorem settleSuccess_leads (size : UpdateEvidence → ℕ) :
    Leads start (settleSuccess size)
      (fun _ dir => dir = start ∨ ∃ newest, SettledBy newest start dir)
      (fun dir => dir = start ∨ ∃ newest, SettledBy newest start dir) := by
  refine Leads.bind (stored_leads (Or.inl rfl)) ?_
  rintro entries start ⟨rfl, rfl⟩
  refine Leads.bind (newestSuccess_leads (Or.inl rfl)) ?_
  rintro ⟨success, decoded⟩ start ⟨rfl, hsuccess : SuccessAt start success⟩
  cases success with
  | none => exact Leads.ret (Or.inl rfl)
  | some index =>
    have hspares : ∀ settled name, NewestSuccess start name →
        Spared start.listing (some index) settled [] name := fun _ _ h => hsuccess.is_spared h
    obtain ⟨older, newest, newer, hrows, rfl, hnewest⟩ := hsuccess
    have htake : start.listing.take older.length =
        older.map fun row => (⟨row.name, row.written, row.bytes⟩ : Stored) := by
      rw [listing, hrows, map_append, take_left' (length_map _)]
    have hordered := start.ordered
    rw [hrows, pairwise_append] at hordered
    have holder : ∀ entry ∈ start.listing.take older.length, ∀ row ∈ start.rows,
        row.name = entry.name → row.written < newest.written := by
      intro entry hentry row hrow hname
      rw [htake] at hentry
      obtain ⟨listed, hlisted, rfl⟩ := mem_map.mp hentry
      obtain rfl := eq_of_name hrow (by simp [hrows, hlisted]) hname
      exact hordered.2.2 row hlisted newest mem_cons_self
    refine Leads.bind (Leads.imp (settleEntries_leads size _ [] decoded start
      (listing_names.sublist ((take_sublist _ _).map _)) holder) (fun _ _ h => h)
      fun _ h => Or.inr ⟨newest, h.settledBy hnewest⟩) ?_
    rintro ⟨settled, decoded'⟩ dir ⟨hsettles, -, hcover⟩
    have hsettled : ∀ row ∈ start.rows, row.written < newest.written →
        row.record.resolved = false →
          Spared start.listing (some older.length) settled [] row.name := by
      intro row hrow hwritten hopen
      refine Or.inr (Or.inl (hcover ⟨row.name, row.written, row.bytes⟩ ?_ row.record
        ⟨row, hrow, rfl, rfl⟩ hopen))
      rw [htake]
      refine mem_map_of_mem ?_
      rw [hrows, mem_append, mem_cons] at hrow
      rcases hrow with hrow | rfl | hrow
      · exact hrow
      · exact absurd hwritten (Nat.lt_irrefl _)
      · have := (pairwise_cons.mp hordered.2.1).1 row hrow
        omega
    have hend : ∀ after, Retained (Spared start.listing (some older.length) settled []) dir after →
        after = start ∨ ∃ newest, SettledBy newest start after := fun after h =>
      Or.inr ⟨newest, Settles.pruned hsettles hnewest hsettled
        (hspares settled _ ⟨newest, hnewest, rfl⟩) h⟩
    have hnamed : ∀ row ∈ dir.rows, ∃ entry ∈ start.listing, entry.name = row.name := by
      intro row' hrow'
      obtain ⟨row, hrow, hrewrites⟩ := hsettles.back row' hrow'
      exact ⟨_, mem_listing.mpr ⟨row, hrow, rfl⟩, hrewrites.name.symm⟩
    refine Leads.bind (Leads.imp (pruneStored_leads listing_names hnamed)
      (fun _ => hend) hend) ?_
    exact fun _ _ h => Leads.ret h

end EvidenceStore

open EvidenceStore

/-! ## Histories of calls -/

/-- The record of an attempt as its owner writes it: only a settlement marks one as resolved. -/
structure Attempt where
  evidence : UpdateEvidence
  unsettled : evidence.resolved = false

inductive Call where
  | write (attempt : Attempt)
  | settleSuccess
  | prune

/-- A call and how its effects turn out. -/
structure Occasion where
  call : Call
  turns : ℕ → Turn

variable (size : UpdateEvidence → ℕ)

def Call.program : Call → Prog Directory UpdateError Unit
  | .write attempt => do
    let _ ← EvidenceStore.write size attempt.evidence
    pure ()
  | .settleSuccess => do
    let _ ← EvidenceStore.settleSuccess size
    pure ()
  | .prune => do
    let _ ← EvidenceStore.prune
    pure ()

def Occasion.run (occasion : Occasion) (dir : Directory) : Ending UpdateError Unit × Directory :=
  let ended := occasion.call.program size occasion.turns (0, dir)
  (ended.1, ended.2.2)

def play : Directory → List Occasion → Directory
  | dir, [] => dir
  | dir, occasion :: later => play (occasion.run size dir).2 later

/-- A write of the same attempt has put its record in the place of the row. -/
def Overwritten (call : Call) (after : Directory) (row : Row) : Prop :=
  ∃ attempt, call = .write attempt ∧ row.name.stem = attempt.evidence.attemptId ∧
    Holds after row.name attempt.evidence

/-- What a call keeps, however it ends. -/
structure Keeps (call : Call) (before after : Directory) : Prop where
  unresolved : ∀ row ∈ before.rows, row.record.Unresolved →
    ∃ row' ∈ after.rows, row'.name = row.name
  causes : ∀ row ∈ before.rows, ∀ cause, row.record.firstFailure = some cause →
    Carried after cause ∨ ∃ holder ∈ before.rows, holder.record.firstFailure = some cause ∧
      Overwritten call after holder
  newestSuccess : ∀ row, before.IsNewest Succeeded row →
    row ∈ after.rows ∨ Overwritten call after row
  settled : call = .settleSuccess → ∀ row ∈ before.rows, row.record.resolved = false →
    ∃ row' ∈ after.rows, row'.name = row.name
  resolved : ∀ row' ∈ after.rows, row'.record.resolved = true →
    ∃ row ∈ before.rows, row.name = row'.name ∧ (row.record.resolved = true ∨
      call = .settleSuccess ∧ ∃ success ∈ before.rows, Succeeded success.record ∧
        row.written < success.written ∧ success ∈ after.rows)

/-- A write of a new attempt that answers ends within the bounds, or repeats the base that the
newest unresolved record was offered. -/
def Bounded (call : Call) (before after : Directory) : Prop :=
  ∀ attempt, call = .write attempt →
    (∀ row ∈ before.rows, row.name.stem ≠ attempt.evidence.attemptId) →
      EvidenceStore.Within after ∨ Continues before attempt.evidence.offeredBase

theorem Bounded.of_no_write {call : Call} (h : ∀ attempt, call ≠ .write attempt) :
    Bounded call before after := fun attempt hcall => absurd hcall (h attempt)

theorem Keeps.of_retained {call : Call} (h : Retained (NewestSuccess before) before after)
    (hcall : call ≠ .settleSuccess) : Keeps call before after where
  unresolved row hrow hopen := ⟨row, h.pruned.unresolved hrow hopen, rfl⟩
  causes row hrow cause hcause := Or.inl (h.causes cause ⟨row, hrow, hcause⟩)
  newestSuccess row hnewest := Or.inl (h.pruned.spares hnewest.stored ⟨row, hnewest, rfl⟩)
  settled hsettle := absurd hsettle hcall
  resolved row hrow hresolved := ⟨row, h.pruned.rows hrow, rfl, Or.inl hresolved⟩

variable {size}

theorem Keeps.of_written {attempt : Attempt} (h : Written size attempt.evidence before after) :
    Keeps (.write attempt) before after := by
  obtain ⟨dir, name, hretained, hname, rfl⟩ := h
  have hown : Holds (dir.replace name (size attempt.evidence) attempt.evidence) name
      attempt.evidence := ⟨_, mem_replace.mpr (Or.inr rfl), rfl, rfl⟩
  have hover : ∀ row : Row, row.name = name → Overwritten (.write attempt)
      (dir.replace name (size attempt.evidence) attempt.evidence) row :=
    fun row hsame => ⟨attempt, rfl, hsame ▸ hname, hsame ▸ hown⟩
  have hkept : ∀ row ∈ dir.rows, row.name ≠ name →
      row ∈ (dir.replace name (size attempt.evidence) attempt.evidence).rows :=
    fun row hrow hne => mem_replace.mpr (Or.inl ⟨hrow, hne⟩)
  constructor
  · intro row hrow hopen
    by_cases hsame : row.name = name
    · exact ⟨_, mem_replace.mpr (Or.inr rfl), hsame.symm⟩
    · exact ⟨row, hkept row (hretained.pruned.unresolved hrow hopen) hsame, rfl⟩
  · intro row hrow cause hcause
    obtain ⟨carrier, hcarrier, hcarried⟩ := hretained.causes cause ⟨row, hrow, hcause⟩
    by_cases hsame : carrier.name = name
    · exact Or.inr ⟨carrier, hretained.pruned.rows hcarrier, hcarried, hover carrier hsame⟩
    · exact Or.inl ⟨carrier, hkept carrier hcarrier hsame, hcarried⟩
  · intro row hnewest
    by_cases hsame : row.name = name
    · exact Or.inr (hover row hsame)
    · exact Or.inl (hkept row (hretained.pruned.spares hnewest.stored ⟨row, hnewest, rfl⟩) hsame)
  · intro hsettle
    cases hsettle
  · intro row hrow hresolved
    rcases mem_replace.mp hrow with ⟨hrow, _⟩ | rfl
    · exact ⟨row, hretained.pruned.rows hrow, rfl, Or.inl hresolved⟩
    · rw [attempt.unsettled] at hresolved
      cases hresolved

theorem Keeps.of_settled {newest : Row} (h : SettledBy newest before after) :
    Keeps .settleSuccess before after where
  unresolved row hrow hopen := h.unresolved row hrow hopen.1
  causes row hrow cause hcause := Or.inl (h.causes cause ⟨row, hrow, hcause⟩)
  newestSuccess row hnewest := Or.inl (hnewest.unique h.isNewest ▸ h.kept)
  settled _ := h.unresolved
  resolved row' hrow' hresolved := by
    obtain ⟨row, hrow, hrewrites⟩ := h.back row' hrow'
    refine ⟨row, hrow, hrewrites.name.symm, ?_⟩
    rcases hrewrites.how with rfl | ⟨hwritten, _, _⟩
    · exact Or.inl hresolved
    · exact Or.inr ⟨rfl, newest, h.isNewest.stored, h.isNewest.has, hwritten, h.kept⟩

/-- One call from any directory, and any turns of its effects. -/
theorem Call.program_leads (size : UpdateEvidence → ℕ) (call : Call) :
    Leads start (call.program size)
      (fun _ dir => Keeps call start dir ∧ Bounded call start dir) (Keeps call start) := by
  cases call with
  | write attempt =>
    refine Leads.bind
      (Leads.imp (write_leads size attempt.evidence) (fun _ _ h => h) ?_) ?_
    · rintro dir (h | h)
      · exact Keeps.of_retained h nofun
      · exact Keeps.of_written h
    · rintro _ dir ⟨hwritten, hbounded⟩
      refine Leads.ret ⟨Keeps.of_written hwritten, fun attempt' h => ?_⟩
      injection h with h
      rw [← h]
      exact hbounded
  | settleSuccess =>
    have hkeeps : ∀ dir, (dir = start ∨ ∃ newest, SettledBy newest start dir) →
        Keeps .settleSuccess start dir := by
      rintro dir (rfl | ⟨newest, h⟩)
      · refine ⟨fun row h _ => ⟨row, h, rfl⟩, fun row h cause hcause => Or.inl ⟨row, h, hcause⟩,
          fun row h => Or.inl h.stored, fun _ row h _ => ⟨row, h, rfl⟩,
          fun row h hresolved => ⟨row, h, rfl, Or.inl hresolved⟩⟩
      · exact Keeps.of_settled h
    refine Leads.bind (Leads.imp (settleSuccess_leads size) (fun _ _ h => h) hkeeps) ?_
    exact fun _ dir h => Leads.ret ⟨hkeeps dir h, Bounded.of_no_write fun _ => nofun⟩
  | prune =>
    have hkeeps : ∀ dir, Retained (NewestSuccess start) start dir → Keeps .prune start dir :=
      fun dir h => Keeps.of_retained h nofun
    refine Leads.bind (Leads.imp prune_leads (fun _ => hkeeps) hkeeps) ?_
    exact fun _ dir h => Leads.ret ⟨h, Bounded.of_no_write fun _ => nofun⟩

/-- One call on any directory, under any turns of its effects. -/
theorem Occasion.keeps (size : UpdateEvidence → ℕ) (occasion : Occasion) (dir : Directory) :
    Keeps occasion.call dir (occasion.run size dir).2 ∧
      ((occasion.run size dir).1 = .ok () →
        Bounded occasion.call dir (occasion.run size dir).2) := by
  have h := occasion.call.program_leads size occasion.turns 0 dir rfl
  unfold Occasion.run
  rcases hend : occasion.call.program size occasion.turns (0, dir) with ⟨_ | e | _, n, after⟩
  · rw [hend] at h
    exact ⟨h.1, fun _ => h.2⟩
  · rw [hend] at h
    exact ⟨h, nofun⟩
  · rw [hend] at h
    exact ⟨h, nofun⟩

/-- At every call of every history the directory keeps what it must, and a write that answers ends
within the bounds or repeats the base of the newest unresolved record. -/
theorem history_retains (size : UpdateEvidence → ℕ) (start : Directory) (earlier : List Occasion)
    (occasion : Occasion) :
    Keeps occasion.call (play size start earlier)
        (occasion.run size (play size start earlier)).2 ∧
      ((occasion.run size (play size start earlier)).1 = .ok () →
        Bounded occasion.call (play size start earlier)
          (occasion.run size (play size start earlier)).2) :=
  occasion.keeps size (play size start earlier)

end Rivect.Update
