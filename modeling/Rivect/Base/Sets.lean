import Rivect.Base.Judged
import Rivect.Lib.Editions

/-! # Blocker sets

A base with its epoch and its addresses is an edition of `Rivect.Lib.Editions`, and every operation of
the ledger writes to that shelf. A reader who follows cursors therefore pages through one set, or is
refused.
-/

namespace Rivect.Base

open Lib Learning Relation List
open Within (skip ok_iff)

variable {ledger ledger' : Ledger} {texts : List String} {ops : List LedgerOp} {version epoch : ℕ}

namespace Ledger

/-- The sealed sets of a ledger. -/
def shelf (ledger : Ledger) : Shelf ℕ (List String) :=
  ⟨ledger.rows.filterMap fun row => row.setEpoch.map fun epoch =>
    ⟨row.version, epoch, ledger.addresses row.version⟩, ledger.nextEpoch⟩

theorem mem_shelf {a : Edition ℕ (List String)} :
    a ∈ ledger.shelf.editions ↔ ∃ row ∈ ledger.rows, row.setEpoch = some a.epoch ∧
      row.version = a.key ∧ ledger.addresses row.version = a.content := by
  unfold shelf
  rw [mem_filterMap]
  constructor
  · rintro ⟨row, hrow, hmap⟩
    obtain ⟨epoch, hepoch, rfl⟩ := Option.map_eq_some_iff.mp hmap
    exact ⟨row, hrow, hepoch, rfl, rfl⟩
  · rintro ⟨row, hrow, hepoch, hversion, hcontent⟩
    refine ⟨row, hrow, ?_⟩
    rw [hepoch, hcontent, hversion]
    rfl

theorem mem_shelf_of_row {row : BaseRow} (hrow : row ∈ ledger.rows)
    (hepoch : row.setEpoch = some epoch) :
    ⟨row.version, epoch, ledger.addresses row.version⟩ ∈ ledger.shelf.editions :=
  mem_shelf.mpr ⟨row, hrow, hepoch, rfl, rfl⟩

/-! ## The addresses of one base -/

theorem mem_addresses {address : String} :
    address ∈ ledger.addresses version ↔ ⟨version, address⟩ ∈ ledger.blockers := by
  unfold addresses
  rw [mem_mergeSort, mem_map]
  constructor
  · rintro ⟨⟨v, a⟩, hblocker, rfl⟩
    rw [mem_filter] at hblocker
    obtain rfl : v = version := by simpa using hblocker.2
    exact hblocker.1
  · intro h
    exact ⟨_, mem_filter.mpr ⟨h, by simp⟩, rfl⟩

theorem sorted_mergeSort (texts : List String) : (texts.mergeSort (· ≤ ·)).Pairwise (· ≤ ·) := by
  have := @pairwise_mergeSort _ (fun a b : String => decide (a ≤ b))
    (fun a b c hab hbc => by simpa using le_trans (of_decide_eq_true hab) (of_decide_eq_true hbc))
    (fun a b => by simpa using le_total a b) texts
  exact this.imp fun h => of_decide_eq_true h

theorem mergeSort_of_sorted (h : texts.Pairwise (· ≤ ·)) :
    texts.mergeSort (· ≤ ·) = texts :=
  mergeSort_of_pairwise (h.imp fun hle => decide_eq_true hle)

/-- The set of a base is in byte order, each address once. -/
theorem addresses_pairwise (h : ledger.blockers.Nodup) (version : ℕ) :
    (ledger.addresses version).Pairwise (· < ·) := by
  have hnodup : (ledger.addresses version).Nodup := by
    refine (mergeSort_perm _ _).nodup_iff.mpr ?_
    refine Nodup.map_on ?_ (h.filter _)
    rintro ⟨v, a⟩ hx ⟨w, b⟩ hy rfl
    have hv : v = version := by simpa using (mem_filter.mp hx).2
    have hw : w = version := by simpa using (mem_filter.mp hy).2
    rw [hv, hw]
  exact (sorted_mergeSort _).imp₂ (fun _ _ hle hne => lt_of_le_of_ne hle hne) hnodup

/-- The addresses of a base do not depend on the blockers of another. -/
theorem addresses_congr (h : ledger'.blockers.filter (·.version = version) =
      ledger.blockers.filter (·.version = version)) :
    ledger'.addresses version = ledger.addresses version := by
  unfold addresses
  rw [h]

theorem addresses_kept {p : ℕ → Bool}
    (hblockers : ledger'.blockers = ledger.blockers.filter fun blocker => p blocker.version)
    (hkept : p version = true) : ledger'.addresses version = ledger.addresses version := by
  apply addresses_congr
  rw [hblockers, filter_filter]
  apply filter_congr
  intro blocker _
  by_cases h : blocker.version = version <;> simp [h, hkept]

theorem foldl_insertBlocker (hnodup : texts.Nodup)
    {blockers : List Blocker} (hnew : ∀ a ∈ texts, ⟨version, a⟩ ∉ blockers) :
    texts.foldl (insertBlocker version) blockers = blockers ++ texts.map (Blocker.mk version) := by
  induction texts generalizing blockers with
  | nil => simp
  | cons a texts ih =>
    obtain ⟨ha, hrest⟩ := nodup_cons.mp hnodup
    rw [foldl_cons, insertBlocker, if_neg (hnew a mem_cons_self), ih hrest]
    · simp
    · intro b hb hmem
      rcases mem_append.mp hmem with hmem | hmem
      · exact hnew b (mem_cons_of_mem a hb) hmem
      · rw [mem_singleton] at hmem
        cases hmem
        exact ha hb

/-! ## The invariant -/

/-- A row names the set it was sealed with, and carries the milestone of its state. -/
structure RowSealed (ledger : Ledger) (row : BaseRow) : Prop where
  storable : row.version < 2 ^ 63
  epoch : row.setEpoch.isSome = true
  counted : row.blockerCount = some (ledger.addresses row.version).length
  countable : (ledger.addresses row.version).length < 2 ^ 63
  policy : ∀ policy ∈ row.policyGeneration, policyGenerationShape policy = true
  milestone : milestoneShape row

/-- Every row and every address is sealed, and the sets are in order on their shelf. -/
structure Sealed (ledger : Ledger) : Prop where
  orderly : ledger.shelf.Orderly
  issuable : ledger.nextEpoch < 2 ^ 63
  owned : ∀ blocker ∈ ledger.blockers, ∃ row ∈ ledger.rows, row.version = blocker.version
  nodup : ledger.blockers.Nodup
  rows : ∀ row ∈ ledger.rows, RowSealed ledger row

theorem sealed_fresh (schemaGeneration : ℕ) : (fresh schemaGeneration).Sealed := by
  refine ⟨⟨?_, ?_⟩, Nat.two_pow_pos 63, ?_, .nil, ?_⟩ <;> simp [fresh, shelf]

/-- What a write leaves: a sealed ledger, whose shelf only saw writes. -/
structure Publishes (ledger ledger' : Ledger) : Prop where
  kept : ledger'.Sealed
  writes : ReflTransGen Shelf.Write ledger.shelf ledger'.shelf

theorem Publishes.refl (h : ledger.Sealed) : Publishes ledger ledger := ⟨h, .refl⟩

theorem Publishes.trans {a b c : Ledger} (h : Publishes a b) (h' : Publishes b c) :
    Publishes a c := ⟨h'.kept, h.writes.trans h'.writes⟩

theorem Sealed.publishes (h : ledger.Sealed)
    (hwrite : Shelf.Write ledger.shelf ledger'.shelf) (hissuable : ledger'.nextEpoch < 2 ^ 63)
    (howned : ∀ blocker ∈ ledger'.blockers, ∃ row ∈ ledger'.rows, row.version = blocker.version)
    (hnodup : ledger'.blockers.Nodup) (hrows : ∀ row ∈ ledger'.rows, RowSealed ledger' row) :
    Publishes ledger ledger' :=
  ⟨⟨h.orderly.write hwrite, hissuable, howned, hnodup, hrows⟩, .single hwrite⟩

theorem RowSealed.of_addresses {row : BaseRow} (h : RowSealed ledger row)
    (haddresses : ledger'.addresses row.version = ledger.addresses row.version) :
    RowSealed ledger' row :=
  { h with
    counted := haddresses ▸ h.counted
    countable := haddresses ▸ h.countable }

theorem Sealed.rewrite (h : ledger.Sealed) {f : BaseRow → BaseRow}
    (hrows : ledger'.rows = ledger.rows.map f) (hblockers : ledger'.blockers = ledger.blockers)
    (hnext : ledger.nextEpoch ≤ ledger'.nextEpoch) (hissuable : ledger'.nextEpoch < 2 ^ 63)
    (hversion : ∀ row, (f row).version = row.version)
    (hepoch : ∀ row, (f row).setEpoch = row.setEpoch)
    (hf : ∀ row ∈ ledger.rows, RowSealed ledger row → RowSealed ledger (f row)) :
    Publishes ledger ledger' := by
  have haddresses : ∀ version, ledger'.addresses version = ledger.addresses version := by
    intro version
    unfold addresses
    rw [hblockers]
  refine h.publishes (.keep ?_ hnext) hissuable ?_ (hblockers ▸ h.nodup) ?_
  · intro a ha
    obtain ⟨row, hrow, hset, hkey, hcontent⟩ := mem_shelf.mp ha
    rw [hrows] at hrow
    obtain ⟨held, hheld, rfl⟩ := mem_map.mp hrow
    rw [hversion] at hkey hcontent
    rw [hepoch] at hset
    exact mem_shelf.mpr ⟨held, hheld, hset, hkey, (haddresses _).symm.trans hcontent⟩
  · intro blocker hblocker
    rw [hblockers] at hblocker
    obtain ⟨held, hheld, hkey⟩ := h.owned blocker hblocker
    rw [hrows]
    exact ⟨f held, mem_map_of_mem hheld, (hversion held).trans hkey⟩
  · intro row hrow
    rw [hrows] at hrow
    obtain ⟨held, hheld, rfl⟩ := mem_map.mp hrow
    exact (hf held hheld (h.rows held hheld)).of_addresses (haddresses _)

theorem Sealed.beside (h : ledger.Sealed)
    (hrows : ledger'.rows = ledger.rows) (hblockers : ledger'.blockers = ledger.blockers)
    (hnext : ledger.nextEpoch ≤ ledger'.nextEpoch) (hissuable : ledger'.nextEpoch < 2 ^ 63) :
    Publishes ledger ledger' :=
  h.rewrite (f := id) (by rw [hrows, map_id]) hblockers hnext hissuable (fun _ => rfl)
    (fun _ => rfl) fun _ _ hrow => hrow

theorem Sealed.restrict (h : ledger.Sealed) (p : ℕ → Bool)
    (hrows : ledger'.rows = ledger.rows.filter fun row => p row.version)
    (hblockers : ledger'.blockers = ledger.blockers.filter fun blocker => p blocker.version)
    (hnext : ledger'.nextEpoch = ledger.nextEpoch) : Publishes ledger ledger' := by
  have hkept : ∀ row ∈ ledger'.rows, row ∈ ledger.rows ∧
      ledger'.addresses row.version = ledger.addresses row.version := by
    intro row hrow
    rw [hrows, mem_filter] at hrow
    exact ⟨hrow.1, addresses_kept hblockers hrow.2⟩
  refine h.publishes (.keep ?_ hnext.ge) (hnext ▸ h.issuable) ?_ ?_ ?_
  · intro a ha
    obtain ⟨row, hrow, hset, hkey, hcontent⟩ := mem_shelf.mp ha
    obtain ⟨hheld, haddresses⟩ := hkept row hrow
    exact mem_shelf.mpr ⟨row, hheld, hset, hkey, haddresses.symm.trans hcontent⟩
  · intro blocker hblocker
    rw [hblockers, mem_filter] at hblocker
    obtain ⟨held, hheld, hkey⟩ := h.owned blocker hblocker.1
    rw [hrows]
    exact ⟨held, mem_filter.mpr ⟨hheld, hkey ▸ hblocker.2⟩, hkey⟩
  · rw [hblockers]
    exact h.nodup.filter _
  · intro row hrow
    obtain ⟨hheld, haddresses⟩ := hkept row hrow
    exact (h.rows row hheld).of_addresses haddresses

theorem addresses_of_absent (h : ledger.Sealed)
    (habsent : ∀ row ∈ ledger.rows, row.version ≠ version) : ledger.addresses version = [] := by
  apply eq_nil_iff_forall_not_mem.mpr
  intro address haddress
  obtain ⟨row, hrow, hversion⟩ := h.owned _ (mem_addresses.mp haddress)
  exact habsent row hrow hversion

theorem Sealed.insert (h : ledger.Sealed) {row : BaseRow}
    (hrows : ledger'.rows = ledger.rows ++ [row]) (hblockers : ledger'.blockers = ledger.blockers)
    (hnext : ledger'.nextEpoch = ledger.nextEpoch + 1) (hissuable : ledger.nextEpoch + 1 < 2 ^ 63)
    (hepoch : row.setEpoch = some (ledger.nextEpoch + 1)) (hrow : RowSealed ledger row) :
    Publishes ledger ledger' := by
  have haddresses : ∀ version, ledger'.addresses version = ledger.addresses version := by
    intro version
    unfold addresses
    rw [hblockers]
  refine h.publishes (.issue ⟨row.version, ledger.nextEpoch + 1, ledger'.addresses row.version⟩
    ?_ (Nat.lt_succ_self _) hnext.ge) (hnext ▸ hissuable) ?_ (hblockers ▸ h.nodup) ?_
  · intro a ha
    obtain ⟨held, hheld, hset, hkey, hcontent⟩ := mem_shelf.mp ha
    rw [hrows] at hheld
    rcases mem_append.mp hheld with hheld | hheld
    · right
      exact mem_shelf.mpr ⟨held, hheld, hset, hkey, (haddresses _).symm.trans hcontent⟩
    · left
      rw [mem_singleton] at hheld
      subst hheld
      rw [hepoch] at hset
      obtain ⟨key, epoch, content⟩ := a
      cases hset
      cases hkey
      cases hcontent
      rfl
  · intro blocker hblocker
    rw [hblockers] at hblocker
    obtain ⟨held, hheld, hkey⟩ := h.owned blocker hblocker
    rw [hrows]
    exact ⟨held, mem_append_left _ hheld, hkey⟩
  · intro held hheld
    rw [hrows] at hheld
    rcases mem_append.mp hheld with hheld | hheld
    · exact (h.rows held hheld).of_addresses (haddresses _)
    · rw [mem_singleton.mp hheld]
      exact hrow.of_addresses (haddresses _)

/-! ## Sealing -/

/-- The ledger with the rows of one base mapped and its set replaced. -/
structure Reseals (ledger ledger' : Ledger) (version epoch : ℕ) (texts : List String) : Prop where
  rows : ledger'.rows = ledger.rows.map fun row => if row.version = version then
    { row with setEpoch := some epoch, blockerCount := some texts.length } else row
  blockers : ledger'.blockers = ledger.blockers.filter (·.version ≠ version) ++
    texts.map (Blocker.mk version)
  rotates : epoch = ledger.nextEpoch + 1 ∧ ledger'.nextEpoch = ledger.nextEpoch + 1 ∧
      ledger.nextEpoch + 1 < 2 ^ 63 ∨
    ledger'.nextEpoch = ledger.nextEpoch ∧ texts = ledger.addresses version ∧
      ∀ row ∈ ledger.rows, row.version = version → row.setEpoch = some epoch
  countable : texts.length < 2 ^ 63
  present : texts = [] ∨ ∃ row ∈ ledger.rows, row.version = version

/-- A set that replaced another is read back in byte order. -/
theorem addresses_of_blockers
    (h : ledger'.blockers = ledger.blockers.filter (·.version ≠ version) ++
      texts.map (Blocker.mk version)) (hsorted : texts.Pairwise (· ≤ ·)) :
    ledger'.addresses version = texts := by
  have hfilter : ledger'.blockers.filter (·.version = version) = texts.map (Blocker.mk version) := by
    rw [h, filter_append, filter_filter]
    have hold : (ledger.blockers.filter fun blocker =>
        decide (blocker.version = version) && decide (blocker.version ≠ version)) = [] := by
      apply filter_eq_nil_iff.mpr
      intro blocker _
      by_cases hv : blocker.version = version <;> simp [hv]
    have hnew : (texts.map (Blocker.mk version)).filter (·.version = version) =
        texts.map (Blocker.mk version) := by
      apply filter_eq_self.mpr
      intro blocker hblocker
      obtain ⟨text, -, rfl⟩ := mem_map.mp hblocker
      simp
    rw [hold, hnew, nil_append]
  have hback : (texts.map (Blocker.mk version)).map Blocker.address = texts := by
    rw [List.map_map]
    exact map_id texts
  unfold Ledger.addresses
  rw [hfilter, hback, mergeSort_of_sorted hsorted]

theorem Reseals.addresses
    (h : Reseals ledger ledger' version epoch texts) (hsorted : texts.Pairwise (· ≤ ·)) :
    ledger'.addresses version = texts :=
  addresses_of_blockers h.blockers hsorted

theorem Reseals.addresses_of_ne
    (h : Reseals ledger ledger' version epoch texts) {other : ℕ} (hne : other ≠ version) :
    ledger'.addresses other = ledger.addresses other := by
  apply addresses_congr
  rw [h.blockers, filter_append, filter_filter]
  have hnew : (texts.map (Blocker.mk version)).filter (·.version = other) = [] := by
    apply filter_eq_nil_iff.mpr
    intro blocker hblocker
    obtain ⟨text, -, rfl⟩ := mem_map.mp hblocker
    simpa using hne.symm
  rw [hnew, append_nil]
  apply filter_congr
  intro blocker _
  by_cases hv : blocker.version = other <;> simp [hv, hne]

theorem Sealed.reseal (h : ledger.Sealed) (hreseals : Reseals ledger ledger' version epoch texts)
    (hsorted : texts.Pairwise (· ≤ ·)) (hnodup : texts.Nodup) : Publishes ledger ledger' := by
  have haddresses := hreseals.addresses hsorted
  -- a row is an old one of another version, or the sealed one with its new epoch and count
  have hcases : ∀ row ∈ ledger'.rows,
      (row ∈ ledger.rows ∧ row.version ≠ version) ∨ ∃ held ∈ ledger.rows,
        held.version = version ∧ row =
          { held with setEpoch := some epoch, blockerCount := some texts.length } := by
    intro row hrow
    rw [hreseals.rows] at hrow
    obtain ⟨held, hheld, rfl⟩ := mem_map.mp hrow
    split
    · rename_i hversion
      exact .inr ⟨held, hheld, hversion, rfl⟩
    · rename_i hversion
      exact .inl ⟨hheld, hversion⟩
  have hversions : ∀ held ∈ ledger.rows, ∃ row ∈ ledger'.rows, row.version = held.version := by
    intro held hheld
    rw [hreseals.rows]
    refine ⟨_, mem_map_of_mem hheld, ?_⟩
    split <;> rfl
  refine h.publishes ?_ ?_ ?_ ?_ ?_
  · rcases hreseals.rotates with ⟨hepoch, hnext, -⟩ | ⟨hnext, hsame, hepoch⟩
    · refine .issue ⟨version, epoch, texts⟩ ?_ (hepoch ▸ Nat.lt_succ_self _)
        (hepoch.trans hnext.symm).le
      intro a ha
      obtain ⟨row, hrow, hset, hkey, hcontent⟩ := mem_shelf.mp ha
      rcases hcases row hrow with ⟨hheld, hne⟩ | ⟨held, hheld, hversion, rfl⟩
      · right
        exact mem_shelf.mpr
          ⟨row, hheld, hset, hkey, (hreseals.addresses_of_ne hne).symm.trans hcontent⟩
      · left
        obtain ⟨key, e, content⟩ := a
        dsimp only at hset hkey hcontent
        rw [hversion] at hkey hcontent
        cases hset
        rw [← hkey, ← hcontent, haddresses]
    · refine .keep ?_ hnext.ge
      intro a ha
      obtain ⟨row, hrow, hset, hkey, hcontent⟩ := mem_shelf.mp ha
      rcases hcases row hrow with ⟨hheld, hne⟩ | ⟨held, hheld, hversion, rfl⟩
      · exact mem_shelf.mpr
          ⟨row, hheld, hset, hkey, (hreseals.addresses_of_ne hne).symm.trans hcontent⟩
      · refine mem_shelf.mpr ⟨held, hheld, (hepoch held hheld hversion).trans hset, hkey, ?_⟩
        rw [hversion, haddresses] at hcontent
        rw [hversion, ← hsame, hcontent]
  · rcases hreseals.rotates with ⟨-, hnext, hlt⟩ | ⟨hnext, -⟩
    · exact hnext ▸ hlt
    · exact hnext ▸ h.issuable
  · intro blocker hblocker
    rw [hreseals.blockers] at hblocker
    have howner : ∃ held ∈ ledger.rows, held.version = blocker.version := by
      rcases mem_append.mp hblocker with hblocker | hblocker
      · exact h.owned blocker (mem_filter.mp hblocker).1
      · obtain ⟨text, htext, rfl⟩ := mem_map.mp hblocker
        exact hreseals.present.resolve_left (ne_nil_of_mem htext)
    obtain ⟨held, hheld, hversion⟩ := howner
    obtain ⟨row, hrow, hsame⟩ := hversions held hheld
    exact ⟨row, hrow, hsame.trans hversion⟩
  · rw [hreseals.blockers]
    refine nodup_append.mpr ⟨h.nodup.filter _, ?_, ?_⟩
    · exact hnodup.map fun a b hab => by cases hab; rfl
    · rintro blocker hblocker _ hnew rfl
      obtain ⟨text, -, rfl⟩ := mem_map.mp hnew
      simp at hblocker
  · intro row hrow
    rcases hcases row hrow with ⟨hheld, hne⟩ | ⟨held, hheld, hversion, rfl⟩
    · exact (h.rows row hheld).of_addresses (hreseals.addresses_of_ne hne)
    · have hrow := h.rows held hheld
      refine ⟨hrow.storable, rfl, ?_, ?_, hrow.policy, hrow.milestone⟩
      · dsimp only
        rw [hversion, haddresses]
      · dsimp only
        rw [hversion, haddresses]
        exact hreseals.countable

/-! ### The addresses that a seal writes -/

theorem statedFields_nodup (row : Config.PurposeDef) : (statedFields row).Nodup := by
  have hpiece : ∀ (c : Bool) (field : String), (if c then [field] else []).Sublist [field] := by
    intro c field
    cases c
    · exact nil_sublist _
    · exact Sublist.refl _
  have hall : (["group"] ++ ["model"] ++ ["effort"] ++ ["fallback"] ++ ["pool"] ++
      ["eligible"]).Nodup := by decide
  refine hall.sublist ?_
  exact (((((hpiece _ _).append (hpiece _ _)).append (hpiece _ _)).append (hpiece _ _)).append
    (hpiece _ _)).append (hpiece _ _)

theorem slash_notMem_owner {owner : String} (h : owner = "learning" ∨ owner = "config") :
    '/' ∉ owner.toList := by
  rcases h with rfl | rfl <;> decide

theorem string_append_left_cancel {a b c : String} (h : a ++ b = a ++ c) : b = c := by
  have := congrArg String.toList h
  rw [String.toList_append, String.toList_append] at this
  exact String.toList_inj.mp (append_cancel_left this)

theorem unplacedRecords_nodup (ledger : Ledger) (version : ℕ) (semantics : SemanticInputs) :
    (ledger.unplacedRecords version semantics).Nodup := by
  have howner := slash_notMem_owner (.inr rfl)
  refine nodup_flatMap.mpr ⟨?_, ?_⟩
  · intro record _
    refine (statedFields_nodup record.2).map ?_
    intro field field' hsame
    exact string_append_left_cancel (blockerAddress_injective howner howner hsame).2.2
  · have hkeys : semantics.userRecords.Pairwise fun a b => a.1 ≠ b.1 :=
      pairwise_map.mp semantics.keys
    refine (hkeys.filter _).imp ?_
    intro record record' hne address haddress haddress'
    obtain ⟨field, -, rfl⟩ := mem_map.mp haddress
    obtain ⟨field', -, hsame⟩ := mem_map.mp haddress'
    exact hne (string_append_left_cancel (blockerAddress_injective howner howner hsame).2.1).symm

theorem unplacedBindings_nodup (hkeys : UniqueKeys DeltaRecord.deltaId
    ledger.learning.deltas) (semantics : SemanticInputs) :
    (ledger.unplacedBindings semantics).Nodup := by
  have howner := slash_notMem_owner (.inl rfl)
  refine pairwise_map.mpr (((pairwise_map.mp hkeys).filter _).imp ?_)
  intro a b hne hsame
  exact hne (blockerAddress_injective howner howner hsame).2.1

theorem blocklessAddresses_nodup (hkeys : UniqueKeys DeltaRecord.deltaId
    ledger.learning.deltas) (version : ℕ) (semantics : Option SemanticInputs) :
    (ledger.blocklessAddresses version semantics).Nodup := by
  cases semantics with
  | none => exact .nil
  | some semantics =>
    refine nodup_append.mpr ⟨unplacedRecords_nodup ledger version semantics,
      unplacedBindings_nodup hkeys semantics, ?_⟩
    rintro address haddress _ haddress' rfl
    obtain ⟨record, -, haddress⟩ := mem_flatMap.mp haddress
    obtain ⟨field, -, rfl⟩ := mem_map.mp haddress
    obtain ⟨delta, -, hsame⟩ := mem_map.mp haddress'
    have := (blockerAddress_injective (slash_notMem_owner (.inl rfl))
      (slash_notMem_owner (.inr rfl)) hsame).1
    exact absurd this (by decide)

/-- Every delta has a name. -/
def Named (tables : LearningTables) : Prop := ∀ record ∈ tables.deltas, record.deltaId ≠ ""

/-- Every blocker is an address that a read accepts. -/
def Canonical (ledger : Ledger) : Prop :=
  ∀ blocker ∈ ledger.blockers, canonicalBlockerAddress blocker.address = true

theorem canonical_blocklessAddresses (hnamed : Named ledger.learning)
    (version : ℕ) (semantics : Option SemanticInputs) :
    ∀ address ∈ ledger.blocklessAddresses version semantics,
      canonicalBlockerAddress address = true := by
  intro address haddress
  cases semantics with
  | none => cases haddress
  | some semantics =>
    rcases mem_append.mp haddress with haddress | haddress
    · obtain ⟨record, -, haddress⟩ := mem_flatMap.mp haddress
      obtain ⟨field, -, rfl⟩ := mem_map.mp haddress
      have hpointer : purposeRecordPointer record.1 ≠ "" := by
        change "/models/purposes/" ++ record.1 ≠ ""
        simp
      have hfield : "/" ++ field ≠ "" := by simp
      rw [canonical_blockerAddress (.inr rfl) hfield]
      simpa using hpointer
    · obtain ⟨delta, hdelta, rfl⟩ := mem_map.mp haddress
      rw [canonical_blockerAddress (.inl rfl) (by decide)]
      simpa using hnamed delta (mem_of_mem_filter hdelta)

/-! ### A seal -/

/-- What an operation on sealed sets leaves. -/
structure Lays (ledger ledger' : Ledger) : Prop where
  publishes : Publishes ledger ledger'
  canonical : Named ledger.learning → ledger.Canonical → ledger'.Canonical

theorem sealBlockersOn_within (h : ledger.Sealed)
    (hversions : UniqueKeys BaseRow.version ledger.rows)
    (hkeys : UniqueKeys DeltaRecord.deltaId ledger.learning.deltas)
    (hrow : ∃ row ∈ ledger.rows, row.version = version) (semantics : Option SemanticInputs) :
    Within Fails (Lays ledger) (ledger.sealBlockersOn version semantics) := by
  obtain ⟨row, hrow, hversion⟩ := hrow
  have hheld : ledger.row version = some row := by
    rw [← hversion]
    exact rowAt_of_mem hversions hrow
  have honly : ∀ r ∈ ledger.rows, r.version = version → r = row := fun r hr hv =>
    inj_on_of_nodup_map hversions hr hrow (hv.trans hversion.symm)
  obtain ⟨epoch, hepoch⟩ := Option.isSome_iff_exists.mp (h.rows row hrow).epoch
  unfold sealBlockersOn
  rw [if_neg (by simp [hheld, hepoch])]
  have hsorted := sorted_mergeSort (ledger.blocklessAddresses version semantics)
  have hnodup := (mergeSort_perm (ledger.blocklessAddresses version semantics)
    (· ≤ ·)).nodup_iff.mpr (blocklessAddresses_nodup hkeys version semantics)
  have hcanonical : Named ledger.learning → ∀ address ∈
      (ledger.blocklessAddresses version semantics).mergeSort (· ≤ ·),
      canonicalBlockerAddress address = true := by
    intro hnamed address haddress
    exact canonical_blocklessAddresses hnamed version semantics address
      (mem_mergeSort.mp haddress)
  generalize (ledger.blocklessAddresses version semantics).mergeSort (· ≤ ·) = texts at *
  have hfold : texts.foldl (insertBlocker version) (ledger.blockers.filter (·.version ≠ version)) =
      ledger.blockers.filter (·.version ≠ version) ++ texts.map (Blocker.mk version) := by
    apply foldl_insertBlocker hnodup
    intro a _ hmem
    simp at hmem
  -- the same addresses keep their epoch; others are published under a fresh one
  have hreseals : Within Fails (fun ledger' => ∃ epoch,
      Reseals ledger ledger' version epoch texts)
      (ledger.rotateEpoch version ((ledger.row version).bind BaseRow.setEpoch) texts >>=
        fun ledger => ledger.replaceSet version texts) := by
    unfold rotateEpoch
    rw [hheld, Option.bind_some, hepoch]
    by_cases hsame : ledger.addresses version = texts
    · rw [if_neg (by simp [hsame])]
      apply Within.guard
      intro _
      apply Within.guard
      intro hcount
      refine ⟨epoch, ?_, hfold, .inr ⟨rfl, hsame.symm, ?_⟩, hcount, .inr ⟨row, hrow, hversion⟩⟩
      · apply map_congr_left
        intro r hr
        split
        · rename_i hv
          dsimp only
          rw [honly r hr hv, hepoch]
        · rfl
      · intro r hr hv
        rw [honly r hr hv, hepoch]
    · rw [if_pos ⟨rfl, hsame⟩]
      apply Within.bind (P := fun rotated => rotated =
        updateRow { ledger with nextEpoch := ledger.nextEpoch + 1 } version
          (fun row => { row with setEpoch := some (ledger.nextEpoch + 1) }) ∧
          ledger.nextEpoch + 1 < 2 ^ 63)
      · apply Within.bind (allocateSetEpoch_within ledger)
        rintro ⟨_, _⟩ ⟨rfl, rfl, hlt⟩
        exact ⟨rfl, hlt⟩
      · rintro _ ⟨rfl, hlt⟩
        apply Within.guard
        intro _
        apply Within.guard
        intro hcount
        refine ⟨ledger.nextEpoch + 1, ?_, hfold, .inl ⟨rfl, rfl, hlt⟩, hcount,
          .inr ⟨row, hrow, hversion⟩⟩
        unfold updateRow
        rw [List.map_map]
        apply map_congr_left
        intro r _
        by_cases hv : r.version = version <;> simp [hv]
  refine hreseals.imp ?_
  rintro ledger' ⟨e, hreseals⟩
  refine ⟨h.reseal hreseals hsorted hnodup, ?_⟩
  intro hnamed hold blocker hblocker
  rw [hreseals.blockers] at hblocker
  rcases mem_append.mp hblocker with hblocker | hblocker
  · exact hold blocker (mem_filter.mp hblocker).1
  · obtain ⟨text, htext, rfl⟩ := mem_map.mp hblocker
    exact hcanonical hnamed text htext

theorem Lays.refl (h : ledger.Sealed) : Lays ledger ledger :=
  ⟨.refl h, fun _ hcanonical => hcanonical⟩

theorem Lays.trans {a b c : Ledger} (h : Lays a b) (hlearning : b.learning = a.learning)
    (h' : Lays b c) : Lays a c :=
  ⟨h.publishes.trans h'.publishes, fun hnamed hcanonical =>
    h'.canonical (hlearning ▸ hnamed) (h.canonical hnamed hcanonical)⟩

theorem Publishes.lays (h : Publishes ledger ledger')
    (hblockers : ∀ blocker ∈ ledger'.blockers, blocker ∈ ledger.blockers) : Lays ledger ledger' :=
  ⟨h, fun _ hcanonical blocker hblocker => hcanonical blocker (hblockers blocker hblocker)⟩

/-! ## Every operation keeps the sets -/

section

variable (h : ledger.Sealed)
include h

theorem backfillSetEpoch_of_sealed (version epoch : ℕ) :
    ledger.backfillSetEpoch version epoch = ledger := by
  have hrows : (ledger.rows.map fun row => if row.version = version then
      (if row.setEpoch = none ∧ row.blockerCount.isSome = true then
        { row with setEpoch := some epoch } else row) else row) = ledger.rows := by
    conv_rhs => rw [← map_id ledger.rows]
    apply map_congr_left
    intro row hrow
    have hepoch := (h.rows row hrow).epoch
    have hnone : row.setEpoch ≠ none := Option.isSome_iff_ne_none.mp hepoch
    split
    · rw [if_neg fun hboth => hnone hboth.1]
      rfl
    · rfl
  unfold backfillSetEpoch updateRow
  rw [hrows]

theorem insertBase_within
    (hversions : UniqueKeys BaseRow.version ledger.rows) (install : BaseInstall)
    (hissuable : ledger.nextEpoch + 1 < 2 ^ 63) :
    Within Fails (fun inserted => Publishes ledger inserted ∧
        inserted.blockers = ledger.blockers ∧ inserted.learning = ledger.learning ∧
        UniqueKeys BaseRow.version inserted.rows ∧
        ∃ row ∈ inserted.rows, row.version = install.version)
      (insertBase { ledger with nextEpoch := ledger.nextEpoch + 1 } install
        (ledger.nextEpoch + 1)) := by
  apply Within.bind (storedU64_within install.version)
  rintro _ ⟨rfl, hstorable⟩
  cases hrow : rowAt BaseRow.version ledger.rows install.version with
  | some row =>
    simp only [Ledger.row, hrow, Option.isSome_some, if_true]
    exact ⟨h.beside rfl rfl (Nat.le_succ _) hissuable, rfl, rfl, hversions, row,
      mem_of_rowAt hrow, key_of_rowAt hrow⟩
  | none =>
    simp only [Ledger.row, hrow, Option.isSome_none, Bool.false_eq_true, if_false]
    have hnew := rowAt_eq_none.mp hrow
    have hempty := addresses_of_absent h hnew
    refine ⟨h.insert rfl rfl rfl hissuable rfl ?_, rfl, rfl, hversions.insert hnew, _,
      mem_append_right _ mem_cons_self, rfl⟩
    refine ⟨hstorable, rfl, ?_, ?_, ?_, ⟨rfl, rfl, rfl⟩⟩
    · rw [hempty]
      rfl
    · rw [hempty]
      exact Nat.two_pow_pos 63
    · simp

theorem stageOffered_lays (hversions : UniqueKeys BaseRow.version ledger.rows)
    (hkeys : UniqueKeys DeltaRecord.deltaId ledger.learning.deltas) (install : BaseInstall)
    (assets : List (UpdateAsset × String)) :
    Within Fails (Lays ledger) (ledger.stageOffered install assets) := by
  apply skip
  intro _
  apply Within.bind (allocateSetEpoch_within ledger)
  rintro ⟨_, _⟩ ⟨rfl, rfl, hissuable⟩
  apply Within.bind (insertBase_within h hversions install hissuable)
  rintro inserted ⟨hinserted, hblockers, hlearning, hunique, hpresent⟩
  have hreceipt : Publishes inserted (inserted.writeReceipt install.version assets) :=
    hinserted.kept.beside rfl rfl le_rfl hinserted.kept.issuable
  apply Within.bind (sealBlockersOn_within hreceipt.kept hunique (hlearning ▸ hkeys) hpresent
    install.semantics)
  intro placed hplaced
  have hstaged : Lays ledger placed := by
    refine Lays.trans (b := inserted.writeReceipt install.version assets) ?_ hlearning hplaced
    exact (hinserted.trans hreceipt).lays fun blocker hblocker => hblockers ▸ hblocker
  rw [ok_iff, backfillSetEpoch_of_sealed hplaced.publishes.kept]
  exact hstaged

theorem stageBaseOn_lays (hversions : UniqueKeys BaseRow.version ledger.rows)
    (hkeys : UniqueKeys DeltaRecord.deltaId ledger.learning.deltas) (install : BaseInstall)
    (assets : List (UpdateAsset × String)) :
    Within Fails (Lays ledger) (ledger.stageBaseOn install assets) := by
  unfold stageBaseOn
  split
  · exact stageOffered_lays h hversions hkeys install assets
  · split
    · trivial
    · split
      · apply skip
        intro _
        exact .refl h
      · split
        · trivial
        · exact stageOffered_lays h hversions hkeys install assets

theorem abandonBaseOn_lays
    (hversions : UniqueKeys BaseRow.version ledger.rows) (version : ℕ) :
    Within Fails (fun abandoned => Lays ledger abandoned.1 ∧
        abandoned.1.learning = ledger.learning ∧ UniqueKeys BaseRow.version abandoned.1.rows)
      (ledger.abandonBaseOn version) := by
  apply Within.look
  intro staged hstaged
  obtain ⟨hin, hversion⟩ := Option.filter_eq_some_iff.mp hstaged
  obtain ⟨held, hheld, hstate, hkey, -⟩ := inState_eq_some hin
  have hkeyed : held.version = version := hkey.trans (by simpa using hversion)
  have hrows : (ledger.rows.filter fun row => !(row.version = version ∧ row.state = .staged)) =
      ledger.rows.filter fun row => decide (row.version ≠ version) := by
    apply filter_congr
    intro row hrow
    by_cases hv : row.version = version
    · obtain rfl : row = held := inj_on_of_nodup_map hversions hrow hheld (hv.trans hkeyed.symm)
      simp [hv, hstate]
    · simp [hv]
  have hrestrict : Publishes ledger { ledger with
      rows := ledger.rows.filter fun row => !(row.version = version ∧ row.state = .staged)
      blockers := ledger.blockers.filter (·.version ≠ version)
      receipts := ledger.receipts.filter (·.version ≠ version)
      migrations := ledger.migrations.filter (·.baseVersion ≠ version) } :=
    h.restrict (fun v => decide (v ≠ version)) hrows rfl rfl
  exact ⟨hrestrict.lays fun blocker hblocker => mem_of_mem_filter hblocker, rfl,
    hversions.filter _⟩

theorem stageForCutoverOn_lays
    (hversions : UniqueKeys BaseRow.version ledger.rows)
    (hkeys : UniqueKeys DeltaRecord.deltaId ledger.learning.deltas) (install : BaseInstall)
    (assets : List (UpdateAsset × String)) :
    Within Fails (fun staged => Lays ledger staged.1)
      (ledger.stageForCutoverOn install assets) := by
  have hstage := stageBaseOn_lays h hversions hkeys install assets
  unfold stageForCutoverOn
  split
  · rename_i hok
    exact hstage.of_ok hok
  · split
    · apply Within.bind (abandonBaseOn_lays h hversions _)
      rintro abandoned ⟨habandoned, hlearning, hunique⟩
      apply Within.bind (stageBaseOn_lays habandoned.publishes.kept hunique (hlearning ▸ hkeys)
        install assets)
      intro staged hstaged
      exact habandoned.trans hlearning hstaged
    · trivial
  · trivial

end

/-- Only the rules and the receipts differ. -/
structure Beside (ledger ledger' : Ledger) : Prop where
  rows : ledger'.rows = ledger.rows
  blockers : ledger'.blockers = ledger.blockers
  nextEpoch : ledger'.nextEpoch = ledger.nextEpoch
  learning : ledger'.learning = ledger.learning

theorem Beside.trans {a b c : Ledger} (h : Beside a b) (h' : Beside b c) : Beside a c :=
  ⟨h'.rows.trans h.rows, h'.blockers.trans h.blockers, h'.nextEpoch.trans h.nextEpoch,
    h'.learning.trans h.learning⟩

theorem Beside.lays (hbeside : Beside ledger ledger')
    (h : ledger.Sealed) : Lays ledger ledger' := by
  refine (h.beside hbeside.rows hbeside.blockers hbeside.nextEpoch.ge
    (hbeside.nextEpoch ▸ h.issuable)).lays ?_
  intro blocker hblocker
  exact hbeside.blockers ▸ hblocker

theorem recordMigrationOn_beside (ledger : Ledger) (migration : IdentityMigration)
    (version : ℕ) :
    Within Fails (fun recorded => Beside ledger recorded.1)
      (ledger.recordMigrationOn migration version) := by
  apply skip
  intro _
  apply skip
  intro _
  apply skip
  intro _
  apply skip
  intro _
  apply skip
  intro _
  unfold insertMigration
  split <;> exact ⟨rfl, rfl, rfl, rfl⟩

theorem recordReleaseRulesOn_lays (h : ledger.Sealed)
    (hversions : UniqueKeys BaseRow.version ledger.rows)
    (hkeys : UniqueKeys DeltaRecord.deltaId ledger.learning.deltas) (install : BaseInstall)
    (rules : List IdentityMigration) (hrow : (ledger.row install.version).isSome = true) :
    Within Fails (Lays ledger) (ledger.recordReleaseRulesOn install rules) := by
  apply Within.bind (P := Beside ledger)
  · apply Within.foldlM fun _ => Beside ledger
    · intro _ rule recorded _ hbeside
      apply Within.bind ((recordMigrationOn_beside recorded rule install.version).mapError
        fun _ _ => trivial)
      intro next hnext
      exact hbeside.trans hnext
    · exact ⟨rfl, rfl, rfl, rfl⟩
  · intro recorded hbeside
    have hrecorded := hbeside.lays h
    obtain ⟨row, hrow⟩ := Option.isSome_iff_exists.mp hrow
    refine (sealBlockersOn_within hrecorded.publishes.kept (hbeside.rows ▸ hversions)
      (hbeside.learning ▸ hkeys) ⟨row, hbeside.rows ▸ mem_of_rowAt hrow, key_of_rowAt hrow⟩
      install.semantics).imp ?_
    intro placed hplaced
    exact hrecorded.trans hbeside.learning hplaced

theorem activated_publishes (h : ledger.Sealed) {policy : String}
    (hshape : policyGenerationShape policy = true) (learning : LearningTables) :
    Publishes ledger (ledger.activated version policy learning) := by
  refine h.rewrite (f := fun row =>
    let retired := if row.state = .active ∧ row.version ≠ version then
      { row with state := .retired } else row
    if retired.version = version ∧ retired.state = .staged then
      { retired with
        state := .active
        phase := some .activated
        schemaGeneration := some ledger.schemaGeneration
        policyGeneration := some policy }
    else retired) ?_ rfl le_rfl h.issuable ?_ ?_ ?_
  · unfold activated retireActiveBase activateBase
    rw [List.map_map]
    rfl
  · intro row
    dsimp only
    split_ifs <;> rfl
  · intro row
    dsimp only
    split_ifs <;> rfl
  · intro row _ hrow
    dsimp only
    split_ifs with hactive hstaged hstaged
    · cases hstaged.2
    · refine ⟨hrow.storable, hrow.epoch, hrow.counted, hrow.countable, hrow.policy, ?_⟩
      have hmilestone := hrow.milestone
      unfold milestoneShape at hmilestone ⊢
      rwa [hactive.1] at hmilestone
    · refine ⟨hrow.storable, hrow.epoch, hrow.counted, hrow.countable, ?_, ⟨rfl, rfl, rfl⟩⟩
      rintro _ ⟨rfl⟩
      exact hshape
    · exact hrow

theorem pruneBaseVersions_lays (h : ledger.Sealed) (keep : ℕ) :
    Lays ledger (ledger.pruneBaseVersions keep) := by
  have hrestrict : Publishes ledger (ledger.pruneBaseVersions keep) :=
    h.restrict (fun v => decide (v ∉ ledger.expired keep)) rfl rfl rfl
  refine hrestrict.lays ?_
  intro blocker hblocker
  exact mem_of_mem_filter hblocker

/-- The operations that name the delta they record. -/
def Names : LedgerOp → Prop
  | .learn (.record candidate) => candidate.deltaId ≠ ""
  | _ => True

theorem lays_of_step {op : LedgerOp} (hsound : ledger.Sound)
    (h : ledger.Sealed) (hstep : ledger.Step op ledger') : Lays ledger ledger' := by
  have hversions := uniqueKeys_of_inOrder hsound.inOrder
  have hkeys := hsound.judged.keys
  obtain ⟨hadmits, hok⟩ := hstep
  have hwithin : Within Fails (Lays ledger) (ledger.perform op) := by
    cases op with
    | stage install assets => exact stageBaseOn_lays h hversions hkeys install assets
    | stageForCutover install assets =>
      apply Within.bind (stageForCutoverOn_lays h hversions hkeys install assets)
      intro staged hstaged
      exact hstaged
    | abandon version =>
      apply Within.bind (abandonBaseOn_lays h hversions version)
      rintro abandoned ⟨habandoned, -, -⟩
      exact habandoned
    | releaseRules install rules =>
      exact recordReleaseRulesOn_lays h hversions hkeys install rules hadmits.2
    | commit version pin =>
      apply Within.bind (prepareActivation_inv hsound.inOrder version pin)
      rintro done ⟨policy, learning, -, hshape, -, -, hdone⟩
      have hactivated := @activated_publishes _ version h _ hshape learning
      have hpruned := pruneBaseVersions_lays hactivated.kept BASE_VERSION_RETENTION
      rw [ok_iff, hdone]
      refine (hactivated.trans hpruned.publishes).lays ?_
      intro blocker hblocker
      exact mem_of_mem_filter hblocker
    | migration migration =>
      apply Within.bind ((recordMigrationOn_beside ledger migration
        ledger.servedBaseVersion).mapError fun _ _ => trivial)
      intro recorded hrecorded
      exact hrecorded.lays h
    | learn op =>
      apply skip
      intro learning
      have hbeside : Publishes ledger { ledger with learning := learning } :=
        h.beside rfl rfl le_rfl h.issuable
      exact hbeside.lays fun _ hblocker => hblocker
  exact hwithin.of_ok hok

/-- What every reached ledger keeps. -/
structure Regular (ledger : Ledger) : Prop where
  sound : ledger.Sound
  kept : ledger.Sealed

theorem regular_fresh (schemaGeneration : ℕ) : (fresh schemaGeneration).Regular :=
  ⟨sound_fresh schemaGeneration, sealed_fresh schemaGeneration⟩

theorem regular_of_step {op : LedgerOp} (h : ledger.Regular)
    (hstep : ledger.Step op ledger') : ledger'.Regular :=
  ⟨sound_of_step h.sound hstep, (lays_of_step h.sound h.kept hstep).publishes.kept⟩

theorem regular_of_run (h : ledger.Regular)
    (hrun : Run Step ledger ops ledger') : ledger'.Regular :=
  hrun.invariant (fun _ _ _ hl hstep => regular_of_step hl hstep) h

theorem writes_of_run (h : ledger.Regular) (hrun : Run Step ledger ops ledger') :
    ReflTransGen Shelf.Write ledger.shelf ledger'.shelf := by
  refine hrun.relates (R := fun l l' => ReflTransGen Shelf.Write l.shelf l'.shelf)
    (I := Regular) (fun _ => .refl) ?_ ?_ ?_ h
  · exact fun _ _ _ hfirst hsecond => hfirst.trans hsecond
  · exact fun _ _ _ hl hstep => regular_of_step hl hstep
  · exact fun _ _ _ hl hstep => (lays_of_step hl.sound hl.kept hstep).publishes.writes

/-- What a named run also keeps: every address is one that a read accepts. -/
structure Readable (ledger : Ledger) : Prop where
  regular : ledger.Regular
  named : Named ledger.learning
  canonical : ledger.Canonical

theorem readable_fresh (schemaGeneration : ℕ) : (fresh schemaGeneration).Readable := by
  refine ⟨regular_fresh schemaGeneration, ?_, ?_⟩
  · intro record hrecord
    cases hrecord
  · intro blocker hblocker
    cases hblocker

theorem named_of_step {op : LedgerOp} (hsound : ledger.Sound)
    (hnamed : Named ledger.learning) (hnames : Names op) (hstep : ledger.Step op ledger') :
    Named ledger'.learning := by
  have hlearned := (effect_of_step hsound.inOrder hstep).learning
  cases op with
  | commit version pin =>
    obtain ⟨rules, out, -, -, hok⟩ := hlearned
    have hpass := (rebindLearningIdentities_within rules hsound.judged.keys).of_ok hok
    intro record hrecord
    rw [hpass.deltas] at hrecord
    obtain ⟨held, hheld, rfl⟩ := mem_map.mp hrecord
    rw [moveRecord_deltaId]
    exact hnamed held hheld
  | learn op =>
    cases op with
    | record candidate =>
      obtain ⟨-, htables⟩ := (LearningTables.recordDelta_within _ candidate).of_ok hlearned
      intro record hrecord
      rw [htables] at hrecord
      rcases mem_append.mp (mem_of_mem_filter hrecord) with hrecord | hrecord
      · exact hnamed record hrecord
      · rw [mem_singleton.mp hrecord]
        exact hnames
    | judge deltaId cases =>
      obtain ⟨hdeltas, -⟩ := (LearningTables.recordCorpus_within _ deltaId cases).of_ok hlearned
      exact fun record hrecord => hnamed record (hdeltas ▸ hrecord)
    | activate deltaId expected =>
      obtain ⟨-, htables, -⟩ := (LearningTables.activate_within _ deltaId expected).of_ok hlearned
      intro record hrecord
      rw [htables] at hrecord
      obtain ⟨held, hheld, rfl⟩ := mem_map.mp hrecord
      rw [LearningTables.transitRow_deltaId]
      exact hnamed held hheld
    | rollBack deltaId expected =>
      have htables := (LearningTables.rollBack_within _ deltaId expected).of_ok hlearned
      intro record hrecord
      rw [htables] at hrecord
      obtain ⟨held, hheld, rfl⟩ := mem_map.mp hrecord
      rw [LearningTables.transitRow_deltaId]
      exact hnamed held hheld
  | stage | stageForCutover | abandon | releaseRules | migration =>
    have hsame : ledger'.learning = ledger.learning := hlearned
    exact hsame ▸ hnamed

theorem readable_of_step {op : LedgerOp} (h : ledger.Readable)
    (hnames : Names op) (hstep : ledger.Step op ledger') : ledger'.Readable :=
  ⟨regular_of_step h.regular hstep, named_of_step h.regular.sound h.named hnames hstep,
    (lays_of_step h.regular.sound h.regular.kept hstep).canonical h.named h.canonical⟩

theorem readable_of_run (h : ledger.Readable)
    (hnames : ∀ op ∈ ops, Names op) (hrun : Run Step ledger ops ledger') : ledger'.Readable :=
  hrun.mem.invariant (I := Readable)
    (fun _ op _ hl hstep => readable_of_step hl (hnames op hstep.2) hstep.1) h

/-! ## Reading -/

end Ledger

/-- The refusals that send a reader back to the first page. -/
def BaseError.RefusesPage : BaseError → Prop
  | .receiptMissing _ | .blockerSetMoved .. | .blockerSetGone .. | .invalidPage _ => True
  | _ => False

namespace Ledger

/-- The page of a set at an offset, as a reader gets it. -/
structure Serves (ledger : Ledger) (version limit : ℕ) (cursor : Option (ℕ × ℕ))
    (page : BlockerPage) : Prop where
  held : ∃ row ∈ ledger.rows, row.version = version ∧ row.setEpoch = some page.epoch
  resumed : cursor = none ∧ page.offset = 0 ∨ cursor = some (page.epoch, page.offset)
  inside : page.offset ≤ (ledger.addresses version).length
  items : page.addresses = ((ledger.addresses version).drop page.offset).take limit
  more : page.more = decide (page.offset + limit < (ledger.addresses version).length)

theorem pageAt_within {addresses : List String} {epoch limit offset : ℕ} :
    Within BaseError.RefusesPage (fun page => page.epoch = epoch ∧ page.offset = offset ∧
        offset ≤ addresses.length ∧ page.addresses = (addresses.drop offset).take limit ∧
        page.more = decide (offset + limit < addresses.length))
      (pageAt addresses addresses.length epoch limit offset) := by
  apply Within.bind (Within.require fun _ => trivial)
  intro _ hcount
  have hinside : offset ≤ addresses.length := by omega
  refine ⟨rfl, rfl, hinside, ?_, ?_⟩
  · dsimp only
    rw [take_take, Nat.min_eq_left (Nat.le_succ limit)]
  · dsimp only
    rw [length_take, length_drop]
    congr 1
    apply propext
    omega

theorem storedU64_refusing {E : BaseError → Prop} {value : ℕ} (h : value < 2 ^ 63) :
    Within E (fun stored => stored = value) (storing (TaskStore.storedU64 value)) := by
  unfold TaskStore.storedU64
  rw [require_pos h]
  rfl

theorem blockerPageOn_within (h : ledger.Sealed) {version limit : ℕ}
    (hstorable : version < 2 ^ 63) {cursor : Option (ℕ × ℕ)}
    (hcursor : ∀ c ∈ cursor, c.2 < 2 ^ 63) :
    Within BaseError.RefusesPage (ledger.Serves version limit cursor)
      (ledger.blockerPageOn version limit cursor) := by
  apply Within.bind (storedU64_refusing hstorable)
  rintro stored rfl
  split
  · rename_i v digest state phase count schema policy epoch hrow
    have hmem := mem_of_rowAt hrow
    have hversion : v = stored := key_of_rowAt hrow
    have hcount : count = (ledger.addresses stored).length := by
      have := (h.rows _ hmem).counted
      rw [← hversion]
      exact Option.some.inj this
    apply Within.bind (P := fun offset =>
      cursor = none ∧ offset = 0 ∨ cursor = some (epoch, offset))
    · cases cursor with
      | none => exact .inl ⟨rfl, rfl⟩
      | some c =>
        apply Within.bind (Within.require fun _ => trivial)
        rintro _ hepoch
        refine (storedU64_refusing (hcursor c rfl)).imp ?_
        rintro offset rfl
        rw [← hepoch]
        exact .inr rfl
    · intro offset hresumed
      rw [hcount]
      refine pageAt_within.imp ?_
      rintro page ⟨hepoch, hoffset, hinside, hitems, hmore⟩
      subst hepoch hoffset
      exact ⟨⟨_, hmem, hversion, rfl⟩, hresumed, hinside, hitems, hmore⟩
  · cases cursor <;> trivial

/-- The refusals of a read where the stored addresses and the version are as they must be. -/
def Refuses (ledger : Ledger) (version : ℕ) (refusal : BaseError) : Prop :=
  ledger.Canonical → version < 2 ^ 63 → refusal.RefusesPage

theorem baseRowMetadata_within (h : ledger.Sealed) {row : BaseRow} (hrow : row ∈ ledger.rows) :
    Within (ledger.Refuses version) (fun _ => True) (ledger.baseRowMetadata row) := by
  have hsealed := h.rows row hrow
  have hpasses : ledger.Canonical → ledger.baseRowMetadata row = .ok () := by
    intro hcanonical
    unfold baseRowMetadata
    rw [require_pos hsealed.policy, hsealed.counted]
    simp only [ok_bind, require_pos hsealed.epoch, require_pos hsealed.milestone,
      require_pos h.owned]
    rw [require_pos fun address haddress => hcanonical _ (mem_addresses.mp haddress)]
    rw [ok_bind, require_pos trivial]
  cases hmetadata : ledger.baseRowMetadata row with
  | ok _ => trivial
  | error refusal =>
    intro hcanonical _
    rw [hpasses hcanonical] at hmetadata
    cases hmetadata

theorem storedU64_refuses (ledger : Ledger) (version : ℕ) :
    Within (ledger.Refuses version) (fun stored => stored = version ∧ version < 2 ^ 63)
      (storing (TaskStore.storedU64 version)) := by
  by_cases hstorable : version < 2 ^ 63
  · exact (storedU64_refusing hstorable).imp fun _ hstored => ⟨hstored, hstorable⟩
  · unfold TaskStore.storedU64
    rw [require_neg hstorable]
    exact fun _ hlt => absurd hlt hstorable

theorem receiptPageOn_within (h : ledger.Sealed) {version limit : ℕ}
    {cursor : Option (ℕ × ℕ)} (hcursor : ∀ c ∈ cursor, c.2 < 2 ^ 63) :
    Within (ledger.Refuses version) (fun receipt => ∀ r ∈ receipt, ∃ page,
        r.blockers = some (blockerPage page version) ∧ ledger.Serves version limit cursor page)
      (ledger.receiptPageOn version limit cursor) := by
  apply Within.bind (storedU64_refuses ledger version)
  rintro stored ⟨rfl, hstorable⟩
  cases hrow : ledger.row stored with
  | none =>
    intro r hr
    cases hr
  | some row =>
    have hmem := mem_of_rowAt hrow
    apply Within.bind (baseRowMetadata_within h hmem)
    intro _ _
    apply Within.bind (Within.require fun _ _ _ => trivial)
    intro _ _
    apply Within.bind (P := fun blockers => ∃ page, blockers = some (blockerPage page stored) ∧
      ledger.Serves stored limit cursor page)
    · unfold recordedPage
      rw [(h.rows row hmem).counted]
      apply Within.bind ((blockerPageOn_within h hstorable hcursor).mono
        (fun _ hrefuses _ _ => hrefuses) fun _ hserves => hserves)
      intro page hserves
      exact ⟨page, rfl, hserves⟩
    · rintro blockers hblockers r ⟨rfl⟩
      exact hblockers

theorem blockerCursorFor_within (cursor : String) (version : ℕ) :
    Within BaseError.RefusesPage (fun resumed => resumed.2 < 2 ^ 63)
      (blockerCursorFor cursor version) := by
  have hparsed : Within BaseError.RefusesPage (fun parsed => parsed.2.2 < 2 ^ 63)
      (parseBlockerCursor cursor) := by
    unfold parseBlockerCursor
    split
    · trivial
    · trivial
    · apply Within.bind (Within.require fun _ => trivial)
      intro _ _
      split
      · apply Within.bind (Within.require fun _ => trivial)
        intro _ _
        apply Within.bind (Within.found fun _ => trivial)
        intro _ _
        apply Within.bind (Within.found fun _ => trivial)
        intro _ _
        apply Within.bind (Within.found fun _ => trivial)
        intro _ _
        apply Within.bind (Within.require fun _ => trivial)
        intro _ hoffset
        exact hoffset
      · trivial
  apply Within.bind hparsed
  intro parsed hoffset
  apply Within.bind (Within.require fun _ => trivial)
  intro _ _
  exact hoffset

theorem resumedCursor_within (version : ℕ) (cursor : Option String) :
    Within BaseError.RefusesPage (fun resumed => (∀ c ∈ resumed, c.2 < 2 ^ 63) ∧
        (cursor = none → resumed = none) ∧ ∀ text ∈ cursor, ∃ c, resumed = some c ∧
          blockerCursorFor text version = .ok c)
      (resumedCursor version cursor) := by
  cases cursor with
  | none => simp [resumedCursor]
  | some text =>
    have hparsed : Within BaseError.RefusesPage
        (fun c => c.2 < 2 ^ 63 ∧ blockerCursorFor text version = .ok c)
        (blockerCursorFor text version) := by
      cases hok : blockerCursorFor text version with
      | ok c => exact ⟨(blockerCursorFor_within text version).of_ok hok, rfl⟩
      | error refusal => exact (blockerCursorFor_within text version).of_error hok
    apply Within.bind hparsed
    rintro c ⟨hoffset, hok⟩
    refine ⟨?_, ?_, ?_⟩
    · rintro _ ⟨rfl⟩
      exact hoffset
    · intro hnone
      cases hnone
    · rintro _ ⟨rfl⟩
      exact ⟨c, rfl, hok⟩

theorem updateReceiptPage_within (h : ledger.Sealed) (version size : ℕ) (cursor : Option String) :
    Within (ledger.Refuses version) (fun receipt => 1 ≤ size ∧ ∃ resumed page,
        (cursor = none → resumed = none) ∧
        (∀ text ∈ cursor, ∃ c, resumed = some c ∧ blockerCursorFor text version = .ok c) ∧
        receipt.blockers = some (blockerPage page version) ∧
        ledger.Serves version size resumed page)
      (ledger.updateReceiptPage version size cursor) := by
  apply Within.bind (P := fun checked => checked = size ∧ 1 ≤ size)
  · apply Within.bind (Within.require fun _ _ _ => trivial)
    intro _ hsize
    exact ⟨rfl, hsize.1⟩
  · rintro checked ⟨rfl, hsize⟩
    apply Within.bind ((resumedCursor_within version cursor).mono
      (fun _ hrefuses _ _ => hrefuses) fun _ hresumed => hresumed)
    rintro resumed ⟨hoffset, hnone, hsome⟩
    apply Within.bind (receiptPageOn_within h hoffset)
    intro receipt hreceipt
    apply (Within.found fun _ _ _ => trivial).imp
    rintro r rfl
    obtain ⟨page, hblockers, hserves⟩ := hreceipt r rfl
    exact ⟨hsize, resumed, page, hnone, hsome, hblockers, hserves⟩

/-- A reader of one base takes page after page, with any operations of the ledger between two. -/
inductive Reading (version : ℕ) :
    Ledger → Option String → List (List String) → Option String → Ledger → Prop
  | last {ledger ledger' : Ledger} {ops : List LedgerOp} {size : ℕ} {cursor : Option String}
      {receipt : UpdateReceipt} {page : Page} (run : Run Step ledger ops ledger')
      (read : ledger'.updateReceiptPage version size cursor = .ok receipt)
      (served : receipt.blockers = some page) :
      Reading version ledger cursor [page.items] page.nextCursor ledger'
  | next {ledger ledger' last : Ledger} {ops : List LedgerOp} {size : ℕ}
      {cursor final : Option String} {receipt : UpdateReceipt} {page : Page}
      {pages : List (List String)} (run : Run Step ledger ops ledger')
      (read : ledger'.updateReceiptPage version size cursor = .ok receipt)
      (served : receipt.blockers = some page) (more : page.nextCursor.isSome = true)
      (later : Reading version ledger' page.nextCursor pages final last) :
      Reading version ledger cursor (page.items :: pages) final last

/-- The text of the cursor that a reader at an offset holds. -/
def cursorText (version epoch : ℕ) (offset : Option ℕ) : Option String :=
  offset.map (formatBlockerCursor version epoch)

theorem nextCursor_of_serves {version size : ℕ} {cursor : Option (ℕ × ℕ)}
    {page : BlockerPage} (h : ledger.Serves version size cursor page) :
    (blockerPage page version).nextCursor = cursorText version page.epoch
      (if page.offset + size < (ledger.addresses version).length then some (page.offset + size)
        else none) := by
  unfold blockerPage cursorText
  rw [h.more]
  by_cases hmore : page.offset + size < (ledger.addresses version).length
  · have hlength : page.addresses.length = size := by
      rw [h.items, length_take, length_drop]
      omega
    simp only [hmore, decide_true, if_true, hlength, Option.map_some]
  · simp [hmore]

/-- The set that a reader at a cursor has begun. -/
structure Begun (ledger : Ledger) (version epoch : ℕ) (texts : List String) : Prop where
  held : ∃ row ∈ ledger.rows, row.version = version ∧ row.setEpoch = some epoch
  addresses : ledger.addresses version = texts

theorem cursorText_eq_none {offset : Option ℕ} :
    cursorText version epoch offset = none ↔ offset = none := Option.map_eq_none_iff

theorem begun_of_run (h : ledger.Regular) (hrun : Run Step ledger ops ledger')
    (hbegun : ledger.Begun version epoch texts)
    (hheld : ∃ row ∈ ledger'.rows, row.version = version ∧ row.setEpoch = some epoch) :
    ledger'.Begun version epoch texts := by
  obtain ⟨row, hrow, hversion, hepoch⟩ := hbegun.held
  obtain ⟨row', hrow', hversion', hepoch'⟩ := hheld
  have hsame := h.kept.orderly.same (Shelf.follows_of_writes (writes_of_run h hrun))
    (mem_shelf_of_row hrow hepoch) (mem_shelf_of_row hrow' hepoch') rfl
  have haddresses : ledger.addresses row.version = ledger'.addresses row'.version :=
    congrArg Edition.content hsame
  rw [hversion, hversion'] at haddresses
  exact ⟨⟨row', hrow', hversion', hepoch'⟩, haddresses.symm.trans hbegun.addresses⟩

/-- A read at a cursor of a begun set takes the next page of that set. -/
theorem serves_at (h : ledger.Sealed) {version epoch offset size : ℕ}
    {resumed : Option (ℕ × ℕ)} {page : BlockerPage} (hoffset : offset < 2 ^ 63)
    (hissued : epoch < 2 ^ 63) (hserves : ledger.Serves version size resumed page)
    (hcursor : ∀ text ∈ cursorText version epoch (some offset), ∃ c, resumed = some c ∧
      blockerCursorFor text version = .ok c) : page.epoch = epoch ∧ page.offset = offset := by
  obtain ⟨row, hrow, hversion, -⟩ := hserves.held
  have hstorable : version < 2 ^ 63 := hversion ▸ (h.rows row hrow).storable
  obtain ⟨c, hc, hparsed⟩ := hcursor _ rfl
  have hround := blockerCursorFor_format (hstorable.trans (by decide)) (hissued.trans (by decide))
    hoffset
  rw [hround] at hparsed
  cases hparsed
  rcases hserves.resumed with ⟨hnone, -⟩ | hsome
  · rw [hc] at hnone
    cases hnone
  · rw [hc] at hsome
    cases hsome
    exact ⟨rfl, rfl⟩

/-- What one read leaves a reader with: the page at its offset, and the offset that follows. -/
structure Reads (texts : List String) (version epoch offset size : ℕ) (page : Page) : Prop where
  positive : 1 ≤ size
  items : page.items = (texts.drop offset).take size
  nextCursor : page.nextCursor = cursorText version epoch
    (if offset + size < texts.length then some (offset + size) else none)

theorem reads_of_serves {version epoch offset size : ℕ}
    {resumed : Option (ℕ × ℕ)} {page : BlockerPage}
    (hbegun : ledger.Begun version epoch texts) (hsize : 1 ≤ size)
    (hserves : ledger.Serves version size resumed page) (hepoch : page.epoch = epoch)
    (hoffset : page.offset = offset) :
    Reads texts version epoch offset size (blockerPage page version) := by
  subst hepoch hoffset
  refine ⟨hsize, ?_, ?_⟩
  · rw [← hbegun.addresses]
    exact hserves.items
  · rw [← hbegun.addresses]
    exact nextCursor_of_serves hserves

theorem read_first (h : ledger.Regular) {version size : ℕ} {receipt : UpdateReceipt} {page : Page}
    (hread : ledger.updateReceiptPage version size none = .ok receipt)
    (hserved : receipt.blockers = some page) :
    ∃ epoch, ledger.Begun version epoch (ledger.addresses version) ∧
      Reads (ledger.addresses version) version epoch 0 size page := by
  obtain ⟨hsize, resumed, served, hnone, -, hblockers, hserves⟩ :=
    (updateReceiptPage_within h.kept version size none).of_ok hread
  rw [hblockers] at hserved
  cases hserved
  have hbegun : ledger.Begun version served.epoch (ledger.addresses version) :=
    ⟨hserves.held, rfl⟩
  refine ⟨served.epoch, hbegun, reads_of_serves hbegun hsize hserves rfl ?_⟩
  rcases hserves.resumed with ⟨-, hoffset⟩ | hsome
  · exact hoffset
  · rw [hnone rfl] at hsome
    cases hsome

theorem read_next {version epoch offset size : ℕ}
    {receipt : UpdateReceipt} {page : Page} (h : ledger.Regular)
    (hrun : Run Step ledger ops ledger') (hbegun : ledger.Begun version epoch texts)
    (hoffset : offset < 2 ^ 63)
    (hread : ledger'.updateReceiptPage version size (cursorText version epoch (some offset)) =
      .ok receipt) (hserved : receipt.blockers = some page) :
    ledger'.Begun version epoch texts ∧ Reads texts version epoch offset size page := by
  have h' := regular_of_run h hrun
  obtain ⟨hsize, resumed, served, -, hsome, hblockers, hserves⟩ :=
    (updateReceiptPage_within h'.kept version size _).of_ok hread
  rw [hblockers] at hserved
  cases hserved
  obtain ⟨row, hrow, -, hepoch⟩ := hbegun.held
  have hissued : epoch < 2 ^ 63 :=
    (h.kept.orderly.issued _ (mem_shelf_of_row hrow hepoch)).trans_lt h.kept.issuable
  obtain ⟨hsame, hat⟩ := serves_at h'.kept hoffset hissued hserves hsome
  have hbegun' := begun_of_run h hrun hbegun (hsame ▸ hserves.held)
  exact ⟨hbegun', reads_of_serves hbegun' hsize hserves hsame hat⟩

theorem Begun.countable (h : ledger.Sealed)
    (hbegun : ledger.Begun version epoch texts) : texts.length < 2 ^ 63 := by
  obtain ⟨row, hrow, hversion, -⟩ := hbegun.held
  rw [← hbegun.addresses, ← hversion]
  exact (h.rows row hrow).countable

/-- From a cursor of a begun set on, a reader takes pages of that set. -/
theorem pages_of_begun {ledger last : Ledger}
    {cursor final : Option String} {pages : List (List String)}
    (hreading : Reading version ledger cursor pages final last) (h : ledger.Regular)
    (hbegun : ledger.Begun version epoch texts) {offset : ℕ} (hoffset : offset < 2 ^ 63)
    (hcursor : cursor = cursorText version epoch (some offset)) :
    last.Begun version epoch texts ∧
      ∃ rest, Pages texts offset pages rest ∧ final = cursorText version epoch rest := by
  induction hreading generalizing offset with
  | @last ledger ledger' ops size cursor receipt page run read served =>
    subst hcursor
    obtain ⟨hbegun', hreads⟩ := read_next h run hbegun hoffset read served
    refine ⟨hbegun', _, ?_, hreads.nextCursor⟩
    rw [hreads.items]
    split
    · rename_i hmore
      exact .stop hreads.positive hmore
    · rename_i hlast
      exact .last (Nat.not_lt.mp hlast)
  | @next ledger ledger' last ops size cursor final receipt page pages run read served more later ih =>
    subst hcursor
    obtain ⟨hbegun', hreads⟩ := read_next h run hbegun hoffset read served
    have h' := regular_of_run h run
    have hnext := hreads.nextCursor
    split at hnext
    · rename_i hmore
      have hcountable := hbegun'.countable h'.kept
      obtain ⟨hlast, rest, hpages, hfinal⟩ := ih h' hbegun' (hmore.trans hcountable) hnext
      refine ⟨hlast, rest, ?_, hfinal⟩
      rw [hreads.items]
      exact .more hreads.positive hmore hpages
    · rw [hnext] at more
      cases more

/-- From the first page on, a reader takes pages of the set that it sees last. -/
theorem pages_of_reading {ledger last : Ledger} {final : Option String}
    {pages : List (List String)} (hreading : Reading version ledger none pages final last)
    (h : ledger.Regular) : ∃ epoch rest, last.Begun version epoch (last.addresses version) ∧
      Pages (last.addresses version) 0 pages rest ∧ final = cursorText version epoch rest := by
  cases hreading with
  | last run read served =>
    obtain ⟨epoch, hbegun, hreads⟩ := read_first (regular_of_run h run) read served
    refine ⟨epoch, _, hbegun, ?_, hreads.nextCursor⟩
    rw [hreads.items]
    split
    · rename_i hmore
      exact .stop hreads.positive hmore
    · rename_i hlast
      exact .last (Nat.not_lt.mp hlast)
  | next run read served more later =>
    have h' := regular_of_run h run
    obtain ⟨epoch, hbegun, hreads⟩ := read_first h' read served
    have hnext := hreads.nextCursor
    split at hnext
    · rename_i hmore
      obtain ⟨hlast, rest, hpages, hfinal⟩ := pages_of_begun later h' hbegun
        (hmore.trans (hbegun.countable h'.kept)) hnext
      refine ⟨epoch, rest, ⟨hlast.held, rfl⟩, ?_, hfinal⟩
      rw [hlast.addresses, hreads.items]
      exact .more hreads.positive hmore hpages
    · rw [hnext] at more
      cases more

theorem regular_of_reading {ledger last : Ledger} {cursor final : Option String}
    {pages : List (List String)} (hreading : Reading version ledger cursor pages final last)
    (h : ledger.Regular) : last.Regular := by
  induction hreading with
  | last run read served => exact regular_of_run h run
  | next run read served more later ih => exact ih (regular_of_run h run)

/-- Whatever a run did before and between the reads: the pages are one set in byte order, cut where
the reader stopped; an epoch names one set of one base; a count is the number of its addresses; and
where every delta has a name, a read of a storable version is only refused back to the first page. -/
theorem pages_are_one_set {schemaGeneration : ℕ}
    (hrun : Run Step (fresh schemaGeneration) ops ledger) :
    (∀ version pages final last, Reading version ledger none pages final last →
      (last.addresses version).Pairwise (· < ·) ∧
      (∃ rest, pages.flatten ++ rest = last.addresses version ∧ (final = none ↔ rest = [])) ∧
      pages.length ≤ (last.addresses version).length + 1) ∧
    (∀ ops' ledger', Run Step ledger ops' ledger' → ∀ row ∈ ledger.rows, ∀ row' ∈ ledger'.rows,
      ∀ epoch, row.setEpoch = some epoch → row'.setEpoch = some epoch →
        row.version = row'.version ∧
          ledger.addresses row.version = ledger'.addresses row'.version) ∧
    (∀ row ∈ ledger.rows, row.blockerCount = some (ledger.addresses row.version).length) ∧
    ((∀ op ∈ ops, Names op) → ∀ version, version < 2 ^ 63 → ∀ size cursor,
      Within BaseError.RefusesPage (fun receipt => receipt.blockers.isSome = true)
        (ledger.updateReceiptPage version size cursor)) := by
  have h := regular_of_run (regular_fresh schemaGeneration) hrun
  refine ⟨?_, ?_, fun row hrow => (h.kept.rows row hrow).counted, ?_⟩
  · intro version pages final last hreading
    obtain ⟨epoch, rest, hbegun, hpages, hfinal⟩ := pages_of_reading hreading h
    have hall := hpages.flatten
    rw [drop_zero] at hall
    refine ⟨?_, ⟨_, hall, ?_⟩, hpages.length_le⟩
    · exact addresses_pairwise (regular_of_reading hreading h).kept.nodup version
    · rw [hfinal, cursorText_eq_none]
      cases rest with
      | none => simp
      | some k =>
        have := hpages.final_lt k rfl
        simp [drop_eq_nil_iff, this]
  · intro ops' ledger' hrun' row hrow row' hrow' epoch hepoch hepoch'
    have hsame := h.kept.orderly.same (Shelf.follows_of_writes (writes_of_run h hrun'))
      (mem_shelf_of_row hrow hepoch) (mem_shelf_of_row hrow' hepoch') rfl
    exact ⟨congrArg Edition.key hsame, congrArg Edition.content hsame⟩
  · intro hnames version hstorable size cursor
    have hreadable := readable_of_run (readable_fresh schemaGeneration) hnames hrun
    refine (updateReceiptPage_within h.kept version size cursor).mono ?_ ?_
    · exact fun refusal hrefuses => hrefuses hreadable.canonical hstorable
    · rintro receipt ⟨-, resumed, page, -, -, hblockers, -⟩
      rw [hblockers]
      rfl

/-! ### A delta without a name -/

def briefUnder (deltaId : String) : DeltaCandidate :=
  ⟨deltaId, 0, ⟨.instruction "Be brief.", some (.purpose "plan")⟩, "seen"⟩

/-- The ledger that holds one candidate under an id. -/
def recordedUnder (deltaId : String) : Ledger :=
  { fresh 0 with
    learning := ⟨[⟨deltaId, 0, ⟨.instruction "Be brief.", some (.purpose "plan")⟩, "seen",
      .inactive, 1⟩], []⟩ }

def firstInstall : BaseInstall :=
  ⟨1, "digest", "config.toml", "workspace", "policy", some ⟨[], [], .nil⟩⟩

def firstAssets : List (UpdateAsset × String) := [(.configFile, "config.toml")]

def firstRow : BaseRow := ⟨1, "digest", .staged, none, some 1, none, none, some 2⟩

/-- The base that is staged beside the candidate and that declares no purpose for it. -/
def stagedUnder (deltaId : String) : Ledger :=
  { recordedUnder deltaId with
    rows := [firstRow]
    receipts := [⟨1, .configFile, "config.toml", .mergeByMeaning⟩]
    blockers := [⟨1, blockerAddress "learning" deltaId "condition_json"⟩]
    nextEpoch := 2 }

theorem stagedUnder_step (deltaId : String) :
    (recordedUnder deltaId).Step (.stage firstInstall firstAssets) (stagedUnder deltaId) := by
  refine ⟨trivial, ?_⟩
  simp [perform, stageBaseOn, stageOffered, inState, recordedUnder, fresh, allocateSetEpoch,
    insertBase, TaskStore.storedU64, storing, Except.mapError, Ledger.row, rowAt, firstInstall,
    writeReceipt, firstAssets, classify, sealBlockersOn, blocklessAddresses, unplacedRecords,
    unplacedBindings, rotateEpoch, replaceSet, updateRow, addresses, insertBlocker,
    backfillSetEpoch, stagedUnder, firstRow, UpdateAsset.policy]

theorem nameless_run : Run Step (fresh 0)
    [.learn (.record (briefUnder "")), .stage firstInstall firstAssets] (stagedUnder "") :=
  .cons ⟨trivial, rfl⟩ (.single (stagedUnder_step ""))

theorem named_run : Run Step (fresh 0)
    [.learn (.record (briefUnder "brief")), .stage firstInstall firstAssets]
    (stagedUnder "brief") :=
  .cons ⟨trivial, rfl⟩ (.single (stagedUnder_step "brief"))

/-- The address that the seal wrote for the empty id is corrupt to every read. -/
theorem stagedUnder_read :
    (stagedUnder "").updateReceiptPage 1 20 none = .error (.store .storage) := by
  have hrow : (stagedUnder "").row 1 = some firstRow := rfl
  have hrows : (stagedUnder "").rows = [firstRow] := rfl
  have hblockers : (stagedUnder "").blockers =
      [⟨1, blockerAddress "learning" "" "condition_json"⟩] := rfl
  have haddresses : (stagedUnder "").addresses 1 =
      [blockerAddress "learning" "" "condition_json"] := by
    simp [addresses, hblockers]
  have hcorrupt :
      canonicalBlockerAddress (blockerAddress "learning" "" "condition_json") = false := by
    rw [canonical_blockerAddress (.inl rfl) (by decide)]
    rfl
  have hmetadata : (stagedUnder "").baseRowMetadata firstRow = .error (.store .storage) := by
    simp [baseRowMetadata, milestoneShape, firstRow, haddresses, hcorrupt, hblockers, hrows]
  simp [updateReceiptPage, checkedPageSize, PAGE_MAX, resumedCursor, receiptPageOn,
    TaskStore.storedU64, storing, Except.mapError, hrow, hmetadata]

theorem nameless_delta_blocks_every_read :
    ¬ ∀ ops ledger, Run Step (fresh 0) ops ledger → ∀ version, version < 2 ^ 63 → ∀ size cursor,
      Within BaseError.RefusesPage (fun receipt => receipt.blockers.isSome = true)
        (ledger.updateReceiptPage version size cursor) := by
  intro hclaim
  have := hclaim _ _ nameless_run 1 (by decide) 20 none
  rw [stagedUnder_read] at this
  exact this

theorem named_delta_blocks_no_read :
    Within BaseError.RefusesPage (fun receipt => receipt.blockers.isSome = true)
      ((stagedUnder "brief").updateReceiptPage 1 20 none) :=
  (pages_are_one_set named_run).2.2.2 (by simp [Names, briefUnder]) 1 (by decide)
    20 none

end Ledger

end Rivect.Base
