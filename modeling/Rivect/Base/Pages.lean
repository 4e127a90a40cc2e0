import Rivect.Base.Ledger

/-! # Reading the base ledger

The receipt of one base at one page of its blocker set, with the textual cursor that links two
pages, and the status that names the base that serves.
-/

namespace Rivect.Base

open Lib

def PAGE_DEFAULT : ℕ := 20

def PAGE_MAX : ℕ := 200

/-! ## The cursor -/

/-- The decimal text of an unsigned 64-bit integer. -/
def parseU64 (text : List Char) : Option ℕ :=
  let digits := match text with
    | [] => []
    | c :: rest => if c = '+' then rest else c :: rest
  if digits ≠ [] ∧ digits.all Char.isDigit ∧ Nat.ofDigitChars 10 digits 0 < 2 ^ 64 then
    some (Nat.ofDigitChars 10 digits 0)
  else none

def formatBlockerCursor (version epoch offset : ℕ) : String :=
  String.ofList ([':'].intercalate ["blk".toList, Nat.toDigits 10 version, Nat.toDigits 10 epoch,
    "offset".toList, Nat.toDigits 10 offset])

def parseBlockerCursor (cursor : String) : Except BaseError (ℕ × ℕ × ℕ) :=
  match cursor.toList.splitOn ':' with
  | [] | [_] => .error (.invalidPage "a cursor must start with blk:")
  | lead :: parts => do
    require (lead = "blk".toList) (.invalidPage "a cursor must start with blk:")
    match parts with
    | [version, epoch, tag, offset] => do
      require (tag = "offset".toList)
        (.invalidPage "a cursor is blk:<base_version>:<set_epoch>:offset:<offset>")
      let version ← found (parseU64 version)
        (.invalidPage "the cursor base version is not a decimal integer")
      let epoch ← found (parseU64 epoch)
        (.invalidPage "the cursor set epoch is not a decimal integer")
      let offset ← found (parseU64 offset)
        (.invalidPage "the cursor offset is not a decimal integer")
      require (offset < 2 ^ 63)
        (.invalidPage "the cursor offset is past the storable range")
      .ok (version, epoch, offset)
    | _ => .error (.invalidPage "a cursor is blk:<base_version>:<set_epoch>:offset:<offset>")

def blockerCursorFor (cursor : String) (requestedBase : ℕ) : Except BaseError (ℕ × ℕ) := do
  let parsed ← parseBlockerCursor cursor
  require (parsed.1 = requestedBase) (.invalidPage
    ("the cursor names another base version than the request does; request the base the cursor " ++
      "names, or restart from the first page"))
  .ok parsed.2

theorem isDigit_of_mem_toDigits {n : ℕ} {c : Char} (h : c ∈ Nat.toDigits 10 n) :
    c.isDigit = true := Nat.isDigit_of_mem_toDigits (by omega) le_rfl h

theorem parseU64_toDigits {n : ℕ} (h : n < 2 ^ 64) : parseU64 (Nat.toDigits 10 n) = some n := by
  have hvalue : Nat.ofDigitChars 10 (Nat.toDigits 10 n) 0 = n := by simp
  have hdigits : (Nat.toDigits 10 n).all Char.isDigit = true :=
    List.all_eq_true.mpr fun c hc => isDigit_of_mem_toDigits hc
  cases htext : Nat.toDigits 10 n with
  | nil => exact absurd htext Nat.toDigits_ne_nil
  | cons c rest =>
    have hplus : c ≠ '+' := by
      rintro rfl
      have := isDigit_of_mem_toDigits (n := n) (c := '+') (by simp [htext])
      exact absurd this (by decide)
    rw [htext] at hvalue hdigits
    unfold parseU64
    simp only [hplus, if_false]
    rw [if_pos ⟨by simp, hdigits, hvalue.symm ▸ h⟩, hvalue]

theorem colon_notMem_toDigits (n : ℕ) : ':' ∉ Nat.toDigits 10 n := by
  intro h
  exact absurd (isDigit_of_mem_toDigits h) (by decide)

theorem blockerCursorFor_format {version epoch offset : ℕ} (hversion : version < 2 ^ 64)
    (hepoch : epoch < 2 ^ 64) (hoffset : offset < 2 ^ 63) :
    blockerCursorFor (formatBlockerCursor version epoch offset) version =
      .ok (epoch, offset) := by
  have hsplit : (formatBlockerCursor version epoch offset).toList.splitOn ':' =
      ["blk".toList, Nat.toDigits 10 version, Nat.toDigits 10 epoch, "offset".toList,
        Nat.toDigits 10 offset] := by
    unfold formatBlockerCursor
    rw [String.toList_ofList]
    apply List.splitOn_intercalate
    · simp only [List.mem_cons, List.not_mem_nil, or_false, forall_eq_or_imp, forall_eq]
      exact ⟨by decide, colon_notMem_toDigits _, colon_notMem_toDigits _, by decide,
        colon_notMem_toDigits _⟩
    · simp
  have hoffset' : offset < 2 ^ 64 := hoffset.trans (by decide)
  unfold blockerCursorFor parseBlockerCursor
  rw [hsplit]
  simp only [require_pos, ok_bind, parseU64_toDigits hversion, parseU64_toDigits hepoch,
    parseU64_toDigits hoffset', found_some, hoffset]

/-! ## One page -/

structure BlockerPage where
  addresses : List String
  epoch : ℕ
  offset : ℕ
  more : Bool
deriving DecidableEq

structure Page where
  items : List String
  nextCursor : Option String
  snapshotGeneration : ℕ
deriving DecidableEq

structure UpdateReceipt where
  document : BaseDocument
  state : UpdateState
  assets : List ReceiptAsset
  identity : IdentityRebind
  phase : Option UpdatePhase
  blockers : Option Page
  schemaGeneration : Option ℕ
  policyGeneration : Option String
deriving DecidableEq

def checkedPageSize (pageSize : ℕ) : Except BaseError ℕ := do
  require (1 ≤ pageSize ∧ pageSize ≤ PAGE_MAX)
    (.invalidPage "the page size is outside the range this store serves")
  .ok pageSize

namespace Ledger

/-- Only an activated base carries a phase and its generations. -/
def milestoneShape (row : BaseRow) : Prop :=
  match row.state with
  | .staged => row.phase = none ∧ row.schemaGeneration = none ∧ row.policyGeneration = none
  | .active | .retired => row.phase = some .activated ∧ row.schemaGeneration.isSome = true ∧
      row.policyGeneration.isSome = true

instance (row : BaseRow) : Decidable (milestoneShape row) := by
  unfold milestoneShape
  cases row.state <;> infer_instance

/-- The metadata of a row agrees with its state, and the blocker rows with the metadata. -/
def baseRowMetadata (ledger : Ledger) (row : BaseRow) : Except BaseError Unit := do
  require (∀ policy ∈ row.policyGeneration, policyGenerationShape policy = true) (.store .storage)
  match row.blockerCount with
  | none =>
    require (row.phase = none ∧ row.schemaGeneration = none ∧ row.policyGeneration = none ∧
      row.setEpoch = none) (.store .storage)
  | some count => do
    require (row.setEpoch.isSome = true) (.store .storage)
    require (milestoneShape row) (.store .storage)
    require (∀ blocker ∈ ledger.blockers, ∃ held ∈ ledger.rows, held.version = blocker.version)
      (.store .storage)
    require (∀ address ∈ ledger.addresses row.version, canonicalBlockerAddress address = true)
      (.store .storage)
    require (count = (ledger.addresses row.version).length) (.store .storage)

/-- The offset that a cursor resumes at, where the set is the one it was minted for. -/
def resumedOffset (version epoch : ℕ) : Option (ℕ × ℕ) → Except BaseError ℕ
  | none => .ok 0
  | some (requested, offset) => do
    require (requested = epoch) (.blockerSetMoved version requested epoch)
    storing (TaskStore.storedU64 offset)

/-- One row past the page tells whether there is a next page. -/
def pageAt (addresses : List String) (count epoch limit offset : ℕ) :
    Except BaseError BlockerPage := do
  let rows := (addresses.drop offset).take (limit + 1)
  let addresses := rows.take limit
  require (¬ (count < offset ∨ count < offset + addresses.length)) (.invalidPage
    "the cursor offset is past the rows this set holds; restart from the first page")
  .ok ⟨addresses, epoch, offset, limit < rows.length⟩

def blockerPageOn (ledger : Ledger) (version limit : ℕ) (cursor : Option (ℕ × ℕ)) :
    Except BaseError BlockerPage := do
  let version ← storing (TaskStore.storedU64 version)
  match ledger.row version with
  | some ⟨_, _, _, _, some count, _, _, some epoch⟩ => do
    let offset ← resumedOffset version epoch cursor
    pageAt (ledger.addresses version) count epoch limit offset
  | _ =>
    .error (cursor.elim (.receiptMissing version) fun requested =>
      .blockerSetGone version requested.1)

end Ledger

def blockerPage (page : BlockerPage) (version : ℕ) : Page :=
  ⟨page.addresses,
    if page.more then
      some (formatBlockerCursor version page.epoch (page.offset + page.addresses.length))
    else none, version⟩

namespace Ledger

/-- A row that records no set answers no page. -/
def recordedPage (ledger : Ledger) (row : BaseRow) (version limit : ℕ)
    (cursor : Option (ℕ × ℕ)) : Except BaseError (Option Page) :=
  match row.blockerCount with
  | none => .ok none
  | some _ => do
    let page ← ledger.blockerPageOn version limit cursor
    .ok (some (blockerPage page version))

/-- The receipt of a base, where the ledger holds the base. -/
def receiptPageOn (ledger : Ledger) (version limit : ℕ) (cursor : Option (ℕ × ℕ)) :
    Except BaseError (Option UpdateReceipt) := do
  let version ← storing (TaskStore.storedU64 version)
  match ledger.row version with
  | none => .ok none
  | some row => do
    ledger.baseRowMetadata row
    let assets := ledger.receipts.filter (·.version = version)
    require (assets ≠ []) (.receiptMissing version)
    let blockers ← ledger.recordedPage row version limit cursor
    .ok (some ⟨⟨row.version, row.digest⟩, row.state, assets,
      ⟨version, ledger.migrationsFor version, [], []⟩, row.phase, blockers,
      row.schemaGeneration, row.policyGeneration⟩)

def updateReceipt (ledger : Ledger) (version : ℕ) : Except BaseError UpdateReceipt := do
  let receipt ← ledger.receiptPageOn version PAGE_DEFAULT none
  found receipt (.receiptMissing version)

def resumedCursor (version : ℕ) : Option String → Except BaseError (Option (ℕ × ℕ))
  | none => .ok none
  | some cursor => do
    let resumed ← blockerCursorFor cursor version
    .ok (some resumed)

def updateReceiptPage (ledger : Ledger) (version pageSize : ℕ) (cursor : Option String) :
    Except BaseError UpdateReceipt := do
  let pageSize ← checkedPageSize pageSize
  let cursor ← resumedCursor version cursor
  let receipt ← ledger.receiptPageOn version pageSize cursor
  found receipt (.receiptMissing version)

structure GenerationTuple where
  schema : ℕ
  base : Option ℕ
  policy : Option String
deriving DecidableEq

/-- The newest base that the ledger holds. -/
def newest (ledger : Ledger) : Option ℕ := (ledger.rows.map BaseRow.version).max?

def newestReceipt (ledger : Ledger) : Except BaseError (Option UpdateReceipt) :=
  match ledger.newest with
  | none => .ok none
  | some version => ledger.receiptPageOn version PAGE_DEFAULT none

/-- A page that is refused is reported inside the status. -/
def statusPage (ledger : Ledger) (serving : Option ℕ) : Except BaseError Unit :=
  match serving.bind fun version => ledger.row version with
  | some ⟨version, _, _, _, some _, _, _, _⟩ =>
    match ledger.blockerPageOn version PAGE_DEFAULT none with
    | .ok _ | .error (.invalidPage _) | .error (.blockerSetMoved ..)
    | .error (.blockerSetGone ..) => .ok ()
    | .error refusal => .error refusal
  | _ => .ok ()

/-- The tuple that a status read at its default page answers. -/
def generationTuple (ledger : Ledger) : Except BaseError GenerationTuple := do
  let serving := (ledger.inState .active).map BaseDocument.version
  let receipt ← ledger.newestReceipt
  ledger.statusPage serving
  .ok ⟨ledger.schemaGeneration, serving, receipt.bind UpdateReceipt.policyGeneration⟩

end Ledger

end Rivect.Base
