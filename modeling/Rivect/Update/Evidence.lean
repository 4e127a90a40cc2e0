import Rivect.Lib.Effects
import Rivect.Update.Record

/-! # The evidence store

The directory `reports/update` as `EvidenceStore` of `src/update.rs` keeps it: its records in the
order of their write times, and the calls that write, prune and settle them. Each read, removal and
replacement is one effect of a call.
-/

namespace Rivect.Update

open Lib List

/-- A record file: its name, its write time, its size and what it holds. -/
structure Row where
  name : RecordName
  written : ℕ
  bytes : ℕ
  record : UpdateEvidence
deriving DecidableEq

/-- The record files, oldest first; `clock` is the time that the next replacement gets. -/
structure Directory where
  rows : List Row
  clock : ℕ
  names : (rows.map Row.name).Nodup
  ordered : rows.Pairwise fun older newer => older.written < newer.written
  past : ∀ row ∈ rows, row.written < clock

structure Stored where
  name : RecordName
  written : ℕ
  bytes : ℕ
deriving DecidableEq

structure Settlement where
  resolved : ℕ
  decoded : ℕ
deriving DecidableEq

namespace Directory

def row (dir : Directory) (name : RecordName) : Option Row := dir.rows.find? (·.name = name)

def listing (dir : Directory) : List Stored :=
  dir.rows.map fun row => ⟨row.name, row.written, row.bytes⟩

def remove (dir : Directory) (name : RecordName) : Directory where
  rows := dir.rows.filter (·.name ≠ name)
  clock := dir.clock
  names := dir.names.sublist (filter_sublist.map Row.name)
  ordered := dir.ordered.filter _
  past row hrow := dir.past row (mem_of_mem_filter hrow)

theorem mem_remove {dir : Directory} {name : RecordName} {row : Row} :
    row ∈ (dir.remove name).rows ↔ row ∈ dir.rows ∧ row.name ≠ name := by
  simp [remove]

/-- The file of a name takes its new bytes and becomes the newest. -/
def replace (dir : Directory) (name : RecordName) (bytes : ℕ) (record : UpdateEvidence) :
    Directory where
  rows := (dir.remove name).rows ++ [⟨name, dir.clock, bytes, record⟩]
  clock := dir.clock + 1
  names := by
    rw [map_append, map_singleton, nodup_append]
    refine ⟨(dir.remove name).names, nodup_singleton _, ?_⟩
    intro other hother _ hname hsame
    obtain ⟨row, hrow, rfl⟩ := mem_map.mp hother
    rw [mem_singleton] at hname
    exact (mem_remove.mp hrow).2 (hsame.trans hname)
  ordered := by
    rw [pairwise_append]
    refine ⟨(dir.remove name).ordered, pairwise_singleton .., ?_⟩
    intro row hrow newest hnewest
    rw [mem_singleton.mp hnewest]
    exact (dir.remove name).past row hrow
  past row hrow := by
    rcases mem_append.mp hrow with hold | hnew
    · exact Nat.lt_succ_of_lt ((dir.remove name).past row hold)
    · rw [mem_singleton.mp hnew]
      exact Nat.lt_succ_self _

theorem mem_replace {dir : Directory} {name : RecordName} {bytes : ℕ} {record : UpdateEvidence}
    {row : Row} : row ∈ (dir.replace name bytes record).rows ↔
      (row ∈ dir.rows ∧ row.name ≠ name) ∨ row = ⟨name, dir.clock, bytes, record⟩ := by
  simp only [replace, mem_append, mem_remove, mem_singleton]

end Directory

namespace EvidenceStore

/-! ## Reading -/

def stored : Prog Directory UpdateError (List Stored) :=
  Prog.observe .reserve fun dir => .ok dir.listing

/-- The checks of a record that is read back. -/
def decoded (row : Row) : Except UpdateError UpdateEvidence := do
  require (row.bytes ≤ EVIDENCE_MAX_BYTES) (.record "the record exceeds its byte bound")
  validate row.record
  .ok row.record

def read (name : RecordName) : Prog Directory UpdateError UpdateEvidence :=
  Prog.observe .read fun dir => found (dir.row name) .read >>= decoded

/-- The newest success among the entries, newest first, and how many were decoded. -/
def newestSuccessOf : List (Stored × ℕ) → ℕ → Prog Directory UpdateError (Option ℕ × ℕ)
  | [], decoded => pure (none, decoded)
  | (entry, index) :: older, decoded => do
    let record ← read entry.name
    if record.terminal = .success then pure (some index, decoded + 1)
    else newestSuccessOf older (decoded + 1)

def newestSuccess (stored : List Stored) : Prog Directory UpdateError (Option ℕ × ℕ) :=
  newestSuccessOf stored.zipIdx.reverse 0

/-- The entries, newest first, that carry a cause for the first time. -/
def newestCarriersOf : List Stored → List Failure → List RecordName →
    Prog Directory UpdateError (List RecordName)
  | [], _, carriers => pure carriers
  | entry :: older, causes, carriers => do
    let record ← read entry.name
    match record.firstFailure with
    | none => newestCarriersOf older causes carriers
    | some cause =>
      if cause ∈ causes then newestCarriersOf older causes carriers
      else newestCarriersOf older (causes ++ [cause]) (carriers ++ [entry.name])

def newestCarriers (stored : List Stored) : Prog Directory UpdateError (List RecordName) :=
  newestCarriersOf stored.reverse [] []

/-- Whether the newest unresolved record was offered the same base. -/
def continuesOf (offeredBase : Option ℕ) : List Stored → Prog Directory UpdateError Bool
  | [] => pure false
  | entry :: older => do
    let record ← read entry.name
    if record.resolved = true ∨ record.terminal = .success then continuesOf offeredBase older
    else pure (decide (record.offeredBase = offeredBase))

def continuesUnresolved (offeredBase : Option ℕ) : Prog Directory UpdateError Bool := do
  let entries ← stored
  continuesOf offeredBase entries.reverse

/-! ## Pruning -/

def totalBytes (stored : List Stored) : ℕ := (stored.map Stored.bytes).sum

/-- What a pruning pass may still remove and what it has kept. -/
structure Pass where
  remaining : ℕ
  total : ℕ
  kept : ℕ
  removed : ℕ
deriving DecidableEq

def Pass.withinBounds (pass : Pass) (count : ℕ) : Prop :=
  pass.remaining ≤ count ∧ pass.total ≤ EVIDENCE_MAX_TOTAL_BYTES

instance (pass : Pass) (count : ℕ) : Decidable (pass.withinBounds count) := by
  unfold Pass.withinBounds
  infer_instance

/-- The removal walk, oldest first: past the newest success, the records just settled and the
newest carriers, it removes what is resolved or a success, and stops at the bounds or when it has
kept as many records as they allow. -/
def pruneEntries (count : ℕ) (success : Option ℕ) (settled carriers : List RecordName) :
    List (Stored × ℕ) → Pass → Prog Directory UpdateError Pass
  | [], walked => pure walked
  | (entry, index) :: newer, walked =>
    if walked.withinBounds count then pure walked
    else if some index = success ∨ entry.name ∈ settled ∨ entry.name ∈ carriers then
      pruneEntries count success settled carriers newer walked
    else do
      let record ← read entry.name
      if record.resolved = true ∨ record.terminal = .success then
        Prog.effect .write (·.remove entry.name)
        pruneEntries count success settled carriers newer
          { walked with
            remaining := walked.remaining - 1
            total := walked.total - entry.bytes
            removed := walked.removed + 1 }
      else if walked.kept + 1 ≥ EVIDENCE_MAX_RECORDS then
        pure { walked with kept := walked.kept + 1 }
      else pruneEntries count success settled carriers newer { walked with kept := walked.kept + 1 }

def pruneStored (stored : List Stored) (count : ℕ) (success : Option ℕ)
    (settled : List RecordName) : Prog Directory UpdateError ℕ :=
  let pass : Pass := ⟨stored.length, totalBytes stored, 0, 0⟩
  if pass.withinBounds count then pure 0
  else do
    let carriers ← newestCarriers stored
    let ended ← pruneEntries count success settled carriers stored.zipIdx pass
    pure ended.removed

def pruneTo (count : ℕ) : Prog Directory UpdateError ℕ := do
  let entries ← stored
  let (success, _) ← newestSuccess entries
  pruneStored entries count success []

def prune : Prog Directory UpdateError ℕ := pruneTo EVIDENCE_MAX_RECORDS

/-! ## Writing and settling -/

-- the length of a record's bytes, as its encoder writes them
variable (size : UpdateEvidence → ℕ)

/-- A saturated directory admits a new attempt only where it continues the newest unresolved. -/
def admitWrite (evidence : UpdateEvidence) (replacing : Bool) (entries : List Stored) :
    Prog Directory UpdateError Unit :=
  if replacing then pure ()
  else if entries.length ≥ EVIDENCE_MAX_RECORDS ∨
      totalBytes entries + size evidence > EVIDENCE_MAX_TOTAL_BYTES then do
    let continues ← continuesUnresolved evidence.offeredBase
    if continues then pure () else Prog.fail .saturated
  else pure ()

def write (evidence : UpdateEvidence) : Prog Directory UpdateError RecordName := do
  Prog.ofExcept (validate evidence)
  Prog.ofExcept (require (size evidence ≤ EVIDENCE_MAX_BYTES)
    (.record "the record exceeds its byte bound"))
  let name ← Prog.ofExcept (recordName evidence.attemptId)
  let before ← stored
  let replacing := before.any (·.name = name)
  let _ ← pruneTo (if replacing then EVIDENCE_MAX_RECORDS else EVIDENCE_MAX_RECORDS - 1)
  let entries ← stored
  admitWrite size evidence replacing entries
  Prog.effect .write (·.replace name (size evidence) evidence)
  pure name

/-- The entries that a success supersedes are rewritten as resolved. -/
def settleEntries : List Stored → List RecordName → ℕ →
    Prog Directory UpdateError (List RecordName × ℕ)
  | [], settled, decoded => pure (settled, decoded)
  | entry :: newer, settled, decoded => do
    let record ← read entry.name
    if record.resolved then settleEntries newer settled (decoded + 1)
    else do
      let resolved := { record with resolved := true }
      Prog.effect .write (·.replace entry.name (size resolved) resolved)
      settleEntries newer (settled ++ [entry.name]) (decoded + 1)

def settleSuccess : Prog Directory UpdateError Settlement := do
  let entries ← stored
  let (success, decoded) ← newestSuccess entries
  match success with
  | none => pure ⟨0, decoded⟩
  | some index => do
    let (settled, decoded) ← settleEntries size (entries.take index) [] decoded
    let _ ← pruneStored entries EVIDENCE_MAX_RECORDS success settled
    pure ⟨settled.length, decoded⟩

end EvidenceStore

end Rivect.Update
