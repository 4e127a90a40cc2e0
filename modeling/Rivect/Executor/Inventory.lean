import Mathlib.Data.List.Sort
import Rivect.Lib.Fallible
import Rivect.Lib.Spelling
import Rivect.Lib.Utf8

/-! # The bounded inventory of a workspace

`inventory_under` of `src/executor.rs`: the walk over a workspace tree, its entries in path order,
and the text that their digest is taken of. A name is the bytes that a directory holds for it.
-/

namespace Rivect.Executor

open Lib Utf8

def INVENTORY_FILE_MAX_BYTES : ℕ := 16 * 1024 * 1024
def INVENTORY_TREE_MAX_BYTES : ℕ := 256 * 1024 * 1024
def INVENTORY_MAX_ENTRIES : ℕ := 20000
def INVENTORY_MAX_DEPTH : ℕ := 48

abbrev Bytes := List UInt8

/-- `'/'`. -/
def SLASH : UInt8 := 0x2f

def NEWLINE : UInt8 := 0x0a

/-- The name of a directory entry. -/
structure Name where
  bytes : Bytes
  named : bytes ≠ [] ∧ SLASH ∉ bytes
deriving DecidableEq

theorem Name.ext_bytes {a b : Name} (h : a.bytes = b.bytes) : a = b := by
  cases a
  cases b
  cases h
  rfl

/-- A path below the root, as its components. -/
abbrev Rel := List Name

def Rel.bytes (rel : Rel) : List Bytes := rel.map Name.bytes

/-- The byte order of names. -/
def bytesLe : Bytes → Bytes → Bool := lexLe fun a b => decide (a ≤ b)

/-- The order of paths, component by component. -/
def Rel.le (a b : Rel) : Bool := lexLe bytesLe (Rel.bytes a) (Rel.bytes b)

def Rel.display (rel : Rel) : Bytes := joined SLASH (Rel.bytes rel)

mutual

/-- What a path of the workspace names. -/
inductive Node where
  | file (links : ℕ) (bytes : Bytes)
  | directory (children : Children)
  | symlink (target : Bytes)
  | special (mode : ℕ)

/-- The entries of a directory as it lists them. -/
inductive Children where
  | nothing
  | entry (name : Name) (node : Node) (rest : Children)

end

inductive InventoryKind where
  | file (digest : Bytes)
  | directory
  | symlink (target : Bytes)
deriving DecidableEq

structure InventoryEntry where
  rel : Rel
  kind : InventoryKind
deriving DecidableEq

inductive InventoryError where
  | hardLink (rel : Rel) (nlink : ℕ)
  | special (rel : Rel) (kind : ℕ)
  | nonUtf8 (rel : Rel)
  | fileTooLarge (rel : Rel) (size : ℕ)
  | treeTooLarge (size : ℕ)
  | tooManyEntries (count : ℕ)
  | tooDeep (rel : Rel)
  | badSymlink (rel : Rel)
  | denied (rel : Rel)
  | walk (rel : Rel)
deriving DecidableEq

structure WorkspaceInventory where
  entries : List InventoryEntry
  digest : Bytes
deriving DecidableEq

/-- The entries so far and the bytes of their files. -/
structure Walked where
  entries : List InventoryEntry
  totalBytes : ℕ

/-- The paths that a deny covers and those that cannot be read. -/
structure Guards where
  denied : Rel → Bool
  unreadable : Rel → Bool

/-- `sha` is the hash; two digits for each byte of what it answers. -/
def hexDigit (n : UInt8) : UInt8 := if n < 10 then 0x30 + n else 0x57 + n

def hex (bytes : Bytes) : Bytes := bytes.flatMap fun b => [hexDigit (b / 16), hexDigit (b % 16)]

variable (sha : Bytes → Bytes) (guards : Guards)

def inventorySymlink (rel : Rel) (target : Bytes) (walked : Walked) :
    Except InventoryError Walked := do
  require (rel ≠ []) (.badSymlink rel)
  require (guards.unreadable rel = false) (.walk rel)
  require (isUtf8 target = true) (.badSymlink rel)
  require (target.head? ≠ some SLASH) (.badSymlink rel)
  .ok { walked with entries := walked.entries ++ [⟨rel, .symlink target⟩] }

def inventoryFile (rel : Rel) (bytes : Bytes) (walked : Walked) : Except InventoryError Walked := do
  require (bytes.length ≤ INVENTORY_FILE_MAX_BYTES) (.fileTooLarge rel bytes.length)
  let total := walked.totalBytes + bytes.length
  require (total ≤ INVENTORY_TREE_MAX_BYTES) (.treeTooLarge total)
  require (guards.unreadable rel = false) (.walk rel)
  .ok ⟨walked.entries ++ [⟨rel, .file (hex (sha bytes))⟩], total⟩

/-- What a walk of a child does, by its path and its depth. -/
abbrev Walker := Rel → ℕ → Walked → Except InventoryError Walked

/-- The names of a directory in byte order; one that is not UTF-8 refuses the whole walk. -/
def sortedChildNames {α : Type} (rel : Rel) (children : List (Name × α)) :
    Except InventoryError (List (Name × α)) :=
  let sorted := children.insertionSort fun a b => bytesLe a.1.bytes b.1.bytes = true
  match sorted.find? fun child => !isUtf8 child.1.bytes with
  | some child => .error (.nonUtf8 (rel ++ [child.1]))
  | none => .ok sorted

def walkChildren (rel : Rel) (depth : ℕ) (children : List (Name × Walker)) (walked : Walked) :
    Except InventoryError Walked :=
  children.foldlM (fun walked child => child.2 (rel ++ [child.1]) (depth + 1) walked) walked

/-- The checks of a path before anything of it is read. -/
def consulted (rel : Rel) (depth : ℕ) (walked : Walked) : Except InventoryError Unit := do
  require (depth ≤ INVENTORY_MAX_DEPTH) (.tooDeep rel)
  require (walked.entries.length < INVENTORY_MAX_ENTRIES) (.tooManyEntries walked.entries.length)
  require (rel.getLast?.all (isUtf8 ·.bytes) = true) (.nonUtf8 rel)
  require (guards.denied rel = false) (.denied rel)
  require (guards.unreadable rel = false) (.walk rel)

mutual

def inventoryWalk : Node → Walker
  | .file links bytes => fun rel depth walked => do
    consulted guards rel depth walked
    require (links ≤ 1) (.hardLink rel links)
    inventoryFile sha guards rel bytes walked
  | .directory children => fun rel depth walked => do
    consulted guards rel depth walked
    let listed := { walked with entries := walked.entries ++ [⟨rel, .directory⟩] }
    let sorted ← sortedChildNames rel (walkers children)
    walkChildren rel depth sorted listed
  | .symlink target => fun rel depth walked => do
    consulted guards rel depth walked
    inventorySymlink guards rel target walked
  | .special mode => fun rel depth walked => do
    consulted guards rel depth walked
    .error (.special rel mode)

def walkers : Children → List (Name × Walker)
  | .nothing => []
  | .entry name node rest => (name, inventoryWalk node) :: walkers rest

end

/-! ## The digest -/

def text (s : String) : Bytes := s.toList.map fun c => UInt8.ofNat c.toNat

/-- The fields of an entry in the text that is hashed. -/
def InventoryEntry.fields (entry : InventoryEntry) : List Bytes :=
  match entry.kind with
  | .file digest => [text "f ", Rel.display entry.rel, text "\n", digest, text "\n"]
  | .directory => [text "d ", Rel.display entry.rel, text "\n"]
  | .symlink target => [text "l ", Rel.display entry.rel, text " -> ", target, text "\n"]

def InventoryEntry.line (entry : InventoryEntry) : Bytes := entry.fields.flatten

def sortedEntries (entries : List InventoryEntry) : List InventoryEntry :=
  entries.insertionSort fun a b => Rel.le a.rel b.rel = true

def inventoryUnder (root : Node) : Except InventoryError WorkspaceInventory := do
  let walked ← inventoryWalk sha guards root [] 0 ⟨[], 0⟩
  let entries := sortedEntries walked.entries
  .ok ⟨entries, hex (sha (entries.flatMap InventoryEntry.line))⟩

end Rivect.Executor
