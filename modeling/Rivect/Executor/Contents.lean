import Mathlib.Data.List.Perm.Basic
import Rivect.Executor.Inventory

/-! # What an inventory digest identifies

An accepted tree is its entries; equal digests are equal texts, and equal texts are equal trees
where the fields of the two texts have the same lengths.
-/

namespace Rivect.Executor

open Lib List

/-! ## The contents of a tree -/

/-- What a tree holds at a path. -/
inductive Content where
  | file (bytes : Bytes)
  | directory
  | symlink (target : Bytes)

mutual

/-- Every path of a tree with what it holds. -/
def Node.contents : Node → Rel → List (Rel × Content)
  | .file _ bytes, rel => [(rel, .file bytes)]
  | .directory children, rel => (rel, .directory) :: children.contents rel
  | .symlink target, rel => [(rel, .symlink target)]
  | .special _, _ => []

def Children.contents : Children → Rel → List (Rel × Content)
  | .nothing, _ => []
  | .entry name node rest, rel => node.contents (rel ++ [name]) ++ rest.contents rel

end

def Children.toList : Children → List (Name × Node)
  | .nothing => []
  | .entry name node rest => (name, node) :: rest.toList

mutual

/-- No directory lists a name twice. -/
def Node.Listed : Node → Prop
  | .directory children => (children.toList.map Prod.fst).Nodup ∧ children.Listed
  | _ => True

def Children.Listed : Children → Prop
  | .nothing => True
  | .entry _ node rest => node.Listed ∧ rest.Listed

end

/-- A workspace: the tree below its root. -/
structure Workspace where
  root : Node
  listed : root.Listed

def Workspace.contents (workspace : Workspace) : List (Rel × Content) :=
  workspace.root.contents []

/-- The same paths with the same kinds, bytes and targets. -/
def Workspace.Same (a b : Workspace) : Prop := ∀ held, held ∈ a.contents ↔ held ∈ b.contents

theorem Children.induct {Q : Children → Prop} (nothing : Q .nothing)
    (entry : ∀ name node rest, Q rest → Q (.entry name node rest)) : ∀ children, Q children
  | .nothing => nothing
  | .entry name node rest => entry name node rest (induct nothing entry rest)

section
variable {P : Node → Prop} {Q : Children → Prop} (file : ∀ links bytes, P (.file links bytes))
  (directory : ∀ children, Q children → P (.directory children))
  (symlink : ∀ target, P (.symlink target)) (special : ∀ mode, P (.special mode))
  (nothing : Q .nothing)
  (entry : ∀ name node rest, P node → Q rest → Q (.entry name node rest))
include file directory symlink special nothing entry

/-- A tree by its nodes: `Q` is what holds of the entries of a directory. -/
theorem Node.induct (node : Node) : P node :=
  @Node.rec P Q file directory symlink special nothing entry node

end

theorem Children.contents_eq (children : Children) (rel : Rel) :
    children.contents rel = children.toList.flatMap fun c => c.2.contents (rel ++ [c.1]) := by
  induction children using Children.induct with
  | nothing => rfl
  | entry name node rest ih =>
    rw [Children.contents, Children.toList, flatMap_cons, ih]

/-! ## What the walk records -/

section
variable {sha : Bytes → Bytes} {guards : Guards}

/-- The entry that is recorded of a path. -/
def spelled (sha : Bytes → Bytes) (held : Rel × Content) : InventoryEntry :=
  ⟨held.1, match held.2 with
    | .file bytes => .file (hex (sha bytes))
    | .directory => .directory
    | .symlink target => .symlink target⟩

theorem walkers_eq (children : Children) : walkers sha guards children =
    children.toList.map fun c => (c.1, inventoryWalk sha guards c.2) := by
  induction children using Children.induct with
  | nothing => rfl
  | entry name node rest ih =>
    rw [walkers, Children.toList, map_cons, ih]

/-- The entries that a walk has added, in any order. -/
def Records (sha : Bytes → Bytes) (contents : List (Rel × Content)) (before after : Walked) :
    Prop :=
  ∃ new, after.entries = before.entries ++ new ∧ new.Perm (contents.map (spelled sha))

def Walks (sha : Bytes → Bytes) (guards : Guards) (node : Node) : Prop :=
  ∀ rel depth before after, inventoryWalk sha guards node rel depth before = .ok after →
    Records sha (node.contents rel) before after

theorem Records.append {first second : List (Rel × Content)} {before walked after : Walked}
    (h : Records sha first before walked) (h' : Records sha second walked after) :
    Records sha (first ++ second) before after := by
  obtain ⟨new, hentries, hnew⟩ := h
  obtain ⟨new', hentries', hnew'⟩ := h'
  refine ⟨new ++ new', ?_, ?_⟩
  · rw [hentries', hentries, append_assoc]
  · rw [map_append]
    exact hnew.append hnew'

theorem walkChildren_records {rel : Rel} {depth : ℕ} (children : List (Name × Node))
    (hwalks : ∀ child ∈ children, Walks sha guards child.2) {before after : Walked}
    (h : walkChildren rel depth (children.map fun c => (c.1, inventoryWalk sha guards c.2)) before =
      .ok after) :
    Records sha (children.flatMap fun c => c.2.contents (rel ++ [c.1])) before after := by
  induction children generalizing before with
  | nil =>
    injection h with h
    exact ⟨[], by rw [h, append_nil], Perm.nil⟩
  | cons child children ih =>
    obtain ⟨hchild, hchildren⟩ := forall_mem_cons.mp hwalks
    unfold walkChildren at h
    rw [map_cons, foldlM_cons] at h
    obtain ⟨walked, hwalked, hrest⟩ := bind_eq_ok h
    rw [flatMap_cons]
    exact (hchild _ _ _ _ hwalked).append (ih hchildren hrest)

theorem sortedChildNames_eq {rel : Rel} {children : Children} {sorted : List (Name × Walker)}
    (h : sortedChildNames rel (walkers sha guards children) = .ok sorted) :
    ∃ listed : List (Name × Node), listed.Perm children.toList ∧
      sorted = listed.map fun c => (c.1, inventoryWalk sha guards c.2) := by
  refine ⟨children.toList.insertionSort fun a b => bytesLe a.1.bytes b.1.bytes = true,
    perm_insertionSort _ _, ?_⟩
  unfold sortedChildNames at h
  rw [walkers_eq] at h
  dsimp only at h
  split at h
  · cases h
  · injection h with h
    rw [← h]
    exact (map_insertionSort
      (r := fun a b : Name × Node => bytesLe a.1.bytes b.1.bytes = true)
      (s := fun a b : Name × Walker => bytesLe a.1.bytes b.1.bytes = true) _ _
      fun _ _ _ _ => Iff.rfl).symm

theorem walks_directory {children : Children}
    (hwalks : ∀ child ∈ children.toList, Walks sha guards child.2) :
    Walks sha guards (.directory children) := by
  intro rel depth before after h
  obtain ⟨_, _, h⟩ := bind_eq_ok h
  obtain ⟨sorted, hsorted, h⟩ := bind_eq_ok h
  obtain ⟨listed, hlisted, rfl⟩ := sortedChildNames_eq hsorted
  obtain ⟨new, hentries, hnew⟩ := walkChildren_records listed
    (fun child hchild => hwalks child (hlisted.mem_iff.mp hchild)) h
  refine ⟨⟨rel, .directory⟩ :: new, ?_, ?_⟩
  · rw [hentries, append_assoc]
    rfl
  · rw [Node.contents, map_cons, Children.contents_eq]
    exact Perm.cons _ (hnew.trans ((hlisted.flatMap_right _).map _))

def AllWalk (sha : Bytes → Bytes) (guards : Guards) (children : Children) : Prop :=
  ∀ child ∈ children.toList, Walks sha guards child.2

theorem walks (node : Node) : Walks sha guards node := by
  induction node using Node.induct (Q := AllWalk sha guards) with
  | file links bytes =>
    intro rel depth before after h
    obtain ⟨_, _, h⟩ := bind_eq_ok h
    obtain ⟨_, _, h⟩ := bind_eq_ok h
    obtain ⟨_, _, h⟩ := bind_eq_ok h
    obtain ⟨_, _, h⟩ := bind_eq_ok h
    obtain ⟨_, _, h⟩ := bind_eq_ok h
    injection h with h
    exact ⟨[⟨rel, .file (hex (sha bytes))⟩], by rw [← h], Perm.refl _⟩
  | directory children ih => exact walks_directory ih
  | symlink target =>
    intro rel depth before after h
    obtain ⟨_, _, h⟩ := bind_eq_ok h
    obtain ⟨_, _, h⟩ := bind_eq_ok h
    obtain ⟨_, _, h⟩ := bind_eq_ok h
    obtain ⟨_, _, h⟩ := bind_eq_ok h
    obtain ⟨_, _, h⟩ := bind_eq_ok h
    injection h with h
    exact ⟨[⟨rel, .symlink target⟩], by rw [← h], Perm.refl _⟩
  | special mode =>
    intro rel depth before after h
    obtain ⟨_, _, h⟩ := bind_eq_ok h
    cases h
  | nothing => exact fun _ hchild => (nomatch hchild)
  | entry name node rest hnode hrest => exact forall_mem_cons.mpr ⟨hnode, hrest⟩

theorem bytesLe_total (a b : Bytes) : bytesLe a b = true ∨ bytesLe b a = true :=
  lexLe_total (fun x y => by simpa using UInt8.le_total x y) a b

theorem bytesLe_trans (a b c : Bytes) : bytesLe a b = true → bytesLe b c = true →
    bytesLe a c = true := by
  have hle : ∀ x y z : UInt8, decide (x ≤ y) = true → decide (y ≤ z) = true →
      decide (x ≤ z) = true := fun x y z hxy hyz =>
    decide_eq_true (UInt8.le_trans (of_decide_eq_true hxy) (of_decide_eq_true hyz))
  exact fun hab hbc => lexLe_trans hle hab hbc

theorem bytesLe_antisymm (a b : Bytes) : bytesLe a b = true → bytesLe b a = true → a = b :=
  lexLe_antisymm fun _ _ hxy hyx =>
    UInt8.le_antisymm (of_decide_eq_true hxy) (of_decide_eq_true hyx)

theorem Rel.bytes_inj {a b : Rel} (h : Rel.bytes a = Rel.bytes b) : a = b :=
  map_injective_iff.mpr (fun _ _ => Name.ext_bytes) h

theorem Rel.le_antisymm {a b : Rel} (h : Rel.le a b = true) (h' : Rel.le b a = true) : a = b :=
  Rel.bytes_inj (lexLe_antisymm bytesLe_antisymm h h')

theorem sortedEntries_pairwise (entries : List InventoryEntry) :
    (sortedEntries entries).Pairwise fun a b => Rel.le a.rel b.rel = true := by
  have : Std.Total fun a b : InventoryEntry => Rel.le a.rel b.rel = true :=
    ⟨fun _ _ => lexLe_total bytesLe_total _ _⟩
  have : IsTrans InventoryEntry fun a b => Rel.le a.rel b.rel = true :=
    ⟨fun _ _ _ => lexLe_trans bytesLe_trans⟩
  exact pairwise_insertionSort _ entries

/-- The entries of an accepted tree are its contents, in path order. -/
theorem inventoryUnder_eq {root : Node} {inventory : WorkspaceInventory}
    (h : inventoryUnder sha guards root = .ok inventory) :
    inventory.entries.Perm ((root.contents []).map (spelled sha)) ∧
      inventory.entries.Pairwise (fun a b => Rel.le a.rel b.rel = true) ∧
      inventory.digest = hex (sha (inventory.entries.flatMap InventoryEntry.line)) := by
  obtain ⟨walked, hwalked, h⟩ := bind_eq_ok h
  injection h with h
  obtain ⟨new, hentries, hnew⟩ := walks root _ _ _ _ hwalked
  rw [nil_append] at hentries
  subst h
  refine ⟨?_, ?_, rfl⟩
  · rw [← hentries] at hnew
    exact (perm_insertionSort _ _).trans hnew
  · exact sortedEntries_pairwise walked.entries

/-! ## Paths are listed once -/

/-- Every path below a directory continues one of its names. -/
def ChildrenBelow (children : Children) : Prop :=
  ∀ rel, ∀ held ∈ children.contents rel, ∃ child ∈ children.toList, rel ++ [child.1] <+: held.1

theorem below (node : Node) : ∀ rel, ∀ held ∈ node.contents rel, rel <+: held.1 := by
  induction node using Node.induct (Q := ChildrenBelow) with
  | file links bytes =>
    intro rel held hheld
    rw [mem_singleton.mp hheld]
  | directory children ih =>
    intro rel held hheld
    rcases mem_cons.mp hheld with rfl | hheld
    · exact prefix_rfl
    · obtain ⟨child, _, hchild⟩ := ih rel held hheld
      exact (prefix_append rel _).trans hchild
  | symlink target =>
    intro rel held hheld
    rw [mem_singleton.mp hheld]
  | special mode => exact fun _ _ hheld => (nomatch hheld)
  | nothing => exact fun _ _ hheld => (nomatch hheld)
  | entry name node rest hnode hrest =>
    intro rel held hheld
    rcases mem_append.mp hheld with hheld | hheld
    · exact ⟨(name, node), mem_cons_self, hnode _ held hheld⟩
    · obtain ⟨child, hchild, hbelow⟩ := hrest rel held hheld
      exact ⟨child, mem_cons_of_mem _ hchild, hbelow⟩

theorem childrenBelow (children : Children) : ChildrenBelow children := by
  intro rel held hheld
  rw [Children.contents_eq] at hheld
  obtain ⟨child, hchild, hheld⟩ := mem_flatMap.mp hheld
  exact ⟨child, hchild, below child.2 _ held hheld⟩

def ListedOnce (children : Children) : Prop :=
  children.Listed → (children.toList.map Prod.fst).Nodup →
    ∀ rel, ((children.contents rel).map Prod.fst).Nodup

theorem contents_nodup (node : Node) (h : node.Listed) (rel : Rel) :
    ((node.contents rel).map Prod.fst).Nodup := by
  induction node using Node.induct (Q := ListedOnce) generalizing rel with
  | file links bytes => exact nodup_singleton _
  | directory children ih =>
    refine nodup_cons.mpr ⟨?_, ih h.2 h.1 rel⟩
    intro hmem
    obtain ⟨held, hheld, hrel⟩ := mem_map.mp hmem
    obtain ⟨child, _, hbelow⟩ := childrenBelow children rel held hheld
    have hlength := (hrel ▸ hbelow).length_le
    rw [length_append, length_singleton] at hlength
    exact absurd hlength (Nat.not_succ_le_self _)
  | symlink target => exact nodup_singleton _
  | special mode => exact nodup_nil
  | nothing => exact fun _ _ _ => nodup_nil
  | entry name node rest hnode hrest =>
    intro hlisted hnames rel
    obtain ⟨hfresh, hnames⟩ := nodup_cons.mp hnames
    change ((node.contents (rel ++ [name]) ++ rest.contents rel).map Prod.fst).Nodup
    rw [map_append, nodup_append]
    refine ⟨hnode hlisted.1 _, hrest hlisted.2 hnames rel, ?_⟩
    intro path hpath other hother hsame
    obtain ⟨held, hheld, rfl⟩ := mem_map.mp hpath
    obtain ⟨held', hheld', rfl⟩ := mem_map.mp hother
    obtain ⟨child, hchild, hbelow⟩ := childrenBelow rest rel held' hheld'
    have hprefix := below node _ held hheld
    rw [hsame] at hprefix
    have heq := prefix_of_prefix_length_le hprefix hbelow (by simp)
    have hname : name = child.1 := by
      have := heq.eq_of_length (by simp)
      simpa using this
    have hmem : child.1 ∈ rest.toList.map Prod.fst := mem_map_of_mem hchild
    rw [← hname] at hmem
    exact hfresh hmem

/-! ## Reading the text back -/

theorem hexDigit_toNat {n : UInt8} (h : n.toNat < 16) :
    (hexDigit n).toNat = if n.toNat < 10 then 48 + n.toNat else 87 + n.toNat := by
  change (if n.toNat < 10 then 0x30 + n else 0x57 + n).toNat = _
  split
  · rw [UInt8.toNat_add]
    change (48 + n.toNat) % 256 = _
    omega
  · rw [UInt8.toNat_add]
    change (87 + n.toNat) % 256 = _
    omega

theorem hexDigit_inj {m n : UInt8} (hm : m.toNat < 16) (hn : n.toNat < 16)
    (h : hexDigit m = hexDigit n) : m.toNat = n.toNat := by
  have hsame := congrArg UInt8.toNat h
  rw [hexDigit_toNat hm, hexDigit_toNat hn] at hsame
  split at hsame <;> split at hsame <;> omega

theorem hex_inj {a b : Bytes} (h : hex a = hex b) : a = b := by
  induction a generalizing b with
  | nil =>
    cases b with
    | nil => rfl
    | cons => cases h
  | cons x a ih =>
    cases b with
    | nil => cases h
    | cons y b =>
      injection h with hhigh h
      injection h with hlow hrest
      have hdiv : ∀ z : UInt8, (z / 16).toNat = z.toNat / 16 := fun z => UInt8.toNat_div z 16
      have hmod : ∀ z : UInt8, (z % 16).toNat = z.toNat % 16 := fun z => UInt8.toNat_mod z 16
      have hbound : ∀ z : UInt8, z.toNat < 256 := UInt8.toNat_lt
      have hx := hbound x
      have hy := hbound y
      have hdivs := hexDigit_inj (by rw [hdiv]; omega) (by rw [hdiv]; omega) hhigh
      have hmods := hexDigit_inj (by rw [hmod]; omega) (by rw [hmod]; omega) hlow
      rw [hdiv, hdiv] at hdivs
      rw [hmod, hmod] at hmods
      rw [ih hrest, UInt8.toNat_inj.mp (by omega : x.toNat = y.toNat)]

theorem newline_not_mem_hex (bytes : Bytes) : NEWLINE ∉ hex bytes := by
  intro h
  obtain ⟨b, _, hb⟩ := mem_flatMap.mp h
  have hdigit : ∀ n : UInt8, n.toNat < 16 → NEWLINE ≠ hexDigit n := by
    intro n hn hsame
    have := congrArg UInt8.toNat hsame
    rw [hexDigit_toNat hn] at this
    change 10 = _ at this
    split at this <;> omega
  have hbound := UInt8.toNat_lt b
  rcases mem_cons.mp hb with hb | hb
  · exact hdigit (b / 16) (by rw [UInt8.toNat_div]; change b.toNat / 16 < 16; omega) hb
  · rw [mem_singleton] at hb
    exact hdigit (b % 16) (by rw [UInt8.toNat_mod]; change b.toNat % 16 < 16; omega) hb

theorem Rel.display_inj {a b : Rel} (h : Rel.display a = Rel.display b) : a = b := by
  have hnamed : ∀ rel : Rel, ∀ bytes ∈ Rel.bytes rel, bytes ≠ [] ∧ SLASH ∉ bytes := by
    intro rel bytes hbytes
    obtain ⟨name, _, rfl⟩ := mem_map.mp hbytes
    exact name.named
  exact Rel.bytes_inj (joined_inj (hnamed a) (hnamed b) h)

/-- The kind of a path and the lengths of what its entry spells. -/
inductive Shape where
  | file (path : ℕ)
  | directory (path : ℕ)
  | symlink (path target : ℕ)
deriving DecidableEq

def InventoryEntry.shape (entry : InventoryEntry) : Shape :=
  match entry.kind with
  | .file _ => .file (Rel.display entry.rel).length
  | .directory => .directory (Rel.display entry.rel).length
  | .symlink target => .symlink (Rel.display entry.rel).length target.length

/-- The digest of a file is spelled in digits. -/
def InventoryEntry.Hashed (entry : InventoryEntry) : Prop :=
  ∀ digest, entry.kind = .file digest → NEWLINE ∉ digest

section
variable {x y : InventoryEntry} {s t : Bytes}

theorem line_file {rel : Rel} {digest : Bytes} :
    InventoryEntry.line ⟨rel, .file digest⟩ ++ s =
      text "f " ++ (Rel.display rel ++ NEWLINE :: (digest ++ NEWLINE :: s)) := by
  simp [InventoryEntry.line, InventoryEntry.fields]
  rfl

theorem line_directory {rel : Rel} :
    InventoryEntry.line ⟨rel, .directory⟩ ++ s =
      text "d " ++ (Rel.display rel ++ NEWLINE :: s) := by
  simp [InventoryEntry.line, InventoryEntry.fields]
  rfl

theorem line_symlink {rel : Rel} {target : Bytes} :
    InventoryEntry.line ⟨rel, .symlink target⟩ ++ s =
      text "l " ++ (Rel.display rel ++ (text " -> " ++ (target ++ NEWLINE :: s))) := by
  simp [InventoryEntry.line, InventoryEntry.fields]
  rfl

theorem line_append_inj (hshape : x.shape = y.shape) (hx : x.Hashed) (hy : y.Hashed)
    (h : x.line ++ s = y.line ++ t) : x = y ∧ s = t := by
  obtain ⟨rel, kind⟩ := x
  obtain ⟨rel', kind'⟩ := y
  cases kind with
  | file digest =>
    cases kind' with
    | file digest' =>
      injection hshape with hpath
      rw [line_file, line_file, append_cancel_left_eq] at h
      obtain ⟨hdisplay, h⟩ := append_inj h hpath
      injection h with _ h
      obtain ⟨hdigest, h⟩ := until_inj (hx digest rfl) (hy digest' rfl) h
      have hrel : rel = rel' := Rel.display_inj hdisplay
      rw [hrel, hdigest]
      exact ⟨rfl, h⟩
    | directory => cases hshape
    | symlink target' => cases hshape
  | directory =>
    cases kind' with
    | file digest' => cases hshape
    | directory =>
      injection hshape with hpath
      rw [line_directory, line_directory, append_cancel_left_eq] at h
      obtain ⟨hdisplay, h⟩ := append_inj h hpath
      injection h with _ h
      have hrel : rel = rel' := Rel.display_inj hdisplay
      rw [hrel]
      exact ⟨rfl, h⟩
    | symlink target' => cases hshape
  | symlink target =>
    cases kind' with
    | file digest' => cases hshape
    | directory => cases hshape
    | symlink target' =>
      injection hshape with hpath hlength
      rw [line_symlink, line_symlink, append_cancel_left_eq] at h
      obtain ⟨hdisplay, h⟩ := append_inj h hpath
      rw [append_cancel_left_eq] at h
      obtain ⟨htarget, h⟩ := append_inj h hlength
      injection h with _ h
      have hrel : rel = rel' := Rel.display_inj hdisplay
      rw [hrel, htarget]
      exact ⟨rfl, h⟩

/-! ## Plain names -/

/-- No line break in the path or the target, and no arrow that could begin inside a link's path. -/
def PlainPath (rel : Rel) (target : Option Bytes) : Prop :=
  NEWLINE ∉ Rel.display rel ∧ ∀ t ∈ target, NEWLINE ∉ t ∧
    ¬ text " -> " <:+: Rel.display rel ++ (text " -> ").dropLast

def InventoryKind.target : InventoryKind → Option Bytes
  | .symlink target => some target
  | _ => none

theorem shape_eq (hx : PlainPath x.rel x.kind.target) (hy : PlainPath y.rel y.kind.target)
    (h : x.line ++ s = y.line ++ t) : x.shape = y.shape := by
  obtain ⟨rel, kind⟩ := x
  obtain ⟨rel', kind'⟩ := y
  have hkinds : ∀ {k k' u v : Bytes}, k ≠ k' → k.length = k'.length → k ++ u ≠ k' ++ v :=
    fun hne hlength h => hne (append_inj h hlength).1
  cases kind with
  | file digest =>
    cases kind' with
    | file digest' =>
      rw [line_file, line_file, append_cancel_left_eq] at h
      exact congrArg (fun path => Shape.file path.length) (until_inj hx.1 hy.1 h).1
    | directory =>
      rw [line_file, line_directory] at h
      exact absurd h (hkinds (by decide) rfl)
    | symlink target' =>
      rw [line_file, line_symlink] at h
      exact absurd h (hkinds (by decide) rfl)
  | directory =>
    cases kind' with
    | file digest' =>
      rw [line_directory, line_file] at h
      exact absurd h (hkinds (by decide) rfl)
    | directory =>
      rw [line_directory, line_directory, append_cancel_left_eq] at h
      exact congrArg (fun path => Shape.directory path.length) (until_inj hx.1 hy.1 h).1
    | symlink target' =>
      rw [line_directory, line_symlink] at h
      exact absurd h (hkinds (by decide) rfl)
  | symlink target =>
    cases kind' with
    | file digest' =>
      rw [line_symlink, line_file] at h
      exact absurd h (hkinds (by decide) rfl)
    | directory =>
      rw [line_symlink, line_directory] at h
      exact absurd h (hkinds (by decide) rfl)
    | symlink target' =>
      rw [line_symlink, line_symlink, append_cancel_left_eq] at h
      obtain ⟨htarget, hstart⟩ := hx.2 target rfl
      obtain ⟨htarget', hstart'⟩ := hy.2 target' rfl
      have hfree : ∀ {path link : Bytes}, NEWLINE ∉ path → NEWLINE ∉ link →
          NEWLINE ∉ path ++ (text " -> " ++ link) := by
        intro path link hpath hlink hmem
        rcases mem_append.mp hmem with hmem | hmem
        · exact hpath hmem
        rcases mem_append.mp hmem with hmem | hmem
        · exact absurd hmem (by decide)
        · exact hlink hmem
      obtain ⟨hlink, -⟩ := until_inj (hfree hx.1 htarget) (hfree hy.1 htarget')
        (by simpa only [append_assoc] using h)
      obtain ⟨hpath, htargets⟩ := word_inj (by decide) hstart hstart' hlink
      change Shape.symlink (Rel.display rel).length target.length = Shape.symlink _ _
      rw [hpath, htargets]

end

/-- Where each two entries at the same place of two texts have one shape, the texts are the same
only if the entries are. -/
theorem lines_inj {xs ys : List InventoryEntry}
    (hshapes : xs.map InventoryEntry.shape = ys.map InventoryEntry.shape)
    (hx : ∀ x ∈ xs, x.Hashed) (hy : ∀ y ∈ ys, y.Hashed)
    (h : xs.flatMap InventoryEntry.line = ys.flatMap InventoryEntry.line) : xs = ys := by
  induction xs generalizing ys with
  | nil =>
    cases ys with
    | nil => rfl
    | cons => cases hshapes
  | cons x xs ih =>
    cases ys with
    | nil => cases hshapes
    | cons y ys =>
      injection hshapes with hshape hshapes
      obtain ⟨hx, hxs⟩ := forall_mem_cons.mp hx
      obtain ⟨hy, hys⟩ := forall_mem_cons.mp hy
      rw [flatMap_cons, flatMap_cons] at h
      obtain ⟨hsame, hrest⟩ := line_append_inj hshape hx hy h
      rw [hsame, ih hshapes hxs hys hrest]

theorem shapes_eq {xs ys : List InventoryEntry} (hx : ∀ x ∈ xs, x.Hashed) (hy : ∀ y ∈ ys, y.Hashed)
    (px : ∀ x ∈ xs, PlainPath x.rel x.kind.target) (py : ∀ y ∈ ys, PlainPath y.rel y.kind.target)
    (h : xs.flatMap InventoryEntry.line = ys.flatMap InventoryEntry.line) :
    xs.map InventoryEntry.shape = ys.map InventoryEntry.shape := by
  have hsome : ∀ (entry : InventoryEntry) (s : Bytes), entry.line ++ s ≠ [] := by
    intro entry s
    unfold InventoryEntry.line InventoryEntry.fields
    cases entry.kind <;> exact cons_ne_nil _ _
  induction xs generalizing ys with
  | nil =>
    cases ys with
    | nil => rfl
    | cons y ys => exact absurd h.symm (hsome y _)
  | cons x xs ih =>
    cases ys with
    | nil => exact absurd h (hsome x _)
    | cons y ys =>
      obtain ⟨hx, hxs⟩ := forall_mem_cons.mp hx
      obtain ⟨hy, hys⟩ := forall_mem_cons.mp hy
      obtain ⟨px, pxs⟩ := forall_mem_cons.mp px
      obtain ⟨py, pys⟩ := forall_mem_cons.mp py
      rw [flatMap_cons, flatMap_cons] at h
      have hshape := shape_eq px py h
      obtain ⟨-, hrest⟩ := line_append_inj hshape hx hy h
      rw [map_cons, map_cons, hshape, ih hxs hys pxs pys hrest]

/-! ## Digests of trees -/

def Content.target : Content → Option Bytes
  | .symlink target => some target
  | _ => none

def shapeOf (held : Rel × Content) : Shape :=
  match held.2 with
  | .file _ => .file (Rel.display held.1).length
  | .directory => .directory (Rel.display held.1).length
  | .symlink target => .symlink (Rel.display held.1).length target.length

namespace Workspace

/-- The contents in path order. -/
def sorted (workspace : Workspace) : List (Rel × Content) :=
  workspace.contents.insertionSort fun a b => Rel.le a.1 b.1 = true

theorem sorted_pairwise (workspace : Workspace) :
    workspace.sorted.Pairwise fun a b => Rel.le a.1 b.1 = true := by
  have : Std.Total fun a b : Rel × Content => Rel.le a.1 b.1 = true :=
    ⟨fun _ _ => lexLe_total bytesLe_total _ _⟩
  have : IsTrans (Rel × Content) fun a b => Rel.le a.1 b.1 = true :=
    ⟨fun _ _ _ => lexLe_trans bytesLe_trans⟩
  exact pairwise_insertionSort _ workspace.contents

/-- The kinds of the paths in their order, with the lengths of the paths and of the targets. -/
def shape (workspace : Workspace) : List Shape := workspace.sorted.map shapeOf

def Plain (workspace : Workspace) : Prop :=
  ∀ held ∈ workspace.contents, PlainPath held.1 held.2.target

end Workspace

theorem spelled_shape (held : Rel × Content) : (spelled sha held).shape = shapeOf held := by
  obtain ⟨rel, content⟩ := held
  cases content <;> rfl

theorem spelled_target (held : Rel × Content) : (spelled sha held).kind.target = held.2.target := by
  obtain ⟨rel, content⟩ := held
  cases content <;> rfl

theorem spelled_hashed (held : Rel × Content) : (spelled sha held).Hashed := by
  obtain ⟨rel, content⟩ := held
  intro digest hdigest
  cases content with
  | file bytes =>
    injection hdigest with hdigest
    rw [← hdigest]
    exact newline_not_mem_hex _
  | directory => cases hdigest
  | symlink target => cases hdigest

theorem spelled_inj (hsha : Function.Injective sha) : Function.Injective (spelled sha) := by
  rintro ⟨rel, content⟩ ⟨rel', content'⟩ h
  injection h with hrel hkind
  subst hrel
  cases content with
  | file bytes =>
    cases content' with
    | file bytes' =>
      injection hkind with hkind
      rw [hsha (hex_inj hkind)]
    | directory => cases hkind
    | symlink target' => cases hkind
  | directory =>
    cases content' with
    | file bytes' => cases hkind
    | directory => rfl
    | symlink target' => cases hkind
  | symlink target =>
    cases content' with
    | file bytes' => cases hkind
    | directory => cases hkind
    | symlink target' =>
      injection hkind with hkind
      rw [hkind]

theorem spelled_eq_of_rel {workspace : Workspace} {x y : InventoryEntry}
    (hx : x ∈ workspace.contents.map (spelled sha)) (hy : y ∈ workspace.contents.map (spelled sha))
    (hrel : x.rel = y.rel) : x = y := by
  obtain ⟨held, hheld, rfl⟩ := mem_map.mp hx
  obtain ⟨held', hheld', rfl⟩ := mem_map.mp hy
  rw [inj_on_of_nodup_map (contents_nodup workspace.root workspace.listed []) hheld hheld'
    hrel]

variable {guards' : Guards} {a b : Workspace} {inventory inventory' : WorkspaceInventory}

section

variable (h : inventoryUnder sha guards a.root = .ok inventory)
include h

theorem entries_eq :
    inventory.entries = a.sorted.map (spelled sha) := by
  obtain ⟨hperm, hsorted, -⟩ := inventoryUnder_eq h
  have hsortedPerm : (a.sorted.map (spelled sha)).Perm (a.contents.map (spelled sha)) :=
    (perm_insertionSort _ _).map _
  refine Perm.eq_of_pairwise ?_ hsorted ?_ (hperm.trans hsortedPerm.symm)
  · intro x y hx hy hxy hyx
    exact spelled_eq_of_rel (hperm.mem_iff.mp hx) (hsortedPerm.mem_iff.mp hy)
      (Rel.le_antisymm hxy hyx)
  · exact pairwise_map.mpr a.sorted_pairwise

theorem entries_shape :
    inventory.entries.map InventoryEntry.shape = a.shape := by
  rw [entries_eq h, map_map]
  exact map_congr_left fun held _ => spelled_shape held

theorem entries_hashed :
    ∀ entry ∈ inventory.entries, entry.Hashed := by
  rw [entries_eq h]
  intro entry hentry
  obtain ⟨held, _, rfl⟩ := mem_map.mp hentry
  exact spelled_hashed held

theorem entries_plain (hplain : a.Plain) :
    ∀ entry ∈ inventory.entries, PlainPath entry.rel entry.kind.target := by
  rw [entries_eq h]
  intro entry hentry
  obtain ⟨held, hheld, rfl⟩ := mem_map.mp hentry
  rw [spelled_target]
  exact hplain held ((perm_insertionSort _ _).mem_iff.mp hheld)

end

section

variable (hsha : Function.Injective sha) (ha : inventoryUnder sha guards a.root = .ok inventory) (hb : inventoryUnder sha guards' b.root = .ok inventory')
include hsha ha hb

/-- Two accepted trees are the same exactly where their entries are. -/
theorem same_iff :
    a.Same b ↔ inventory.entries = inventory'.entries := by
  have hperm := (inventoryUnder_eq ha).1
  have hperm' := (inventoryUnder_eq hb).1
  constructor
  · intro hsame
    have hnodup : ∀ w : Workspace, w.contents.Nodup :=
      fun w => Nodup.of_map _ (contents_nodup w.root w.listed [])
    have hcontents : a.contents.Perm b.contents :=
      (perm_ext_iff_of_nodup (hnodup a) (hnodup b)).mpr hsame
    have hentries := hperm.trans ((hcontents.map _).trans hperm'.symm)
    refine Perm.eq_of_pairwise ?_ (inventoryUnder_eq ha).2.1 (inventoryUnder_eq hb).2.1
      hentries
    intro x y hx hy hxy hyx
    exact spelled_eq_of_rel ((hentries.trans hperm').mem_iff.mp hx) (hperm'.mem_iff.mp hy)
      (Rel.le_antisymm hxy hyx)
  · intro hentries held
    have hcontents : (a.contents.map (spelled sha)).Perm (b.contents.map (spelled sha)) :=
      hperm.symm.trans (hentries ▸ hperm')
    rw [← mem_map_of_injective (spelled_inj hsha), hcontents.mem_iff,
      mem_map_of_injective (spelled_inj hsha)]

theorem text_eq
    (hdigest : inventory.digest = inventory'.digest) :
    inventory.entries.flatMap InventoryEntry.line =
      inventory'.entries.flatMap InventoryEntry.line := by
  rw [(inventoryUnder_eq ha).2.2, (inventoryUnder_eq hb).2.2] at hdigest
  exact hsha (hex_inj hdigest)

/-- A digest tells apart the trees of one shape, and no others. -/
theorem same_iff_shape
    (hdigest : inventory.digest = inventory'.digest) : a.Same b ↔ a.shape = b.shape := by
  rw [same_iff hsha ha hb]
  constructor
  · intro hentries
    rw [← entries_shape ha, ← entries_shape hb, hentries]
  · intro hshape
    rw [← entries_shape ha, ← entries_shape hb] at hshape
    exact lines_inj hshape (entries_hashed ha) (entries_hashed hb) (text_eq hsha ha hb hdigest)

theorem shape_of_plain
    (hdigest : inventory.digest = inventory'.digest) (pa : a.Plain) (pb : b.Plain) :
    a.shape = b.shape := by
  rw [← entries_shape ha, ← entries_shape hb]
  exact shapes_eq (entries_hashed ha) (entries_hashed hb) (entries_plain ha pa)
    (entries_plain hb pb) (text_eq hsha ha hb hdigest)

end

end

end Rivect.Executor
