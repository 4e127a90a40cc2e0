import Mathlib.Data.String.Basic
import Rivect.Executor.Contents

/-! # What a check binding's digest names

`admit_check` and `CheckBinding::digest` of `src/executor.rs`. The digest hashes the fields of the
binding one right behind the other, so it names a binding up to where one field ends and the next
begins.
-/

namespace Rivect.Executor

open Lib List

def CHECK_MAX_HARNESS_THREADS : ℕ := 8

/-- A path as the bytes that the system holds for it. -/
abbrev PathBuf := Bytes

def utf8 (s : String) : Bytes := s.toUTF8.data.toList

def toStringLossy (path : PathBuf) : String := String.ofList (Utf8.lossy path)

/-! ## Selectors -/

def isAsciiAlphanumeric (c : Char) : Bool := c.isAlphanum

/-- `-` stands in the name of a target, `:` in the path of a test. -/
def plainSelector (token : String) (modulePath : Bool) : Bool :=
  !token.isEmpty && token.toList.head? != some '-' && token.toList.all fun c =>
    isAsciiAlphanumeric c || c == '_' || (c == '-' && !modulePath) || (c == ':' && modulePath)

inductive CheckTarget where
  | library
  | integration (name : String)
deriving DecidableEq

def CheckTarget.spelling : CheckTarget → String
  | .library => "lib"
  | .integration name => "test:" ++ name

def CheckTarget.isWellFormed : CheckTarget → Bool
  | .library => true
  | .integration name => plainSelector name false

/-! ## Bindings -/

structure ConfinedCheck where
  taskId : String
  expectedSelectionRevision : ℕ
  projectGrantId : String
  projectRoot : PathBuf
  manifestRel : PathBuf
  cargo : PathBuf
  cargoHome : PathBuf
  target : CheckTarget
  harnessThreads : ℕ
  exactTest : String
  expectedPhase : String
  expectedAssertionIdentity : String
  expectedCandidateDigest : String

structure CheckBinding where
  taskId : String
  attemptId : String
  projectGrantId : String
  projectRoot : PathBuf
  manifestRel : PathBuf
  cargo : PathBuf
  cargoHome : PathBuf
  target : CheckTarget
  harnessThreads : ℕ
  exactTest : String
  expectedSelectionRevision : ℕ
  expectedCandidateDigest : String
  expectedPhase : String
  expectedAssertionIdentity : String
deriving DecidableEq

inductive CheckError where
  | selectionMismatch (detail : String)
  | targetLayout (detail : String)
deriving DecidableEq

/-- Why an admission is refused: by the check's own rules, or by the owners it asks. -/
inductive AdmitCheckError where
  | check (error : CheckError)
  | owner (reason : String)
deriving DecidableEq

/-- A handoff as the executor compares it with its own policy, store and configuration. -/
structure CheckHandoff where
  samePolicy : Bool
  sameStore : Bool
  taskId : String
  explicitOff : Bool
  ownerContext : Except CheckError Unit

/-- What the executor's admission and its store answer for the task. -/
structure Admitting where
  admitted : Except AdmitCheckError String
  planSelection : Except AdmitCheckError Bool

def selectionRecorded (executor : Admitting) (handoff : CheckHandoff) :
    Except AdmitCheckError Unit :=
  if handoff.explicitOff then .ok () else do
    let selection ← executor.planSelection
    require (selection = true)
      (.check (.selectionMismatch "no selection is recorded for the task the check binds"))

def admitCheck (executor : Admitting) (taskId : String) (check : ConfinedCheck)
    (handoff : CheckHandoff) : Except AdmitCheckError CheckBinding := do
  require (handoff.samePolicy = true ∧ handoff.sameStore = true)
    (.check (.selectionMismatch
      "the check handoff was issued by another runtime's policy or store"))
  require (handoff.taskId = taskId)
    (.check (.selectionMismatch "the check handoff was issued for another task"))
  require (check.target.isWellFormed = true ∧ plainSelector check.exactTest true = true)
    (.check (.targetLayout "the test selector is not a plain target name and test path"))
  require (check.harnessThreads ≠ 0 ∧ check.harnessThreads ≤ CHECK_MAX_HARNESS_THREADS)
    (.check (.targetLayout (s!"the harness thread bound {check.harnessThreads} is outside 1..=" ++
      s!"{CHECK_MAX_HARNESS_THREADS}")))
  handoff.ownerContext.mapError .check
  let attemptId ← executor.admitted
  selectionRecorded executor handoff
  .ok {
    taskId := taskId
    attemptId := attemptId
    projectGrantId := check.projectGrantId
    projectRoot := check.projectRoot
    manifestRel := check.manifestRel
    cargo := check.cargo
    cargoHome := check.cargoHome
    target := check.target
    harnessThreads := check.harnessThreads
    exactTest := check.exactTest
    expectedSelectionRevision := check.expectedSelectionRevision
    expectedCandidateDigest := check.expectedCandidateDigest
    expectedPhase := check.expectedPhase
    expectedAssertionIdentity := check.expectedAssertionIdentity }

/-- A binding that some admission mints. -/
def Minted (binding : CheckBinding) : Prop :=
  ∃ executor taskId check handoff, admitCheck executor taskId check handoff = .ok binding

namespace CheckBinding

/-- The fields in the order in which they are hashed. -/
def fields (binding : CheckBinding) : List Bytes :=
  [utf8 binding.taskId,
   utf8 binding.attemptId,
   utf8 binding.projectGrantId,
   utf8 (toStringLossy binding.projectRoot),
   utf8 (toStringLossy binding.manifestRel),
   utf8 (toStringLossy binding.cargo),
   utf8 (toStringLossy binding.cargoHome),
   utf8 binding.target.spelling,
   utf8 (toString binding.harnessThreads),
   utf8 binding.exactTest,
   utf8 (toString binding.expectedSelectionRevision),
   utf8 binding.expectedCandidateDigest,
   utf8 binding.expectedPhase,
   utf8 binding.expectedAssertionIdentity]

def digest (sha : Bytes → Bytes) (binding : CheckBinding) : Bytes :=
  hex (sha binding.fields.flatten)

/-! ## One binding for a digest -/

/-- The lengths of the hashed fields but for the thread count, which is one digit. -/
def lengths (binding : CheckBinding) : List ℕ := (binding.fields.eraseIdx 8).map List.length

def paths (binding : CheckBinding) : List PathBuf :=
  [binding.projectRoot, binding.manifestRel, binding.cargo, binding.cargoHome]

/-- No two different paths of the bindings, one for one, are spelled alike. -/
def SpelledApart (a b : CheckBinding) : Prop :=
  a.paths.map toStringLossy = b.paths.map toStringLossy → a.paths = b.paths

end CheckBinding

theorem utf8_inj {s t : String} (h : utf8 s = utf8 t) : s = t :=
  String.toByteArray_inj.mp (ByteArray.ext (Array.toList_inj.mp h))

theorem toString_inj {m n : ℕ} (h : toString m = toString n) : m = n := by
  rw [Nat.toString_eq_repr, Nat.toString_eq_repr] at h
  have hdigits := congrArg String.toList h
  rw [Nat.toList_repr, Nat.toList_repr] at hdigits
  rw [← Nat.ofDigitChars_ten_toDigits (n := m), hdigits, Nat.ofDigitChars_ten_toDigits]

theorem CheckTarget.spelling_inj {a b : CheckTarget} (h : a.spelling = b.spelling) : a = b := by
  have hapart : ∀ name, "lib" ≠ "test:" ++ name := by
    intro name hname
    have := congrArg (fun s => s.toList.head?) hname
    simp at this
  cases a with
  | library =>
    cases b with
    | library => rfl
    | integration name => exact absurd h (hapart name)
  | integration name =>
    cases b with
    | library => exact absurd h.symm (hapart name)
    | integration name' =>
      have hlist := congrArg String.toList h
      rw [CheckTarget.spelling, CheckTarget.spelling, String.toList_append, String.toList_append,
        append_cancel_left_eq] at hlist
      rw [String.toList_inj.mp hlist]

namespace CheckBinding

/-- A binding is its hashed fields, but for paths that are spelled alike. -/
theorem fields_inj {a b : CheckBinding} (h : a.fields = b.fields) (hpaths : a.SpelledApart b) :
    a = b := by
  obtain ⟨task, attempt, grant, root, manifest, cargo, home, target, threads, test, revision,
    candidate, phase, assertion⟩ := a
  obtain ⟨task', attempt', grant', root', manifest', cargo', home', target', threads', test',
    revision', candidate', phase', assertion'⟩ := b
  simp only [fields, List.cons.injEq, and_true] at h
  obtain ⟨htask, hattempt, hgrant, hroot, hmanifest, hcargo, hhome, htarget, hthreads, htest,
    hrevision, hcandidate, hphase, hassertion⟩ := h
  have hsame := hpaths (by
    simp only [paths, map_cons, map_nil]
    rw [utf8_inj hroot, utf8_inj hmanifest, utf8_inj hcargo, utf8_inj hhome])
  obtain ⟨rfl, rfl, rfl, rfl⟩ := hsame
  rw [utf8_inj htask, utf8_inj hattempt, utf8_inj hgrant,
    CheckTarget.spelling_inj (utf8_inj htarget), toString_inj (utf8_inj hthreads), utf8_inj htest,
    toString_inj (utf8_inj hrevision), utf8_inj hcandidate, utf8_inj hphase, utf8_inj hassertion]

end CheckBinding

theorem Minted.threads {binding : CheckBinding} (h : Minted binding) :
    (utf8 (toString binding.harnessThreads)).length = 1 := by
  obtain ⟨executor, taskId, check, handoff, h⟩ := h
  obtain ⟨_, _, h⟩ := bind_eq_ok h
  obtain ⟨_, _, h⟩ := bind_eq_ok h
  obtain ⟨_, _, h⟩ := bind_eq_ok h
  obtain ⟨_, hthreads, h⟩ := bind_eq_ok h
  obtain ⟨_, _, h⟩ := bind_eq_ok h
  obtain ⟨_, _, h⟩ := bind_eq_ok h
  obtain ⟨_, _, h⟩ := bind_eq_ok h
  have hbound := (require_eq_ok hthreads).2
  injection h with h
  rw [← h]
  have hdigit : ∀ n ≤ CHECK_MAX_HARNESS_THREADS, (utf8 (toString n)).length = 1 := by decide
  exact hdigit _ hbound

theorem Minted.lengths_iff {a b : CheckBinding} (ha : Minted a) (hb : Minted b) :
    a.fields.map List.length = b.fields.map List.length ↔ a.lengths = b.lengths := by
  simp only [CheckBinding.lengths, CheckBinding.fields, eraseIdx, map_cons, map_nil,
    List.cons.injEq, and_true, ha.threads, hb.threads, true_and]

/-- Equal digests of minted bindings are one binding exactly where the fields have one length each
and no two paths are spelled alike. -/
theorem Minted.eq_iff {sha : Bytes → Bytes} (hsha : Function.Injective sha) {a b : CheckBinding}
    (ha : Minted a) (hb : Minted b) (hdigest : a.digest sha = b.digest sha) :
    a = b ↔ a.lengths = b.lengths ∧ a.SpelledApart b := by
  have htext : a.fields.flatten = b.fields.flatten := hsha (hex_inj hdigest)
  constructor
  · rintro rfl
    exact ⟨rfl, fun _ => rfl⟩
  · rintro ⟨hlengths, hpaths⟩
    have hfields := (flatten_inj_iff htext).mpr ((ha.lengths_iff hb).mpr hlengths)
    exact CheckBinding.fields_inj hfields hpaths

/-! ## Trees and bindings -/

def checkOf (expectedPhase expectedAssertionIdentity : String) : ConfinedCheck where
  taskId := "t"
  expectedSelectionRevision := 1
  projectGrantId := "g"
  projectRoot := text "/w"
  manifestRel := text "Cargo.toml"
  cargo := text "/c"
  cargoHome := text "/h"
  target := .library
  harnessThreads := 1
  exactTest := "a"
  expectedPhase := expectedPhase
  expectedAssertionIdentity := expectedAssertionIdentity
  expectedCandidateDigest := "0"

def bindingOf (expectedPhase expectedAssertionIdentity : String) : CheckBinding where
  taskId := "t"
  attemptId := "u"
  projectGrantId := "g"
  projectRoot := text "/w"
  manifestRel := text "Cargo.toml"
  cargo := text "/c"
  cargoHome := text "/h"
  target := .library
  harnessThreads := 1
  exactTest := "a"
  expectedSelectionRevision := 1
  expectedCandidateDigest := "0"
  expectedPhase := expectedPhase
  expectedAssertionIdentity := expectedAssertionIdentity

theorem minted_bindingOf (expectedPhase expectedAssertionIdentity : String) :
    Minted (bindingOf expectedPhase expectedAssertionIdentity) := by
  refine ⟨⟨.ok "u", .ok true⟩, "t", checkOf expectedPhase expectedAssertionIdentity,
    ⟨true, true, "t", true, .ok ()⟩, ?_⟩
  have hselector : CheckTarget.library.isWellFormed = true ∧ plainSelector "a" true = true := by
    decide
  have hthreads : 1 ≠ 0 ∧ 1 ≤ CHECK_MAX_HARNESS_THREADS := by decide
  unfold admitCheck checkOf
  rw [require_pos ⟨rfl, rfl⟩, require_pos rfl, require_pos hselector, require_pos hthreads]
  rfl

def nameOf (s : String) (h : text s ≠ [] ∧ SLASH ∉ text s) : Name := ⟨text s, h⟩

/-- A workspace of two empty directories. -/
def twoDirectories : Workspace where
  root := .directory
    (.entry (nameOf "a" (by decide)) (.directory .nothing)
      (.entry (nameOf "b" (by decide)) (.directory .nothing) .nothing))
  listed := ⟨by decide, ⟨nodup_nil, trivial⟩, ⟨nodup_nil, trivial⟩, trivial⟩

/-- A workspace of one empty directory whose name breaks the line. -/
def brokenName : Workspace where
  root := .directory (.entry (nameOf "a\nd b" (by decide)) (.directory .nothing) .nothing)
  listed := ⟨by decide, ⟨nodup_nil, trivial⟩, trivial⟩

def noGuards : Guards := ⟨fun _ => false, fun _ => false⟩

/-- Trees of one digest are one tree exactly where their texts have one shape, plain names have one
shape, and bindings of one digest are one binding exactly where their fields have one length each
and no two paths are spelled alike. -/
theorem digests_identify {sha : Bytes → Bytes} (hsha : Function.Injective sha) :
    (∀ (a b : Workspace) (guards guards' : Guards) (inventory inventory' : WorkspaceInventory),
      inventoryUnder sha guards a.root = .ok inventory →
      inventoryUnder sha guards' b.root = .ok inventory' →
      inventory.digest = inventory'.digest →
        (a.Same b ↔ a.shape = b.shape) ∧ (a.Plain → b.Plain → a.Same b)) ∧
    (∀ a b : CheckBinding, Minted a → Minted b → a.digest sha = b.digest sha →
      (a = b ↔ a.lengths = b.lengths ∧ a.SpelledApart b)) := by
  constructor
  · intro a b guards guards' inventory inventory' ha hb hdigest
    have hshape := same_iff_shape hsha ha hb hdigest
    refine ⟨hshape, fun pa pb => ?_⟩
    exact hshape.mpr (shape_of_plain hsha ha hb hdigest pa pb)
  · intro a b ha hb hdigest
    exact ha.eq_iff hsha hb hdigest

/-- Two trees and two checks of one digest each, where the hash is the identity. -/
theorem digests_identify_id :
    (twoDirectories.Same brokenName ↔ twoDirectories.shape = brokenName.shape) ∧
    (bindingOf "ab" "c" = bindingOf "a" "bc" ↔
      (bindingOf "ab" "c").lengths = (bindingOf "a" "bc").lengths ∧
        (bindingOf "ab" "c").SpelledApart (bindingOf "a" "bc")) := by
  obtain ⟨htrees, hbindings⟩ := digests_identify (@Function.injective_id Bytes)
  exact ⟨(htrees twoDirectories brokenName noGuards noGuards _ _ rfl rfl (by decide)).1,
    hbindings _ _ (minted_bindingOf _ _) (minted_bindingOf _ _) (by decide)⟩

/-- Two directories and one whose name breaks the line are hashed as one text, and so are two
bindings that break their last two fields in different places. -/
theorem digests_collide :
    (∃ inventory inventory',
      inventoryUnder id noGuards twoDirectories.root = .ok inventory ∧
      inventoryUnder id noGuards brokenName.root = .ok inventory' ∧
      inventory.digest = inventory'.digest ∧ ¬ twoDirectories.Same brokenName) ∧
    (Minted (bindingOf "ab" "c") ∧ Minted (bindingOf "a" "bc") ∧
      (bindingOf "ab" "c").digest id = (bindingOf "a" "bc").digest id ∧
      bindingOf "ab" "c" ≠ bindingOf "a" "bc") := by
  refine ⟨⟨_, _, rfl, rfl, by decide, ?_⟩, minted_bindingOf _ _, minted_bindingOf _ _, by decide,
    by decide⟩
  intro hsame
  have hb := (hsame ([nameOf "b" (by decide)], .directory)).mp
    (mem_cons_of_mem _ (mem_cons_of_mem _ mem_cons_self))
  rcases mem_cons.mp hb with hroot | hname
  · cases hroot
  · exact absurd (congrArg (fun held => Rel.bytes held.1) (mem_singleton.mp hname)) (by decide)

end Rivect.Executor
