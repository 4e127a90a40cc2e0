import Rivect.Lib.Fallible
import Rivect.Policy.Text

/-! # Canonical paths

`canonicalize_path` over a snapshot of the filesystem: the loop that resolves one component after
the other, and why it ends.
-/

namespace Rivect.EffectPolicy

open Lib

/-- Why a path cannot be inspected; a missing path is no failure. -/
inductive IoErrorKind where
  | permissionDenied
  | notADirectory
  | filesystemLoop
  | other
deriving DecidableEq

inductive Node where
  | missing
  | file
  | directory
  | symlink (target : Text)
  /-- A link whose target cannot be read. -/
  | unreadableLink (kind : IoErrorKind)
  | error (kind : IoErrorKind)
deriving DecidableEq

/-- What `symlink_metadata` finds at the absolute path of these names. -/
abbrev Snapshot := List Text → Node

inductive PolicyError where
  | invalidPath
  | pathInspection (kind : IoErrorKind)
  | symlinkRead (kind : IoErrorKind)
  | symlinkLoop
deriving DecidableEq

/-- The maps of the Unicode packages: `nfd`, and the full case folding under which
`CaseFold::Full.case_eq` compares. -/
structure Unicode where
  nfd : Text → Text
  caseFold : Text → Text

structure CanonicalPath where
  components : List Text
  collapsedMissingTail : Bool
deriving DecidableEq

def isAbsolute (path : Text) : Bool := startsWith [SLASH] path

def CUR_DIR : Text := [DOT]

def PARENT_DIR : Text := [DOT, DOT]

/-- The names between the separators, without the empty ones and the current directory. -/
def pathComponents (path : Text) : List Text :=
  (split SLASH path).filter fun name => name ≠ [] ∧ name ≠ CUR_DIR

/-- The variables of the loop. -/
structure Walk where
  pending : List Text
  components : List Text
  resolved : List Text
  missingDepth : Option ℕ
  missingTailCollapsed : Bool
  symlinkExpansions : ℕ

def SYMLINK_EXPANSIONS : ℕ := 40

section

variable (unicode : Unicode)

def Walk.start (path : Text) : Walk := ⟨pathComponents path, [], [], none, false, 0⟩

def Walk.push (w : Walk) (name : Text) : Walk :=
  { w with
    components := w.components ++ [unicode.nfd name]
    resolved := w.resolved ++ [name] }

def Walk.pop (w : Walk) : Walk :=
  if w.components = [] then w
  else { w with components := w.components.dropLast, resolved := w.resolved.dropLast }

/-- A parent component. -/
def Walk.parent (w : Walk) : Walk :=
  let popped := w.pop
  { popped with
    missingTailCollapsed :=
      if popped.components.length < w.components.length then true else w.missingTailCollapsed
    missingDepth := w.missingDepth.filter fun depth => depth < popped.components.length }

/-- A link in the place of the component. -/
def Walk.expand (w : Walk) (target : Text) : Walk :=
  let w := { w with
    pending := pathComponents target ++ w.pending
    symlinkExpansions := w.symlinkExpansions + 1 }
  if isAbsolute target then { w with components := [], resolved := [] } else w

/-- The loop's body, on the component it has taken off `pending`. -/
def visit (fs : Snapshot) (w : Walk) (name : Text) : Except PolicyError Walk := do
  require (isUtf8 name = true) .invalidPath
  if name = CUR_DIR then .ok w
  else if name = PARENT_DIR then .ok w.parent
  else
    let w := { w with missingTailCollapsed := false }
    if w.missingDepth.isSome then .ok (w.push unicode name)
    else
      match fs (w.resolved ++ [name]) with
      | .symlink target => do
        require (w.symlinkExpansions < SYMLINK_EXPANSIONS) .symlinkLoop
        .ok (w.expand target)
      | .unreadableLink kind => do
        require (w.symlinkExpansions < SYMLINK_EXPANSIONS) .symlinkLoop
        .error (.symlinkRead kind)
      | .file | .directory => .ok (w.push unicode name)
      | .missing => .ok { w.push unicode name with missingDepth := some w.components.length }
      | .error kind => .error (.pathInspection kind)

theorem parent_same (w : Walk) :
    w.parent.pending = w.pending ∧ w.parent.symlinkExpansions = w.symlinkExpansions := by
  unfold Walk.parent Walk.pop
  dsimp only
  split <;> exact ⟨rfl, rfl⟩

theorem expand_expansions (w : Walk) (target : Text) :
    (w.expand target).symlinkExpansions = w.symlinkExpansions + 1 := by
  unfold Walk.expand
  dsimp only
  split <;> rfl

theorem visit_progress {fs : Snapshot} {w : Walk} {name : Text} :
    Within Fails (fun w' =>
        (w'.pending = w.pending ∧ w'.symlinkExpansions = w.symlinkExpansions) ∨
        (w.symlinkExpansions < SYMLINK_EXPANSIONS ∧
          w'.symlinkExpansions = w.symlinkExpansions + 1))
      (visit unicode fs w name) := by
  apply Within.skip
  intro _
  split
  · exact .inl ⟨rfl, rfl⟩
  · split
    · exact .inl (parent_same w)
    · dsimp only
      split
      · exact .inl ⟨rfl, rfl⟩
      · split
        · apply Within.guard
          exact fun hlt => .inr ⟨hlt, expand_expansions _ _⟩
        · apply Within.skip
          exact fun _ => trivial
        · exact .inl ⟨rfl, rfl⟩
        · exact .inl ⟨rfl, rfl⟩
        · exact .inl ⟨rfl, rfl⟩
        · trivial

/-- The loop: links are left to expand, then components to visit. -/
def walk (fs : Snapshot) (w : Walk) : Except PolicyError Walk :=
  match _hpending : w.pending with
  | [] => .ok w
  | name :: rest =>
    match _hvisit : visit unicode fs { w with pending := rest } name with
    | .ok w' => walk fs w'
    | .error e => .error e
termination_by (SYMLINK_EXPANSIONS - w.symlinkExpansions, w.pending.length)
decreasing_by
  have hprogress := (visit_progress unicode).of_ok _hvisit
  rcases hprogress with ⟨hrest, hsame⟩ | ⟨hlt, hmore⟩
  · dsimp only at hrest hsame
    rw [hrest, hsame, _hpending]
    exact Prod.Lex.right _ (Nat.lt_succ_self _)
  · dsimp only at hlt hmore
    apply Prod.Lex.left
    omega

def canonicalizePath (fs : Snapshot) (path : Text) : Except PolicyError CanonicalPath :=
  if isAbsolute path then
    (walk unicode fs (.start path)).map fun w => ⟨w.components, w.missingTailCollapsed⟩
  else .error .invalidPath

end

end Rivect.EffectPolicy
