import Rivect.Policy.Decide

/-! # Path resolution

The object that POSIX resolution names, component by component, against the canonical path that
the policy compares. A deny rule holds the objects below its own, and its own unless the rule's
spelling cancels its last component.
-/

namespace Rivect.EffectPolicy

open Lib List

/-- The components of a pathname; a trailing separator asks for a directory. -/
def posixComponents (path : Text) : List Text :=
  (split SLASH path).filter (· ≠ []) ++ if path.getLast? = some SLASH then [CUR_DIR] else []

/-- The root is a directory of every snapshot. -/
def IsDirectory (fs : Snapshot) (current : List Text) : Prop :=
  current = [] ∨ fs current = .directory

/-- `names`, taken from the directory `current`, name the object `object`; `trace` are the
components taken, `.` aside, and `links` counts the links among them. -/
inductive Resolves (fs : Snapshot) : List Text → List Text → List Text → ℕ → List Text → Prop
  | object (current : List Text) : Resolves fs current [] [] 0 current
  | here {current rest trace : List Text} {links : ℕ} {object : List Text} :
      IsDirectory fs current → Resolves fs current rest trace links object →
      Resolves fs current (CUR_DIR :: rest) trace links object
  | parent {current rest trace : List Text} {links : ℕ} {object : List Text} :
      IsDirectory fs current → Resolves fs current.dropLast rest trace links object →
      Resolves fs current (PARENT_DIR :: rest) (PARENT_DIR :: trace) links object
  | enter {current : List Text} {name : Text} {rest trace : List Text} {links : ℕ}
      {object : List Text} :
      name ≠ CUR_DIR → name ≠ PARENT_DIR → IsDirectory fs current →
      (fs (current ++ [name]) = .file ∨ fs (current ++ [name]) = .directory) →
      Resolves fs (current ++ [name]) rest trace links object →
      Resolves fs current (name :: rest) (name :: trace) links object
  | follow {current : List Text} {name target : Text} {rest trace : List Text} {links : ℕ}
      {object : List Text} :
      name ≠ CUR_DIR → name ≠ PARENT_DIR → IsDirectory fs current →
      fs (current ++ [name]) = .symlink target → target ≠ [] →
      Resolves fs (if isAbsolute target then [] else current) (posixComponents target ++ rest) trace
        links object →
      Resolves fs current (name :: rest) (name :: trace) (links + 1) object

/-- The absolute path names an object of the snapshot. -/
def Names (fs : Snapshot) (path : Text) (trace : List Text) (links : ℕ) (object : List Text) :
    Prop :=
  isAbsolute path = true ∧ Resolves fs [] (posixComponents path) trace links object

/-- Why an existing path has no canonical form. -/
inductive Unnamed (trace : List Text) (links : ℕ) : PolicyError → Prop
  | unicode {name : Text} : name ∈ trace → isUtf8 name = false → Unnamed trace links .invalidPath
  | overflow : SYMLINK_EXPANSIONS < links → Unnamed trace links .symlinkLoop

variable {unicode : Unicode} {fs : Snapshot}

section

variable {w : Walk} {name : Text} (hcur : name ≠ CUR_DIR) (hparent : name ≠ PARENT_DIR)
  (hdepth : w.missingDepth = none)

include hcur hparent hdepth

end

/-- What the loop makes of the components of an existing object. -/
structure Canonical (unicode : Unicode) (w : Walk) (trace object : List Text) (w' : Walk) :
    Prop where
  components : w'.components = object.map unicode.nfd
  collapsed : w'.missingTailCollapsed = true →
    (trace = [] ∧ w.missingTailCollapsed = true) ∨ trace.getLast? = some PARENT_DIR

theorem Unnamed.cons {trace : List Text} {links : ℕ} {e : PolicyError} (name : Text)
    (h : Unnamed trace links e) : Unnamed (name :: trace) links e := by
  cases h with
  | unicode hmem hutf8 => exact .unicode (mem_cons_of_mem _ hmem) hutf8
  | overflow hlt => exact .overflow hlt

theorem all_zip_caseEq {l l' : List Text} :
    ((l.zip l').all fun pair => caseEq unicode pair.1 pair.2) = true ↔
      (l.map unicode.caseFold).take l'.length = (l'.map unicode.caseFold).take l.length := by
  induction l generalizing l' with
  | nil => simp
  | cons a l ih =>
    cases l' with
    | nil => simp
    | cons b l' =>
      rw [zip_cons_cons, all_cons, Bool.and_eq_true, ih]
      simp [caseEq]

theorem sameComponents_iff {left right : CanonicalPath} :
    sameComponents unicode left right = true ↔
      left.components.map unicode.caseFold = right.components.map unicode.caseFold := by
  rw [sameComponents, Bool.and_eq_true, decide_eq_true_eq, all_zip_caseEq]
  constructor
  · rintro ⟨hlength, htake⟩
    simpa [hlength, take_of_length_le] using htake
  · intro h
    have hlength : left.components.length = right.components.length := by
      simpa using congrArg List.length h
    exact ⟨hlength, by simp [hlength, h]⟩

/-- The policy holds a rule for the path, as strict as the path's own spelling at most. -/
def Held (unicode : Unicode) (denies : List CanonicalPath) (identity : CanonicalPath) : Prop :=
  ∃ rule ∈ denies, sameComponents unicode rule identity = true ∧
    (identity.collapsedMissingTail = false → rule.collapsedMissingTail = false)

theorem Held.enroll {denies : List CanonicalPath} {identity : CanonicalPath}
    (h : Held unicode denies identity) (other : CanonicalPath) :
    Held unicode (Policy.enroll unicode other denies) identity := by
  induction denies with
  | nil =>
    obtain ⟨rule, hrule, -⟩ := h
    cases hrule
  | cons first rules ih =>
    obtain ⟨rule, hrule, hsame, hwide⟩ := h
    unfold Policy.enroll
    split
    · next hother =>
      rcases mem_cons.mp hrule with rfl | hrule
      · refine ⟨_, mem_cons_self, ?_⟩
        split
        · exact ⟨hsame, hwide⟩
        · next hcollapsed =>
          refine ⟨?_, fun _ => by simpa using hcollapsed⟩
          rw [sameComponents_iff] at *
          exact hother.symm.trans hsame
      · exact ⟨rule, mem_cons_of_mem _ hrule, hsame, hwide⟩
    · rcases mem_cons.mp hrule with rfl | hrule
      · exact ⟨rule, mem_cons_self, hsame, hwide⟩
      · obtain ⟨found, hfound, hheld⟩ := ih ⟨rule, hrule, hsame, hwide⟩
        exact ⟨found, mem_cons_of_mem _ hfound, hheld⟩

theorem Held.revoke {denies : List CanonicalPath} {identity other : CanonicalPath}
    (h : Held unicode denies identity) (hother : sameComponents unicode other identity = false) :
    Held unicode (denies.filter fun rule => !sameComponents unicode rule other) identity := by
  obtain ⟨rule, hrule, hsame, hwide⟩ := h
  refine ⟨rule, mem_filter.mpr ⟨hrule, ?_⟩, hsame, hwide⟩
  by_contra hkilled
  have hboth : sameComponents unicode rule other = true := by simpa using hkilled
  rw [sameComponents_iff] at hboth hsame
  have : sameComponents unicode other identity = true :=
    sameComponents_iff.mpr (hboth.symm.trans hsame)
  rw [hother] at this
  cases this

/-- The call does not revoke the rule of the identity. -/
def Retains (unicode : Unicode) (identity : CanonicalPath) : PolicyCall → Prop
  | .revokeDeny fs path => ∀ other, canonicalizePath unicode fs path = .ok other →
    sameComponents unicode other identity = false
  | _ => True

theorem Held.perform {policy : Policy} {identity : CanonicalPath} {call : PolicyCall}
    (h : Held unicode policy.denies identity) (hcall : Retains unicode identity call) :
    Held unicode (policy.perform unicode call).denies identity := by
  cases call with
  | grantClasses | revoke => exact h
  | enrollDenyTarget raw =>
    simp only [Policy.perform, Policy.enrollDenyTarget]
    split <;> exact h
  | enrollDeny fs path =>
    simp only [Policy.perform, Policy.enrollDeny]
    cases canonicalizePath unicode fs path with
    | ok other => exact h.enroll other
    | error e => exact h
  | revokeDeny fs path =>
    simp only [Policy.perform, Policy.revokeDeny]
    cases hother : canonicalizePath unicode fs path with
    | ok other => exact h.revoke (hcall other hother)
    | error e => exact h

theorem Held.after {policy : Policy} {identity : CanonicalPath} {calls : List PolicyCall}
    (h : Held unicode policy.denies identity) (hcalls : ∀ call ∈ calls, Retains unicode identity call) :
    Held unicode (policy.after unicode calls).denies identity := by
  induction calls generalizing policy with
  | nil => exact h
  | cons call calls ih =>
    exact ih (h.perform (hcalls call mem_cons_self))
      fun c hc => hcalls c (mem_cons_of_mem _ hc)

def nested : Snapshot := fun names =>
  if names = [ascii "r"] ∨ names = [ascii "r", ascii "y"] then .directory else .missing

def plainUnicode : Unicode := ⟨id, id⟩

def yolo : AdmissionContext := ⟨.yolo, false, false, false, false, false, false, false⟩

/-- A link to a denied directory. -/
def linked : Snapshot := fun names =>
  if names = [ascii "r"] ∨ names = [ascii "r", ascii "y"] then .directory
  else if names = [ascii "l"] then .symlink (ascii "/r/y/")
  else if names = [ascii "r", ascii "y", ascii "f"] then .file
  else .missing

end Rivect.EffectPolicy
