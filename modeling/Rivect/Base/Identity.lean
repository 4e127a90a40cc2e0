import Rivect.Learning.Store

/-! # Identity rules

The rule set that a base is released with and the placement of one subject, after
`src/identity.rs`.
-/

namespace Rivect.Base

open Lib List

def PERSONAL_NAMESPACE : String := "personal"

/-- A segment of the id equals the reserved namespace, case folded. -/
def claimsPersonalNamespace (id : String) : Bool :=
  let segments := id.toList.splitOn ':'
  1 < segments.length &&
    segments.any fun segment => segment.map Char.toLower = PERSONAL_NAMESPACE.toList

inductive IdentityKind where
  | action
  | role
deriving DecidableEq

inductive MigrationRule where
  | rename
  | split
  | merge
deriving DecidableEq

structure IdentityMigration where
  baseVersion : ℕ
  kind : IdentityKind
  oldId : String
  newId : String
  rule : MigrationRule
  subject : Option String
deriving DecidableEq

inductive IdentityError where
  | store (source : StoreError)
  | unknownBase (offered recorded : ℕ)
  | personalNamespace (id : String)
  | ambiguous (kind : IdentityKind) (subject first second : String)
  | malformed (oldId newId detail : String)
  | unknownTarget (oldId newId : String) (kind : IdentityKind)
  | conflicting (oldId newId : String) (rule : MigrationRule)
  | conflictingBindings (kind : IdentityKind) (subject first second : String)
  | compositionExceeded (baseVersion size limit : ℕ)
deriving DecidableEq

namespace IdentityMigration

/-- The subject that the rule claims. -/
def claim (migration : IdentityMigration) : String := migration.subject.getD migration.oldId

def malformed (migration : IdentityMigration) (detail : String) : IdentityError :=
  .malformed migration.oldId migration.newId detail

/-- Only a split names a subject, and it is the id that the rule splits. -/
def validateSubject (migration : IdentityMigration) : Except IdentityError Unit :=
  match migration.rule, migration.subject with
  | .split, some subject => do
    require (claimsPersonalNamespace subject = false) (.personalNamespace subject)
    require (isBlank subject = false) (migration.malformed "names an empty subject")
    require (subject = migration.oldId)
      (migration.malformed "splits an id other than the subject it inherits")
  | .split, none =>
    .error (migration.malformed "splits without naming the subject it inherits")
  | .rename, some _ | .merge, some _ =>
    .error (migration.malformed "names a subject without splitting")
  | .rename, none | .merge, none => .ok ()

def validate (migration : IdentityMigration) : Except IdentityError Unit := do
  require (claimsPersonalNamespace migration.oldId = false) (.personalNamespace migration.oldId)
  require (claimsPersonalNamespace migration.newId = false) (.personalNamespace migration.newId)
  require (isBlank migration.oldId = false ∧ isBlank migration.newId = false)
    (migration.malformed "carries an empty id")
  require (migration.oldId ≠ migration.newId)
    (migration.malformed "names one id as both source and target")
  migration.validateSubject
  require (migration.kind = .action → weighedCapability migration.newId = true)
    (.unknownTarget migration.oldId migration.newId migration.kind)

end IdentityMigration

/-- The loop of `IdentityRules::new` over the subjects already claimed. -/
def claimAll (baseVersion : ℕ) (claimed : List IdentityMigration) :
    List IdentityMigration → Except IdentityError Unit
  | [] => .ok ()
  | migration :: rest => do
    require (migration.baseVersion = baseVersion)
      (.unknownBase migration.baseVersion baseVersion)
    migration.validate
    match claimed.find? fun m => m.kind = migration.kind ∧ m.claim = migration.claim with
    | some first =>
      if first.newId = migration.newId then claimAll baseVersion claimed rest
      else .error (.ambiguous migration.kind migration.claim first.newId migration.newId)
    | none => claimAll baseVersion (claimed ++ [migration]) rest

/-- What every accepted rule set has: one base, well-formed rules, one target for a source. -/
structure Consistent (baseVersion : ℕ) (migrations : List IdentityMigration) : Prop where
  base : ∀ m ∈ migrations, m.baseVersion = baseVersion
  valid : ∀ m ∈ migrations, m.validate = .ok ()
  target : ∀ m ∈ migrations, ∀ m' ∈ migrations, m.kind = m'.kind → m.oldId = m'.oldId →
    m.newId = m'.newId

namespace IdentityMigration

theorem validateSubject_within (m : IdentityMigration) :
    Within Fails (fun _ => m.claim = m.oldId) m.validateSubject := by
  unfold validateSubject
  split
  · rename_i subject _ hsubject
    apply Within.guard
    intro _
    apply Within.guard
    intro _
    refine (Within.require fun _ => trivial).imp fun _ heq => ?_
    simp [claim, hsubject, heq]
  · trivial
  · trivial
  · trivial
  · rename_i hsubject
    simp [claim, hsubject]
  · rename_i hsubject
    simp [claim, hsubject]

/-- A valid rule renames, keeps to the capabilities and claims its own source. -/
theorem of_validate {m : IdentityMigration} (h : m.validate = .ok ()) :
    m.oldId ≠ m.newId ∧ m.claim = m.oldId ∧
      (m.kind = .action → weighedCapability m.newId = true) := by
  have hvalid : Within Fails (fun _ => m.oldId ≠ m.newId ∧ m.claim = m.oldId ∧
      (m.kind = .action → weighedCapability m.newId = true)) m.validate := by
    apply Within.guard
    intro _
    apply Within.guard
    intro _
    apply Within.guard
    intro _
    apply Within.guard
    intro hne
    apply Within.bind m.validateSubject_within
    intro _ hclaim
    exact (Within.require fun _ => trivial).imp fun _ htarget => ⟨hne, hclaim, htarget⟩
  exact hvalid.of_ok h

end IdentityMigration

/-- Every claimed rule is of the set's own, and the set claims what the loop has met. -/
theorem consistent_of_claimAll {baseVersion : ℕ} {claimed seen rest : List IdentityMigration}
    (h : claimAll baseVersion claimed rest = .ok ()) (hseen : Consistent baseVersion seen)
    (hsub : claimed ⊆ seen)
    (hcovers : ∀ m ∈ seen, ∃ m' ∈ claimed, m'.kind = m.kind ∧ m'.oldId = m.oldId) :
    Consistent baseVersion (seen ++ rest) := by
  -- induction on the rules still to claim; `claimed` has one rule for each claim of `seen`
  induction rest generalizing claimed seen with
  | nil => simpa using hseen
  | cons migration rest ih =>
    unfold claimAll at h
    by_cases hbase : migration.baseVersion = baseVersion
    swap
    · simp [hbase] at h
    cases hvalid : migration.validate with
    | error e => simp [hbase, hvalid] at h
    | ok _ =>
      simp only [hbase, require_pos, hvalid, ok_bind] at h
      have hclaim := (IdentityMigration.of_validate hvalid).2.1
      have hsplit : seen ++ migration :: rest = (seen ++ [migration]) ++ rest := by simp
      have hextend : (∀ m ∈ seen, m.kind = migration.kind → m.oldId = migration.oldId →
          m.newId = migration.newId) → Consistent baseVersion (seen ++ [migration]) := by
        intro hagree
        refine ⟨?_, ?_, ?_⟩
        · intro m hm
          rcases mem_append.mp hm with hm | hm
          · exact hseen.base m hm
          · rw [mem_singleton.mp hm, hbase]
        · intro m hm
          rcases mem_append.mp hm with hm | hm
          · exact hseen.valid m hm
          · rw [mem_singleton.mp hm, hvalid]
        · intro m hm m' hm' hkind hold
          rcases mem_append.mp hm with hm | hm <;>
            rcases mem_append.mp hm' with hm' | hm'
          · exact hseen.target m hm m' hm' hkind hold
          · rw [mem_singleton.mp hm'] at hkind hold ⊢
            exact hagree m hm hkind hold
          · rw [mem_singleton.mp hm] at hkind hold ⊢
            exact (hagree m' hm' hkind.symm hold.symm).symm
          · rw [mem_singleton.mp hm, mem_singleton.mp hm']
      rw [hsplit]
      have hclaimed : ∀ m ∈ claimed, m.claim = m.oldId := fun m hm =>
        (IdentityMigration.of_validate (hseen.valid m (hsub hm))).2.1
      cases hfirst : claimed.find? fun m =>
          decide (m.kind = migration.kind ∧ m.claim = migration.claim) with
      -- a rule claimed before: it must say the same new id, and nothing is claimed
      | some first =>
        rw [hfirst] at h
        have hmem := mem_of_find?_eq_some hfirst
        have hkey : first.kind = migration.kind ∧ first.claim = migration.claim := by
          simpa using find?_some hfirst
        rw [hclaimed first hmem, hclaim] at hkey
        by_cases hsame : first.newId = migration.newId
        swap
        · simp [hsame] at h
        simp only [hsame, if_true] at h
        refine ih h (hextend ?_) (fun m hm => mem_append_left _ (hsub hm)) ?_
        · intro m hm hkind hold
          rw [← hsame]
          exact hseen.target m hm first (hsub hmem) (hkind.trans hkey.1.symm)
            (hold.trans hkey.2.symm)
        · intro m hm
          rcases mem_append.mp hm with hm | hm
          · exact hcovers m hm
          · rw [mem_singleton.mp hm]
            exact ⟨first, hmem, hkey⟩
      | none =>
        rw [hfirst] at h
        refine ih h (hextend ?_) ?_ ?_
        · intro m hm hkind hold
          obtain ⟨m', hm', hkind', hold'⟩ := hcovers m hm
          have := find?_eq_none.mp hfirst m' hm'
          simp [hclaimed m' hm', hclaim, hkind'.trans hkind, hold'.trans hold] at this
        · intro m hm
          rcases mem_append.mp hm with hm | hm
          · exact mem_append_left _ (hsub hm)
          · exact mem_append_right _ hm
        · intro m hm
          rcases mem_append.mp hm with hm | hm
          · obtain ⟨m', hm', hkey⟩ := hcovers m hm
            exact ⟨m', mem_append_left _ hm', hkey⟩
          · rw [mem_singleton.mp hm]
            exact ⟨migration, mem_append_right _ mem_cons_self, rfl, rfl⟩

theorem Consistent.of_claimAll {baseVersion : ℕ} {migrations : List IdentityMigration}
    (h : claimAll baseVersion [] migrations = .ok ()) : Consistent baseVersion migrations :=
  consistent_of_claimAll h ⟨by simp, by simp, by simp⟩ (fun _ h => h) (by simp)

/-- An accepted rule set; only `IdentityRules.new` decides what is one. -/
structure IdentityRules where
  baseVersion : ℕ
  migrations : List IdentityMigration
  consistent : Consistent baseVersion migrations

inductive Placement where
  | rebound (target : String)
  | unassigned
deriving DecidableEq

namespace IdentityRules

def new (baseVersion : ℕ) (migrations : List IdentityMigration) :
    Except IdentityError IdentityRules :=
  match h : claimAll baseVersion [] migrations with
  | .ok _ => .ok ⟨baseVersion, migrations, .of_claimAll h⟩
  | .error e => .error e

def place (rules : IdentityRules) (kind : IdentityKind) (subject : String) : Placement :=
  match rules.migrations.find? fun m => m.kind = kind ∧ m.oldId = subject with
  | some migration => .rebound migration.newId
  | none => .unassigned

theorem new_ok {baseVersion : ℕ} {migrations : List IdentityMigration} {rules : IdentityRules}
    (h : new baseVersion migrations = .ok rules) :
    rules.baseVersion = baseVersion ∧ rules.migrations = migrations := by
  unfold new at h
  split at h
  · cases h
    exact ⟨rfl, rfl⟩
  · cases h

theorem place_of_mem (rules : IdentityRules) {m : IdentityMigration} (h : m ∈ rules.migrations) :
    rules.place m.kind m.oldId = .rebound m.newId := by
  unfold place
  cases hfind : rules.migrations.find? fun m' =>
      decide (m'.kind = m.kind ∧ m'.oldId = m.oldId) with
  | none =>
    have := find?_eq_none.mp hfind m h
    simp at this
  | some first =>
    have hkey : first.kind = m.kind ∧ first.oldId = m.oldId := by
      simpa using find?_some hfind
    exact congrArg Placement.rebound
      (rules.consistent.target first (mem_of_find?_eq_some hfind) m h hkey.1 hkey.2)

theorem place_rebound (rules : IdentityRules) {kind : IdentityKind} {subject target : String}
    (h : rules.place kind subject = .rebound target) :
    ∃ m ∈ rules.migrations, m.kind = kind ∧ m.oldId = subject ∧ m.newId = target := by
  unfold place at h
  split at h
  · rename_i m hfind
    cases h
    have hkey : m.kind = kind ∧ m.oldId = subject := by simpa using find?_some hfind
    exact ⟨m, mem_of_find?_eq_some hfind, hkey.1, hkey.2, rfl⟩
  · cases h

theorem place_unassigned (rules : IdentityRules) {kind : IdentityKind} {subject : String} :
    rules.place kind subject = .unassigned ↔
      ∀ m ∈ rules.migrations, m.kind = kind → m.oldId ≠ subject := by
  unfold place
  cases hfind : rules.migrations.find? fun m => decide (m.kind = kind ∧ m.oldId = subject) with
  | none => simpa using hfind
  | some m =>
    have hkey : m.kind = kind ∧ m.oldId = subject := by simpa using find?_some hfind
    simp only [reduceCtorEq, false_iff]
    exact fun h => h m (mem_of_find?_eq_some hfind) hkey.1 hkey.2

theorem place_ne (rules : IdentityRules) {kind : IdentityKind} {subject target : String}
    (h : rules.place kind subject = .rebound target) : target ≠ subject := by
  obtain ⟨m, hm, -, rfl, rfl⟩ := rules.place_rebound h
  exact (IdentityMigration.of_validate (rules.consistent.valid m hm)).1.symm

end IdentityRules

end Rivect.Base
