import Rivect.Executor.Binding
import Rivect.Executor.Capture

/-! # The configuration that a check is bound to

`WorkflowOffState` and `verify_owner_context` of `src/executor.rs`: a handoff binds the owner's
generation, mode and sources, and an admission goes on only where they are still the owner's own.
-/

namespace Rivect.Executor

inductive WorkflowOwnerMode where
  | enabled
  | explicitOff
deriving DecidableEq

/-- What the owner reads of an effective configuration. `effective` is `workflow.enabled` where it is
a visible truth value. -/
structure EffectiveConfig where
  effective : Option Bool
  sourceKind : String
  sourcesDigest : String

/-- The user's own `false`, never a shipped default. -/
def explicitUserOff (config : EffectiveConfig) : Bool :=
  config.effective = some false && config.sourceKind = "user"

def ownerMode (config : EffectiveConfig) : WorkflowOwnerMode :=
  if explicitUserOff config then .explicitOff else .enabled

structure OwnerSnapshot where
  generation : ℕ
  mode : WorkflowOwnerMode
  sourcesDigest : String
deriving DecidableEq

namespace OwnerSnapshot

/-- Moves the generation unconditionally. -/
def advance (snapshot : OwnerSnapshot) (config : EffectiveConfig) : OwnerSnapshot :=
  ⟨min (snapshot.generation + 1) U64_MAX, ownerMode config, config.sourcesDigest⟩

/-- Moves the generation where the mode or the sources have changed. -/
def refresh (snapshot : OwnerSnapshot) (config : EffectiveConfig) : OwnerSnapshot :=
  if snapshot.mode ≠ ownerMode config ∨ snapshot.sourcesDigest ≠ config.sourcesDigest then
    snapshot.advance config
  else snapshot

end OwnerSnapshot

/-- The bound generation, mode and sources must still be the current ones. -/
def verifyOwnerContext (current : OwnerSnapshot) (generation : ℕ) (sourcesDigest : String)
    (explicitOff : Bool) : Except CheckError Unit :=
  if current.generation ≠ generation then
    .error (.selectionMismatch (s!"the config owner moved: generation {current.generation} is " ++
      s!"not the bound {generation}"))
  else if decide (current.mode = .explicitOff) ≠ explicitOff then
    .error (.selectionMismatch (if explicitOff then
      "the bound explicit workflow-off is no longer the owner's mode: the workflow was toggled"
    else "the workflow was toggled off after the native admission bound an enabled owner"))
  else if current.sourcesDigest ≠ sourcesDigest then
    .error (.selectionMismatch
      "the workflow-off context is stale: the config sources changed since the handoff")
  else .ok ()

/-- The reconsult of a handoff that bound one snapshot, where the owner has come to another. -/
def reconsult (bound current : OwnerSnapshot) : Except CheckError Unit :=
  verifyOwnerContext current bound.generation bound.sourcesDigest (bound.mode = .explicitOff)

inductive OwnerCall where
  | refresh (config : EffectiveConfig)
  | advance (config : EffectiveConfig)

namespace OwnerSnapshot

def perform (snapshot : OwnerSnapshot) : OwnerCall → OwnerSnapshot
  | .refresh config => snapshot.refresh config
  | .advance config => snapshot.advance config

/-- The call is a refresh that finds the owner's mode and sources as they are. -/
def Quiet (snapshot : OwnerSnapshot) (call : OwnerCall) : Prop :=
  ∃ config, call = .refresh config ∧ ownerMode config = snapshot.mode ∧
    config.sourcesDigest = snapshot.sourcesDigest

theorem perform_quiet {snapshot : OwnerSnapshot} {call : OwnerCall} (h : snapshot.Quiet call) :
    snapshot.perform call = snapshot := by
  obtain ⟨config, rfl, hmode, hsources⟩ := h
  exact if_neg (by simp [hmode, hsources])

/-- Any other call takes a new generation while there is one. -/
theorem perform_moves {snapshot : OwnerSnapshot} {call : OwnerCall} (h : ¬ snapshot.Quiet call) :
    (snapshot.perform call).generation = min (snapshot.generation + 1) U64_MAX := by
  cases call with
  | advance config => rfl
  | refresh config =>
    rw [perform, refresh, if_pos]
    · rfl
    · by_contra hsame
      rw [not_or, not_not, not_not] at hsame
      exact h ⟨config, rfl, hsame.1.symm, hsame.2.symm⟩

theorem generation_foldl (snapshot : OwnerSnapshot) (calls : List OwnerCall)
    (h : snapshot.generation ≤ U64_MAX) :
    snapshot.generation ≤ (calls.foldl perform snapshot).generation := by
  induction calls generalizing snapshot with
  | nil => exact le_rfl
  | cons call calls ih =>
    by_cases hquiet : snapshot.Quiet call
    · rw [List.foldl_cons, perform_quiet hquiet]
      exact ih snapshot h
    · have hmoves := perform_moves hquiet
      have hlater := ih (snapshot.perform call) (by omega)
      rw [List.foldl_cons]
      omega

end OwnerSnapshot

theorem reconsult_iff (bound current : OwnerSnapshot) :
    reconsult bound current = .ok () ↔ current = bound := by
  obtain ⟨generation, mode, sources⟩ := bound
  obtain ⟨generation', mode', sources'⟩ := current
  unfold reconsult verifyOwnerContext
  cases mode <;> cases mode' <;> simp [ite_eq_iff]

/-- **No configuration comes back.** Short of the last generation, a bound context is read as
current exactly where every call since the handoff has found the owner as it was: off, on and off
again ends it, as does an edit to the same bytes. -/
theorem reconsult_exact (bound : OwnerSnapshot) (h : bound.generation < U64_MAX)
    (calls : List OwnerCall) :
    reconsult bound (calls.foldl OwnerSnapshot.perform bound) = .ok () ↔
      ∀ call ∈ calls, bound.Quiet call := by
  rw [reconsult_iff]
  induction calls with
  | nil => simp
  | cons call calls ih =>
    rw [List.forall_mem_cons, List.foldl_cons]
    by_cases hquiet : bound.Quiet call
    · rw [OwnerSnapshot.perform_quiet hquiet, ih]
      exact (and_iff_right hquiet).symm
    · refine iff_of_false (fun hback => ?_) fun hall => hquiet hall.1
      have hmoves := OwnerSnapshot.perform_moves hquiet
      have hlater := OwnerSnapshot.generation_foldl (bound.perform call) calls (by omega)
      rw [hback] at hlater
      omega

/-- Off and on again. -/
theorem reconsult_exact_toggled :
    let bound : OwnerSnapshot := ⟨1, .enabled, "d"⟩
    ¬ reconsult bound ([.refresh ⟨some false, "user", "e"⟩,
      .refresh ⟨some true, "user", "d"⟩].foldl OwnerSnapshot.perform bound) = .ok () := by
  intro bound h
  obtain ⟨config, hconfig, hmode, -⟩ :=
    (reconsult_exact bound (by decide) _).mp h _ List.mem_cons_self
  cases hconfig
  cases hmode

end Rivect.Executor
