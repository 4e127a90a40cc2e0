import Rivect.Actions.Catalog
import Rivect.Learning.Store
import Rivect.TaskStore.Selections

/-! # The registry over a run

Selections, learned definitions and the other calls of the store, in any order.
-/

namespace Rivect.Actions

open Learning TaskStore List

/-- The tables that a selection reads and writes. -/
structure Registry where
  tables : TaskStore
  learning : LearningTables

/-- `record_plan_selection` is called by `select` alone. -/
inductive Call where
  | store (op : Op) (direct : op.selects = false)
  | recordDelta (candidate : DeltaCandidate)
  | recordCorpus (deltaId : String) (cases : List CorpusCase)
  | activate (deltaId : String) (expectedVersion : ℕ)
  | rollBack (deltaId : String) (expectedVersion : ℕ)
  | select (sessionId : SessionId) (request : PlanRequest) (shortlist : List String)

namespace Registry

def fresh : Registry := ⟨TaskStore.fresh, LearningTables.fresh⟩

/-- A transaction on the learning tables. -/
def learn (r : Registry) (result : Except StoreError LearningTables) : Registry :=
  match result with
  | .ok learning => { r with learning := learning }
  | .error _ => r

def select (digest : CanonicalFacts → String) (r : Registry) (sessionId : SessionId)
    (request : PlanRequest) (shortlist : List String) :
    Except StoreError (TaskStore × Selection) :=
  Actions.select digest r.learning.definition r.tables sessionId request shortlist

/-- One call, whether it succeeds or fails. -/
def perform (digest : CanonicalFacts → String) (r : Registry) : Call → Registry
  | .store op _ => { r with tables := (r.tables.perform op).1 }
  | .recordDelta candidate => r.learn (r.learning.recordDelta candidate)
  | .recordCorpus deltaId cases => r.learn (r.learning.recordCorpus deltaId cases)
  | .activate deltaId expectedVersion => r.learn (r.learning.activate deltaId expectedVersion)
  | .rollBack deltaId expectedVersion => r.learn (r.learning.rollBack deltaId expectedVersion)
  | .select sessionId request shortlist =>
    match select digest r sessionId request shortlist with
    | .ok (tables, _) => { r with tables := tables }
    | .error _ => r

/-- The tables after the calls. -/
def after (digest : CanonicalFacts → String) (calls : List Call) : Registry :=
  calls.foldl (perform digest) fresh

/-- No current selection has the digest of the facts. -/
def Anew (digest : CanonicalFacts → String) (r : Registry) (request : PlanRequest) : Prop :=
  (r.tables.planSelections request.taskId).filter (·.factsDigest = digest request.canonical) =
    none

end Registry

variable {digest : CanonicalFacts → String} {r : Registry} {request request' : PlanRequest}
  {learned learned' : LearningDefinition}

theorem after_snoc (calls : List Call) (call : Call) :
    Registry.after digest (calls ++ [call]) =
      (Registry.after digest calls).perform digest call := by
  simp [Registry.after]

theorem learn_tables (result : Except StoreError LearningTables) :
    (r.learn result).tables = r.tables := by
  cases result <;> rfl

/-! ## Obligations -/

theorem needs_capabilities (request : PlanRequest) (learned : LearningDefinition) :
    (needs request learned).map Weighed.capability = SELECTION_CAPABILITIES := by
  rw [needs, map_map]
  have hkeep : ∀ row ∈ factNeeds request, (Weighed.capability ∘ Weighed.override learned
      (.forSelection request.kind request.surfaces.decided)) row = row.capability := by
    intro row _
    simp only [Function.comp, Weighed.override]
    split
    · rfl
    · split <;> rfl
  rw [map_congr_left hkeep]
  rfl

theorem Weighed.obligation_capability {row : Weighed} {o : SelectedObligation}
    (h : row.obligation = some o) : o.capability = row.capability := by
  unfold Weighed.obligation at h
  split at h <;> cases h <;> rfl

theorem obligations_nodup (request : PlanRequest) (learned : LearningDefinition) :
    ((obligations request learned).map SelectedObligation.capability).Nodup := by
  have hsub : ∀ rows : List Weighed,
      ((rows.filterMap Weighed.obligation).map SelectedObligation.capability).Sublist
        (rows.map Weighed.capability) := by
    intro rows
    induction rows with
    | nil => exact .slnil
    | cons row rows ih =>
      cases ho : row.obligation with
      | none => simpa [filterMap_cons, ho] using ih.cons _
      | some o =>
        simpa [filterMap_cons, ho, Weighed.obligation_capability ho] using
          ih.cons_cons row.capability
  have hnodup : SELECTION_CAPABILITIES.Nodup := by decide
  rw [← needs_capabilities request learned] at hnodup
  exact (hsub _).nodup hnodup

theorem factNeeds_canonical (h : request.canonical = request'.canonical) :
    factNeeds request = factNeeds request' := by
  cases request
  cases request'
  simp only [PlanRequest.canonical, CanonicalFacts.mk.injEq] at h
  obtain ⟨rfl, hsurfaces, rfl, rfl⟩ := h
  simp only [factNeeds, frameNeed, riskNeed, planNeed, inspectNeed, securityNeed, edits, risky,
    isApproved, isCoordinated, readinessEquivalent, hsurfaces]
  rfl

/-- The need that an obligation comes from; a learned condition leaves undecided ones alone. -/
theorem obligation_need {o : SelectedObligation} (h : o ∈ obligations request learned) :
    ∃ row ∈ factNeeds request, row.capability = o.capability ∧
      o.applicability = if row.need = .unresolved then .unresolved else .required := by
  obtain ⟨weighed, hweighed, ho⟩ := mem_filterMap.mp h
  obtain ⟨row, hrow, rfl⟩ := mem_map.mp hweighed
  refine ⟨row, hrow, ?_⟩
  unfold Weighed.override at ho
  split at ho
  · next hneed =>
    obtain rfl : _ = o := by simpa [Weighed.obligation, hneed] using ho
    simp [hneed]
  · next hneed =>
    rw [if_neg hneed]
    split at ho
    · obtain rfl : _ = o := by simpa [Weighed.obligation] using ho
      exact ⟨rfl, rfl⟩
    · simp [Weighed.obligation] at ho
    · cases hrequired : row.need with
      | required =>
        obtain rfl : _ = o := by simpa [Weighed.obligation, hrequired] using ho
        exact ⟨rfl, rfl⟩
      | unresolved => exact absurd hrequired hneed
      | skip => simp [Weighed.obligation, hrequired] at ho

/-- The same facts decide alike, whatever has been learned. -/
theorem obligation_applicability (hfacts : request.canonical = request'.canonical)
    {o o' : SelectedObligation} (ho : o ∈ obligations request learned)
    (ho' : o' ∈ obligations request' learned') (hcapability : o.capability = o'.capability) :
    o.applicability = o'.applicability := by
  obtain ⟨row, hrow, hname, happ⟩ := obligation_need ho
  obtain ⟨row', hrow', hname', happ'⟩ := obligation_need ho'
  rw [← factNeeds_canonical hfacts] at hrow'
  have hnodup : ((factNeeds request).map Weighed.capability).Nodup := by
    change SELECTION_CAPABILITIES.Nodup
    decide
  obtain rfl : row = row' := inj_on_of_nodup_map hnodup hrow hrow'
    (hname.trans (hcapability.trans hname'.symm))
  rw [happ, happ']

end Rivect.Actions
