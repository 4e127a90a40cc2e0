import Rivect.Actions.Selection

/-! # The stages of a plan

The gate waits for a passed verdict whenever `plan_work` is required. The facts require the
assessment with it; learned conditions weigh the two one by one.
-/

namespace Rivect.Actions

open Lib Learning TaskStore List

/-! ## Handlers -/

/-- Where a handler's own row stands under the bound selection. -/
inductive RowState where
  | absent (reason : SkipReason)
  | unresolved
  | opened (execution : ObligationExecution)
deriving DecidableEq

/-- A handler skips a row that is not open. -/
def RowState.skip : RowState → Option SkipReason
  | .absent reason => some reason
  | .unresolved => some .needsInformation
  | .opened _ => none

namespace Registry

/-- The current selection, where its facts are those of the request. -/
def bind (digest : CanonicalFacts → String) (r : Registry) (request : PlanRequest) :
    Except StoreError PlanSelectionRecord := do
  let selection ← found (r.tables.planSelections request.taskId)
    (.conflict .planSelectionMissing)
  require (selection.factsDigest = digest request.canonical)
    (.conflict (.planSelectionStale selection.revision))
  .ok selection

def rowState (r : Registry) (request : PlanRequest) (capability : String) : RowState :=
  match (r.tables.planObligations request.taskId).find? (·.capability = capability) with
  | none =>
    .absent (match (needs request r.learning.definition).find? (·.capability = capability) with
      | some ⟨_, .skip reason, _⟩ => reason
      | _ => .notNeeded)
  | some row => if row.applicability = .unresolved then .unresolved else .opened row.execution

/-- `assess_plan` up to its judgement: the reason it skips, or the revision it judges. -/
def assessPlan (digest : CanonicalFacts → String) (r : Registry) (request : PlanRequest) :
    Except StoreError (SkipReason ⊕ PlanRevisionRecord) := do
  let selection ← r.bind digest request
  match (r.rowState request ASSESS_PLAN).skip with
  | some reason => .ok (.inl reason)
  | none =>
    match (r.tables.plans request.taskId).reverse.find?
        (·.selectionRevision = selection.revision) with
    | none => .ok (.inl .needsInformation)
    | some latest => do
      require (latest.verdict = none) (.conflict (.planNotAssessable latest.revision))
      .ok (.inr latest)

end Registry

/-- Every required stage is satisfied, and the gate waits for a verdict that no handler
records. -/
structure Stuck (digest : CanonicalFacts → String) (r : Registry) (request : PlanRequest) :
    Prop where
  gate : r.tables.gateOn request.taskId = .paused [] [ASSESS_PLAN]
  satisfied : ∀ row ∈ r.tables.planObligations request.taskId, row.stage = true →
    row.applicability = .required → row.execution = .satisfied
  skipped : ∃ reason, r.assessPlan digest request = .ok (.inl reason)

/-! ## Learned conditions -/

def Requires (selected : List SelectedObligation) (capability : String) : Prop :=
  ∃ o ∈ selected, o.capability = capability ∧ o.applicability = .required

/-- What the active definition concludes of a capability for the request. -/
def conclusion (learned : LearningDefinition) (request : PlanRequest) (capability : String) :
    Option PredicateEffect :=
  learned.applicability capability (.forSelection request.kind request.surfaces.decided)

/-- The definition takes the two stages apart: it declines the assessment of a plan that the
facts or another conclusion require, or requires the plan of facts that need none. -/
inductive Decouples (request : PlanRequest) (learned : LearningDefinition) : Prop
  | declined : planNeed request ≠ .unresolved →
      conclusion learned request ASSESS_PLAN = some .decline →
      (conclusion learned request PLAN_WORK = some .require ∨
        (conclusion learned request PLAN_WORK = none ∧ planNeed request = .required)) →
      Decouples request learned
  | opened : planNeed request = .skip .notNeeded →
      conclusion learned request ASSESS_PLAN = none →
      conclusion learned request PLAN_WORK = some .require → Decouples request learned

variable {digest : CanonicalFacts → String} {calls : List Call} {r : Registry}
  {request : PlanRequest} {learned : LearningDefinition}

theorem planNeed_cases (request : PlanRequest) :
    planNeed request = .unresolved ∨ planNeed request = .required ∨
      planNeed request = .skip .notNeeded := by
  unfold planNeed
  split
  · exact .inl rfl
  · unfold Need.when
    split
    · exact .inr (.inl rfl)
    · exact .inr (.inr rfl)

theorem override_capability (row : Weighed) (facts : ConditionFacts) :
    (row.override learned facts).capability = row.capability := by
  unfold Weighed.override
  split
  · rfl
  · split <;> rfl

theorem mem_obligations {row : Weighed} (hrow : row ∈ factNeeds request) {o : SelectedObligation}
    (hcapability : o.capability = row.capability) :
    o ∈ obligations request learned ↔
      (row.override learned (.forSelection request.kind request.surfaces.decided)).obligation =
        some o := by
  constructor
  · intro ho
    obtain ⟨weighed, hweighed, hobligation⟩ := mem_filterMap.mp ho
    obtain ⟨row', hrow', rfl⟩ := mem_map.mp hweighed
    have hnodup : ((factNeeds request).map Weighed.capability).Nodup := by
      change SELECTION_CAPABILITIES.Nodup
      decide
    obtain rfl : row' = row := by
      apply inj_on_of_nodup_map hnodup hrow' hrow
      rw [← hcapability, Weighed.obligation_capability hobligation, override_capability]
    exact hobligation
  · exact fun ho => mem_filterMap.mpr ⟨_, mem_map_of_mem hrow, ho⟩

/-- What a conclusion makes of a need. -/
def overridden (need : Need) (effect : Option PredicateEffect) : Need :=
  if need = .unresolved then need
  else
    match effect with
    | some .require => .required
    | some .decline => .skip .notNeeded
    | none => need

theorem override_need (row : Weighed) :
    (row.override learned (.forSelection request.kind request.surfaces.decided)).need =
      overridden row.need (conclusion learned request row.capability) := by
  unfold Weighed.override overridden conclusion
  split
  · rfl
  · generalize learned.applicability row.capability _ = effect
    cases effect with
    | none => rfl
    | some effect => cases effect <;> rfl

theorem obligation_of_need {row : Weighed} :
    (∀ o, row.obligation = some o → o.applicability = .required → row.need = .required) ∧
      (row.need = .required → ∃ o, row.obligation = some o ∧ o.applicability = .required) ∧
      ((∃ o, row.obligation = some o) ↔ ∀ reason, row.need ≠ .skip reason) := by
  unfold Weighed.obligation
  cases row.need <;> simp

theorem requires_iff {row : Weighed} (hrow : row ∈ factNeeds request) :
    Requires (obligations request learned) row.capability ↔
      overridden row.need (conclusion learned request row.capability) = .required := by
  rw [← override_need]
  constructor
  · rintro ⟨o, ho, hcapability, happ⟩
    exact obligation_of_need.1 o ((mem_obligations hrow hcapability).mp ho) happ
  · intro hneed
    obtain ⟨o, ho, happ⟩ := obligation_of_need.2.1 hneed
    have hcapability : o.capability = row.capability :=
      (Weighed.obligation_capability ho).trans (override_capability _ _)
    exact ⟨o, (mem_obligations hrow hcapability).mpr ho, hcapability, happ⟩

theorem named_iff {row : Weighed} (hrow : row ∈ factNeeds request) :
    row.capability ∈ (obligations request learned).map SelectedObligation.capability ↔
      ∀ reason, overridden row.need (conclusion learned request row.capability) ≠
        .skip reason := by
  rw [← override_need, ← obligation_of_need.2.2, mem_map]
  constructor
  · rintro ⟨o, ho, hcapability⟩
    exact ⟨o, (mem_obligations hrow hcapability).mp ho⟩
  · rintro ⟨o, ho⟩
    have hcapability : o.capability = row.capability :=
      (Weighed.obligation_capability ho).trans (override_capability _ _)
    exact ⟨o, (mem_obligations hrow hcapability).mpr ho, hcapability⟩

theorem planRow_mem (request : PlanRequest) :
    (⟨PLAN_WORK, planNeed request, none⟩ : Weighed) ∈ factNeeds request := by
  simp [factNeeds]

theorem assessRow_mem (request : PlanRequest) :
    (⟨ASSESS_PLAN, planNeed request, none⟩ : Weighed) ∈ factNeeds request := by
  simp [factNeeds]

theorem decouples_iff : Decouples request learned ↔
    overridden (planNeed request) (conclusion learned request PLAN_WORK) = .required ∧
      overridden (planNeed request) (conclusion learned request ASSESS_PLAN) ≠ .required := by
  constructor
  · intro h
    cases h with
    | declined hneed hassess hplan =>
      rcases hplan with hplan | ⟨hplan, hrequired⟩
      · simp [overridden, hneed, hassess, hplan]
      · simp [overridden, hassess, hplan, hrequired]
    | opened hneed hassess hplan => simp [overridden, hneed, hassess, hplan]
  · rintro ⟨hplan, hassess⟩
    rcases planNeed_cases request with hneed | hneed | hneed
    · simp [overridden, hneed] at hplan
    · cases hA : conclusion learned request ASSESS_PLAN with
      | none => simp [overridden, hneed, hA] at hassess
      | some effect =>
        cases effect with
        | require => simp [overridden, hneed, hA] at hassess
        | decline =>
          apply Decouples.declined (by simp [hneed]) hA
          cases hP : conclusion learned request PLAN_WORK with
          | none => exact .inr ⟨rfl, hneed⟩
          | some effect =>
            cases effect with
            | require => exact .inl rfl
            | decline => simp [overridden, hneed, hP] at hplan
    · have hP : conclusion learned request PLAN_WORK = some .require := by
        cases hP : conclusion learned request PLAN_WORK with
        | none => simp [overridden, hneed, hP] at hplan
        | some effect =>
          cases effect with
          | require => rfl
          | decline => simp [overridden, hneed, hP] at hplan
      cases hA : conclusion learned request ASSESS_PLAN with
      | none => exact .opened hneed hA hP
      | some effect =>
        cases effect with
        | require => simp [overridden, hneed, hA] at hassess
        | decline => exact .declined (by simp [hneed]) hA (.inl hP)

/-- The two stages are required together unless the definition takes them apart. -/
theorem coupled_iff :
    (Requires (obligations request learned) PLAN_WORK →
      Requires (obligations request learned) ASSESS_PLAN) ↔ ¬ Decouples request learned := by
  rw [requires_iff (planRow_mem request), requires_iff (assessRow_mem request), decouples_iff]
  tauto

theorem named_together (h : ¬ Decouples request learned)
    (hplan : PLAN_WORK ∈ (obligations request learned).map SelectedObligation.capability) :
    ASSESS_PLAN ∈ (obligations request learned).map SelectedObligation.capability := by
  rw [named_iff (planRow_mem request)] at hplan
  rw [named_iff (assessRow_mem request)]
  intro reason hskip
  rw [decouples_iff] at h
  by_cases hneed : planNeed request = .unresolved
  · simp [overridden, hneed] at hskip
  · apply h
    refine ⟨?_, by simp [hskip]⟩
    cases hrequired : overridden (planNeed request) (conclusion learned request PLAN_WORK) with
    | required => rfl
    | skip reason => exact absurd hrequired (hplan reason)
    | unresolved =>
      have := planNeed_cases request
      simp only [overridden, if_neg hneed] at hrequired
      split at hrequired <;> simp_all

/-! ## Runs -/

/-- What a write leaves of the `plan_work` row. -/
structure KeepsWork (row row' : PlanObligationRecord) : Prop where
  capability : row'.capability = row.capability
  satisfied : row.capability = PLAN_WORK → row'.execution = .satisfied → row.execution = .satisfied

/-- The revisions stay, and nothing closes `plan_work`. -/
structure KeepsPlans (s s' : TaskStore) (t : TaskId) : Prop where
  selection : s'.planSelections t = s.planSelections t
  plans : ∀ p ∈ s.plans t, ∃ p' ∈ s'.plans t, p'.selectionRevision = p.selectionRevision
  rows : Forall₂ KeepsWork (s.planObligations t) (s'.planObligations t)

theorem KeepsWork.refl (row : PlanObligationRecord) : KeepsWork row row := ⟨rfl, fun _ h => h⟩

theorem KeepsWork.trans {row row' row'' : PlanObligationRecord} (h : KeepsWork row row')
    (h' : KeepsWork row' row'') : KeepsWork row row'' :=
  ⟨h'.capability.trans h.capability, fun hwork hdone =>
    h.satisfied hwork (h'.satisfied (h.capability.trans hwork) hdone)⟩

theorem keepsPlans_of_same {s s' : TaskStore} (h : SamePlan s s') (t : TaskId) :
    KeepsPlans s s' t := by
  refine ⟨by rw [h.selections], fun p hp => ⟨p, h.plans ▸ hp, rfl⟩, ?_⟩
  rw [h.rows]
  exact forall₂_same.mpr fun row _ => .refl row

theorem frames_keepsPlans : Frames KeepsWork fun s s' => ∀ t, KeepsPlans s s' t where
  task taskId :=
    { doubted := fun _ => ⟨rfl, fun _ h => h⟩
      answered := fun _ _ => ⟨rfl, fun _ h => h⟩
      reopened := fun _ => ⟨rfl, fun _ h => nomatch h⟩
      refl := fun s => keepsPlans_of_same (.refl s)
      trans := by
        intro _ _ s s' s'' h h' t
        refine ⟨(h' t).selection.trans (h t).selection, ?_,
          forall₂_trans (K := KeepsWork) (fun _ _ _ => KeepsWork.trans) (h t).rows (h' t).rows⟩
        intro p hp
        obtain ⟨p1, hp1, hrevision⟩ := (h t).plans p hp
        obtain ⟨p2, hp2, hrevision'⟩ := (h' t).plans p1 hp1
        exact ⟨p2, hp2, hrevision'.trans hrevision⟩
      weaken := id
      journal := fun _ _ => keepsPlans_of_same ⟨rfl, rfl, rfl⟩
      questions := fun _ _ _ => keepsPlans_of_same ⟨rfl, rfl, rfl⟩
      task := fun _ _ _ => keepsPlans_of_same ⟨rfl, rfl, rfl⟩
      next := fun _ _ _ _ _ _ => keepsPlans_of_same ⟨rfl, rfl, rfl⟩
      answers := fun _ _ => keepsPlans_of_same ⟨rfl, rfl, rfl⟩
      hold := fun _ _ => keepsPlans_of_same ⟨rfl, rfl, rfl⟩
      mark := fun _ _ => keepsPlans_of_same ⟨rfl, rfl, rfl⟩
      plans := by
        intro s plans hplans t
        refine ⟨rfl, ?_, forall₂_same.mpr fun row _ => .refl row⟩
        by_cases ht : t = taskId
        · subst ht
          simpa [setPlans] using hplans
        · simp only [setPlans, Function.update_of_ne ht]
          exact fun p hp => ⟨p, hp, rfl⟩
      rows := fun s source f hf t =>
        ⟨rfl, fun p hp => ⟨p, hp, rfl⟩, updatePlanRows_forall₂ KeepsWork.refl source hf t⟩ }
  records h := by
    obtain ⟨_, _, _, _, _, rfl⟩ := h.rest
    exact keepsPlans_of_same ⟨rfl, rfl, rfl⟩
  insert _ _ _ _ := keepsPlans_of_same ⟨rfl, rfl, rfl⟩

/-- A handler writes the rows that it owns, and `plan_work` owns its own. -/
def Handled : Op → Prop
  | .updatePlanRow _ update | .publishPlanFork _ _ update => update.capability ≠ PLAN_WORK
  | .recordPlanAssessment _ assessment => ∀ change ∈ assessment.changes, change.1 ≠ PLAN_WORK
  | _ => True

theorem Handled.rowsWithin {op : Op} (h : Handled op)
    (hop : ∀ taskId revision, op ≠ .recordPlanRevision taskId revision) :
    op.RowsWithin KeepsWork := by
  have hother : ∀ (change : PlanRowChange) {row : PlanObligationRecord},
      row.capability ≠ PLAN_WORK → KeepsWork row (change.apply row) := by
    intro change row hne
    cases change <;> exact ⟨rfl, fun hwork => absurd hwork hne⟩
  cases op with
  | updatePlanRow | publishPlanFork => exact fun row hrow => hother _ (hrow ▸ h)
  | recordPlanRevision taskId revision => exact absurd rfl (hop taskId revision)
  | recordPlanAssessment => exact fun change hchange row hrow => hother _ (hrow ▸ h change hchange)
  | _ => trivial

/-- The plan tables of a task as its handlers rely on them. -/
structure Staged (s : TaskStore) (t : TaskId) : Prop where
  stages : ∀ row ∈ s.planObligations t, row.stage = decide (row.capability ∈ PLAN_STAGES)
  paired : PLAN_WORK ∈ (s.planObligations t).map PlanObligationRecord.capability →
    ASSESS_PLAN ∈ (s.planObligations t).map PlanObligationRecord.capability
  worked : ∀ row ∈ s.planObligations t, row.capability = PLAN_WORK →
    row.execution = .satisfied → ∃ selection, s.planSelections t = some selection ∧
      ∃ p ∈ s.plans t, p.selectionRevision = selection.revision

theorem forall₂_mem_right {α β : Type*} {R : α → β → Prop} {l : List α} {l' : List β}
    (h : Forall₂ R l l') {b : β} (hb : b ∈ l') : ∃ a ∈ l, R a b := by
  induction h with
  | nil => cases hb
  | cons hr _ ih =>
    rcases mem_cons.mp hb with rfl | hb
    · exact ⟨_, mem_cons_self, hr⟩
    · obtain ⟨a, ha, hr⟩ := ih hb
      exact ⟨a, mem_cons_of_mem _ ha, hr⟩

theorem keepsRow_capabilities {rows rows' : List PlanObligationRecord}
    (h : Forall₂ KeepsRow rows rows') :
    rows'.map PlanObligationRecord.capability = rows.map PlanObligationRecord.capability := by
  induction h with
  | nil => rfl
  | cons hrow _ ih => rw [map_cons, map_cons, hrow.capability, ih]

/-- The rows of `s'` satisfied with their revision, the rest follows from the rows of `s`. -/
theorem Staged.of_worked {s s' : TaskStore} {t : TaskId} (h : Staged s t) (hplan : KeepsPlan s s')
    (hworked : ∀ row ∈ s'.planObligations t, row.capability = PLAN_WORK →
      row.execution = .satisfied → ∃ selection, s'.planSelections t = some selection ∧
        ∃ p ∈ s'.plans t, p.selectionRevision = selection.revision) : Staged s' t := by
  obtain ⟨-, hrows⟩ := hplan t
  refine ⟨?_, ?_, hworked⟩
  · intro row' hrow'
    obtain ⟨row, hrow, hkeep⟩ := forall₂_mem_right hrows hrow'
    rw [hkeep.stage, hkeep.capability]
    exact h.stages row hrow
  · rw [keepsRow_capabilities hrows]
    exact h.paired

theorem Staged.keeps {s s' : TaskStore} {t : TaskId} (h : Staged s t) (hplan : KeepsPlan s s')
    (hwork : KeepsPlans s s' t) : Staged s' t := by
  apply h.of_worked hplan
  intro row' hrow' hcapability hdone
  obtain ⟨row, hrow, hkeep⟩ := forall₂_mem_right hwork.rows hrow'
  have hplanned := hkeep.capability.symm.trans hcapability
  obtain ⟨selection, hcurrent, p, hp, hrevision⟩ :=
    h.worked row hrow hplanned (hkeep.satisfied hplanned hdone)
  obtain ⟨p', hp', hsame⟩ := hwork.plans p hp
  exact ⟨selection, hwork.selection.trans hcurrent, p', hp', hsame.trans hrevision⟩

theorem Staged.revise {s : TaskStore} {t taskId : TaskId} (h : Staged s t)
    (revision : PlanRevisionWrite) :
    Staged (s.perform (.recordPlanRevision taskId revision)).1 t := by
  have hkeep : KeepsPlan s (s.perform (.recordPlanRevision taskId revision)).1 :=
    perform_keepsPlan rfl
  obtain ⟨m, hm, hstep⟩ := perform_moves s (.recordPlanRevision taskId revision) t
  generalize (s.perform (.recordPlanRevision taskId revision)).1 = s' at hkeep hstep
  apply h.of_worked hkeep
  cases m with
  | stay =>
    have hrows : s'.planObligations t = s.planObligations t := congrArg TaskView.rows hstep
    have hplans : s'.plans t = s.plans t := congrArg TaskView.plans hstep
    rw [hrows, hplans, (hkeep t).1]
    exact h.worked
  | revise =>
    obtain ⟨-, ⟨selection, hcurrent, hrevision⟩, rows, hset⟩ := hstep
    have hplans : s'.plans t = _ := (settlesState_samePlan hset).2.2
    intro _ _ _ _
    refine ⟨selection, (hkeep t).1.trans hcurrent, ?_⟩
    rw [hplans]
    exact ⟨_, mem_append_right _ (mem_singleton_self _), hrevision.symm⟩
  | _ => exact hm.elim

theorem Staged.store {s : TaskStore} {t : TaskId} {op : Op} (h : Staged s t)
    (hop : op.selects = false) (hhandled : Handled op) : Staged (s.perform op).1 t := by
  by_cases hrevise : ∃ taskId revision, op = .recordPlanRevision taskId revision
  · obtain ⟨taskId, revision, rfl⟩ := hrevise
    exact h.revise revision
  · have hrows := hhandled.rowsWithin fun taskId revision hop => hrevise ⟨taskId, revision, hop⟩
    exact h.keeps (perform_keepsPlan hop) (frames_keepsPlans.perform hop hrows t)

/-- A kept selection changes no more than the applicability of its rows. -/
theorem restored_same (derived : List PlanRowWrite) (row : PlanObligationRecord) :
    (restored derived row).capability = row.capability ∧
      (restored derived row).stage = row.stage ∧
      (restored derived row).execution = row.execution := by
  unfold restored
  split <;> exact ⟨rfl, rfl, rfl⟩

theorem keptRows_eq_map (s : TaskStore) (t : TaskId) (derived : List PlanRowWrite) :
    ∃ f : PlanObligationRecord → PlanObligationRecord,
      s.keptRows t derived = (s.planObligations t).map f ∧
      ∀ row, (f row).capability = row.capability ∧ (f row).stage = row.stage ∧
        (f row).execution = row.execution := by
  unfold keptRows
  split
  · exact ⟨id, (map_id _).symm, fun _ => ⟨rfl, rfl, rfl⟩⟩
  · exact ⟨restored derived, rfl, restored_same derived⟩

theorem Staged.select {sessionId : SessionId} {shortlist : List String} {s tables : TaskStore}
    {selection : Selection} {t : TaskId} (h : Staged s t) (hcoupled : ¬ Decouples request learned)
    (hok : Actions.select digest learned s sessionId request shortlist =
      .ok (tables, selection)) : Staged tables t := by
  obtain ⟨record, hrecord, -⟩ := select_ok hok
  by_cases ht : t = request.taskId
  · subst ht
    cases hcurrent : (s.planSelections request.taskId).filter
        (·.factsDigest = digest request.canonical) with
    | none =>
      obtain ⟨-, hselection, hrows⟩ :=
        Within.of_ok (recordPlanSelection_anew sessionId (by exact hcurrent)) hrecord
      rw [map_map] at hrows
      refine ⟨?_, ?_, ?_⟩
      · rw [hrows]
        intro row hrow
        obtain ⟨o, -, rfl⟩ := mem_map.mp hrow
        rfl
      · rw [hrows, map_map]
        exact named_together hcoupled
      · rw [hrows]
        intro row hrow _ hdone
        obtain ⟨o, -, rfl⟩ := mem_map.mp hrow
        cases hdone
    | some current =>
      obtain ⟨rfl, hsame⟩ :=
        Within.of_ok (recordPlanSelection_kept sessionId (by exact hcurrent)) hrecord
      obtain ⟨f, hf, hkeep⟩ := keptRows_eq_map s request.taskId
        ((obligations request learned).map rowWrite)
      have hrows : tables.planObligations request.taskId =
          (s.planObligations request.taskId).map f := by
        rw [hsame.rows, ← hf]
        simp [setPlanRows]
      have hcapabilities : PlanObligationRecord.capability ∘ f = PlanObligationRecord.capability :=
        funext fun row => (hkeep row).1
      refine ⟨?_, ?_, ?_⟩
      · rw [hrows]
        intro row' hrow'
        obtain ⟨row, hrow, rfl⟩ := mem_map.mp hrow'
        rw [(hkeep row).1, (hkeep row).2.1]
        exact h.stages row hrow
      · rw [hrows, map_map, hcapabilities]
        exact h.paired
      · rw [hrows, hsame.selections, hsame.plans]
        intro row' hrow' hcapability hdone
        obtain ⟨row, hrow, rfl⟩ := mem_map.mp hrow'
        exact h.worked row hrow ((hkeep row).1.symm.trans hcapability)
          ((hkeep row).2.2.symm.trans hdone)
  · obtain ⟨hselection, hrows, hplans⟩ :=
      (recordPlanSelection_others sessionId _ ht).of_ok hrecord
    exact ⟨hrows ▸ h.stages, hrows ▸ h.paired, by rw [hrows, hselection, hplans]; exact h.worked⟩

/-- Every selection of the run keeps the two stages together, and every other call is made as the
handlers make it. -/
structure CoupledRun (digest : CanonicalFacts → String) (calls : List Call) : Prop where
  coupled : ∀ pre sessionId request shortlist post,
    calls = pre ++ .select sessionId request shortlist :: post →
    ¬ Decouples request (Registry.after digest pre).learning.definition
  handled : ∀ op direct, .store op direct ∈ calls → Handled op

theorem CoupledRun.left {rest : List Call} (h : CoupledRun digest (calls ++ rest)) :
    CoupledRun digest calls := by
  refine ⟨?_, fun op direct hop => h.handled op direct (mem_append_left _ hop)⟩
  rintro pre sessionId request shortlist post rfl
  apply h.coupled pre sessionId request shortlist (post ++ rest)
  rw [append_assoc, cons_append]

theorem staged_after (h : CoupledRun digest calls) (t : TaskId) :
    Staged (Registry.after digest calls).tables t := by
  induction calls using reverseRecOn with
  | nil =>
    refine ⟨fun _ hrow => ?_, fun hplan => ?_, fun _ hrow => ?_⟩
    · cases hrow
    · cases hplan
    · cases hrow
  | append_singleton calls call ih =>
    have hcalls := ih h.left
    rw [after_snoc]
    cases call with
    | store op direct => exact hcalls.store direct (h.handled op direct (by simp))
    | recordDelta | recordCorpus | activate | rollBack =>
      simp only [Registry.perform, learn_tables]
      exact hcalls
    | select sessionId request shortlist =>
      simp only [Registry.perform]
      split
      · next tables selection hok =>
        exact hcalls.select (h.coupled calls sessionId request shortlist [] rfl) hok
      · exact hcalls

theorem gateOn_paused {s : TaskStore} {t : TaskId} (h : s.gateOn t = .paused [] [ASSESS_PLAN])
    (hsatisfied : ∀ row ∈ s.planObligations t, row.stage = true →
      row.applicability = .required → row.execution = .satisfied) :
    (∀ row ∈ s.planObligations t, row.applicability ≠ .unresolved) ∧
      ∃ row ∈ s.planObligations t, row.requiresPlan = true := by
  unfold gateOn gate at h
  split at h
  · cases h
  · next selection _ =>
    dsimp only at h
    split at h
    · cases h
    · obtain ⟨hunresolved, hstages⟩ := PlanGate.paused.inj h
      refine ⟨?_, ?_⟩
      · intro row hrow hdoubt
        have hmem : row.capability ∈ ((s.planObligations t).filter
            (·.applicability = .unresolved)).map PlanObligationRecord.capability :=
          mem_map_of_mem (mem_filter.mpr ⟨hrow, by simpa using hdoubt⟩)
        rw [hunresolved] at hmem
        cases hmem
      · have hclosed : (s.planObligations t).filter (·.isOpenStage) = [] := by
          apply filter_eq_nil_iff.mpr
          intro row hrow hopen
          simp only [PlanObligationRecord.isOpenStage, Bool.and_eq_true, decide_eq_true_eq] at hopen
          exact hopen.2 (hsatisfied row hrow hopen.1.1 hopen.1.2)
        unfold openStages at hstages
        dsimp only at hstages
        rw [hclosed] at hstages
        split at hstages
        · next hplan => exact any_eq_true.mp hplan.1
        · cases hstages

theorem rowState_opened {capability : String} {row : PlanObligationRecord}
    (hrow : row ∈ r.tables.planObligations request.taskId) (hname : row.capability = capability)
    (hresolved : ∀ row ∈ r.tables.planObligations request.taskId,
      row.applicability ≠ .unresolved) :
    (r.rowState request capability).skip = none := by
  unfold Registry.rowState
  split
  · next hnone =>
    have := find?_eq_none.mp hnone row hrow
    simp [hname] at this
  · next found hfound =>
    rw [if_neg (hresolved found (mem_of_find?_eq_some hfound))]
    rfl

theorem assessPlan_judges {selection : PlanSelectionRecord} {p : PlanRevisionRecord}
    (hskip : (r.rowState request ASSESS_PLAN).skip = none)
    (hcurrent : r.tables.planSelections request.taskId = some selection)
    (hp : p ∈ r.tables.plans request.taskId) (hrevision : p.selectionRevision = selection.revision)
    (reason : SkipReason) : r.assessPlan digest request ≠ .ok (.inl reason) := by
  unfold Registry.assessPlan Registry.bind
  rw [hcurrent, found_some, ok_bind]
  by_cases hfacts : selection.factsDigest = digest request.canonical
  · rw [require_pos hfacts]
    simp only [ok_bind, hskip]
    split
    · next hnone =>
      have := find?_eq_none.mp hnone p (mem_reverse.mpr hp)
      simp [hrevision] at this
    · next latest _ =>
      intro h
      by_cases hverdict : latest.verdict = none
      · rw [require_pos hverdict] at h
        cases h
      · rw [require_neg hverdict] at h
        cases h
  · rw [require_neg hfacts]
    intro h
    cases h

theorem Staged.not_stuck (h : Staged r.tables request.taskId) : ¬ Stuck digest r request := by
  rintro ⟨hgate, hsatisfied, reason, hskipped⟩
  obtain ⟨hresolved, row, hrow, hplan⟩ := gateOn_paused hgate hsatisfied
  simp only [PlanObligationRecord.requiresPlan, Bool.and_eq_true, decide_eq_true_eq] at hplan
  obtain ⟨hcapability, hrequired⟩ := hplan
  have hstage : row.stage = true := by
    rw [h.stages row hrow, hcapability]
    rfl
  obtain ⟨selection, hcurrent, p, hp, hrevision⟩ :=
    h.worked row hrow hcapability (hsatisfied row hrow hstage hrequired)
  obtain ⟨assess, hassess, hname⟩ :=
    mem_map.mp (h.paired (mem_map.mpr ⟨row, hrow, hcapability⟩))
  exact assessPlan_judges (rowState_opened hassess hname hresolved) hcurrent hp hrevision reason
    hskipped

/-- The stages stay together exactly where no conclusion takes them apart, and then no reached
state is stuck. -/
theorem stages_coupled (request : PlanRequest) (learned : LearningDefinition)
    (digest : CanonicalFacts → String) (calls : List Call) :
    ((Requires (obligations request learned) PLAN_WORK →
      Requires (obligations request learned) ASSESS_PLAN) ↔ ¬ Decouples request learned) ∧
    (CoupledRun digest calls → ¬ Stuck digest (Registry.after digest calls) request) :=
  ⟨coupled_iff, fun h => (staged_after h request.taskId).not_stuck⟩

/-! ## A plan that nobody assesses -/

def onePlan : PlanRequest :=
  ⟨⟨"task"⟩, .planOnly, .known {.localOnly}, .approved, [⟨"part", ["criterion"], [], "test"⟩]⟩

/-- The digest of the facts of `onePlan`. -/
def planDigest (_ : CanonicalFacts) : String :=
  "1ba6d0693a59ad6471a8bf1ef7e6e3f65f900d95a032f8de03e2815cde146c52"

/-- The plan is selected and recorded. -/
def plannedOnce : List Call :=
  [.store oneCriterion oneCriterion_direct, .select ⟨"session"⟩ onePlan [],
    .store (.recordPlanRevision ⟨"task"⟩ ⟨PLAN_WORK, ASSESS_PLAN, 1, planDigest onePlan.canonical,
      "plan"⟩) rfl]

theorem plannedOnce_coupled : CoupledRun planDigest plannedOnce := by
  constructor
  · intro pre sessionId request shortlist post heq hdecouples
    match pre with
    | [] => cases heq
    | [_] =>
      cases heq
      cases hdecouples with
      | declined _ hassess => cases hassess
      | opened _ _ hplan => cases hplan
    | [_, _] => cases heq
    | [_, _, _] => cases heq
    | _ :: _ :: _ :: _ :: _ => cases heq
  · intro op direct hop
    simp only [plannedOnce, mem_cons, not_mem_nil, reduceCtorEq, false_or,
      or_false] at hop
    rcases hop with hop | hop <;> cases hop <;> trivial

theorem plannedOnce_not_stuck :
    ¬ Stuck planDigest (Registry.after planDigest plannedOnce) onePlan :=
  (stages_coupled onePlan ⟨[]⟩ planDigest plannedOnce).2 plannedOnce_coupled

def plannedFacts : ConditionFacts := .forSelection .planOnly (some {.localOnly})

/-- A condition that keeps a plan from being assessed, and the control of its corpus. -/
def declined : List Call :=
  [.recordDelta ⟨"control", 1,
      ⟨.applicability ASSESS_READINESS .require, some (.kind .audit)⟩, "trace"⟩,
    .recordDelta ⟨"decline", 1,
      ⟨.applicability ASSESS_PLAN .decline, some (.kind .planOnly)⟩, "trace"⟩,
    .recordCorpus "decline" [.transfer plannedFacts, .composition plannedFacts,
      .negativeControl (.forSelection .audit (some {.localOnly})) "control"],
    .activate "decline" 1]

def unassessed : List Call := declined ++ plannedOnce

theorem unassessed_stuck :
    ¬ ((∀ (request : PlanRequest) (learned : LearningDefinition),
        Requires (obligations request learned) PLAN_WORK →
          Requires (obligations request learned) ASSESS_PLAN) ∧
      ∀ (digest : CanonicalFacts → String) (calls : List Call),
        (∀ op direct, .store op direct ∈ calls → Handled op) →
        ∀ request, ¬ Stuck digest (Registry.after digest calls) request) := by
  rintro ⟨-, h⟩
  apply h planDigest unassessed _ onePlan
  · refine ⟨by decide +kernel, by decide +kernel, .notNeeded, by decide +kernel⟩
  · intro op direct hop
    simp only [unassessed, plannedOnce, declined, cons_append, nil_append,
      mem_cons, not_mem_nil, reduceCtorEq, false_or, or_false] at hop
    rcases hop with hop | hop <;> cases hop <;> trivial

end Rivect.Actions
