import Rivect.TaskStore.Moves

/-! # What a plan write makes of a waiting task

A task that waits without a pending question keeps its lifecycle in a plan write. What the write
makes of the plan tables, and whether it is refused, is read off the tables before it.
-/

namespace Rivect

open Lib List

/-- The revision of the question that the row waits on can be stored. -/
def PlanObligationRecord.storable (row : PlanObligationRecord) : Bool :=
  match row.blocker with
  | some ⟨_, _, .decision _ revision⟩ => revision < 2 ^ 63
  | _ => true

/-- The rows after a change of one of them, where its handler may write it. -/
def changedRows (handler : String) (rows : List PlanObligationRecord)
    (change : String × PlanRowChange) : Option (List PlanObligationRecord) :=
  if ((rows.find? (·.capability = change.1)).any fun row =>
      row.handler = some handler ∧ row.applicability ≠ .unresolved) then
    some (rows.map fun row => if row.capability = change.1 then change.2.apply row else row)
  else none

namespace TaskView

/-- The write names the selection that the task has. -/
def bound (v : TaskView) (selectionRevision : ℕ) (factsDigest : String) : Bool :=
  v.selection.any fun current =>
    current.revision = selectionRevision ∧ current.factsDigest = factsDigest

/-- The task before the settlement that ends the plan write `op`; `none` where the write is refused
or leaves the tables alone. `unresolved` counts the unresolved obligations of the task. -/
def planAfter (v : TaskView) (unresolved : ℕ) : TaskStore.Op → Option TaskView
  | .recordPlanSelection _ _ selection =>
    let revision := v.selection.elim 1 (·.revision + 1)
    let back := TaskStore.recovered selection.rows
    if v.selection.any (·.factsDigest = selection.factsDigest) then
      if unresolved = 0 ∧ v.rows.any (back · |>.isSome) then
        some { v with rows := v.rows.map fun row =>
          { row with applicability := (back row).getD row.applicability } }
      else none
    else if (v.selection.isSome → ∀ row ∈ v.rows, row.storable) ∧ revision < 2 ^ 63 ∧
        (selection.rows.map PlanRowWrite.capability).Nodup then
      some { v with
        selection := some ⟨revision, selection.factsDigest, selection.requestKind⟩
        rows := selection.rows.map PlanRowWrite.row }
    else none
  | .updatePlanRow _ update =>
    if v.bound update.selectionRevision update.factsDigest then
      (changedRows update.handler v.rows (update.capability, update.change)).map
        fun rows => { v with rows := rows }
    else none
  | .recordPlanRevision _ revision =>
    let planRevision := maxRevision v.plans + 1
    if v.bound revision.selectionRevision revision.factsDigest ∧ planRevision < 2 ^ 63 then
      (changedRows revision.handler v.rows
        (revision.handler, .close .satisfied (.revision planRevision))).map fun rows =>
          { v with
            rows := rows.map fun row =>
              if row.handler = some revision.reopens ∧ row.applicability = .required then
                { row with execution := .pending, outcome := none, blocker := none }
              else row
            plans := v.plans ++
              [⟨planRevision, revision.selectionRevision, revision.body, none, none⟩] }
    else none
  | .recordPlanAssessment _ assessment =>
    let judged := TaskStore.assessable v.plans assessment.planRevision assessment.selectionRevision
    if v.bound assessment.selectionRevision assessment.factsDigest ∧
        assessment.planRevision < 2 ^ 63 ∧ v.plans.any judged then
      (assessment.changes.foldlM (changedRows assessment.handler) v.rows).map fun rows =>
        { v with
          rows := rows
          plans := v.plans.map fun plan =>
            if judged plan then
              { plan with
                verdict := some assessment.verdict
                assessment := some assessment.assessment }
            else plan }
    else none
  | .holdForPlanGate _ observed =>
    some (if v.gate ≠ .open then { v with hold := some observed } else v)
  | .markPlanApplicabilityUnresolved _ =>
    if v.selection.isSome then
      some { v with rows := v.rows.map fun row => { row with applicability := .unresolved } }
    else none
  | _ => none

end TaskView

namespace TaskStore

open TaskView
open Within (map_fst)

variable {s s' : TaskStore} {taskId : TaskId} {v : TaskView} {E : StoreError → Prop}

def planFor (s : TaskStore) (taskId : TaskId) (op : Op) : Option TaskView :=
  (s.view taskId).planAfter (s.unresolvedObligations taskId) op

/-- A task that waits without a question. -/
structure Idles (s : TaskStore) (taskId : TaskId) : Prop where
  waiting : s.lifecycleOf taskId = some .waiting
  unasked : s.pendingOf taskId = []

theorem Idles.requireOpenTask (h : s.Idles taskId) : s.requireOpenTask taskId = .ok () := by
  obtain ⟨task, htask, hwaiting⟩ := lifecycleOf_eq_some.mp h.waiting
  simp [TaskStore.requireOpenTask, htask, hwaiting, found, require, Lifecycle.isTerminal]

theorem checkPlanBinding_bound {selectionRevision : ℕ} {factsDigest : String} (h : s.Idles taskId)
    (he : (s.view taskId).bound selectionRevision factsDigest = false → ∀ e, E e) :
    Within E (fun _ => (s.view taskId).bound selectionRevision factsDigest = true)
      (s.checkPlanBinding taskId selectionRevision factsDigest) := by
  have hselection : (s.view taskId).selection = s.planSelections taskId := rfl
  unfold bound at he ⊢
  unfold checkPlanBinding
  rw [h.requireOpenTask]
  rw [hselection] at he ⊢
  apply Within.bind (Within.found fun hnone => he (by simp [hnone]) _)
  intro current hcurrent
  rw [hcurrent] at he ⊢
  exact (Within.require fun hother => he (by simpa using hother) _).imp fun _ hnames => by
    simpa using hnames

theorem settlePlanState_waiting (hview : s'.view taskId = v) (hwaiting : v.lifecycle = some .waiting) :
    Within E (fun s'' => s''.view taskId = v.settleHold) (s'.settlePlanState taskId) := by
  have hhold : (s'.settlePlanGateHold taskId).view taskId = v.settleHold :=
    hview ▸ settlePlanGateHold_changes.2
  obtain ⟨task, htask, hl⟩ :=
    lifecycleOf_eq_some.mp ((congrArg TaskView.lifecycle hhold).trans hwaiting)
  unfold settlePlanState settlePlanLifecycle
  rw [htask]
  change Within E _ (Except.ok (match task.lifecycle with | _ => _))
  rw [hl]
  exact hhold

theorem setPlanRows_view {rows : List PlanObligationRecord} (hview : s.view taskId = v) :
    (s.setPlanRows taskId rows).view taskId = { v with rows := rows } :=
  hview ▸ (setPlanRows_changes rows).2

theorem updatePlanRows_view (source : PlanObligationRecord → Bool)
    (f : PlanObligationRecord → PlanObligationRecord) :
    (s.updatePlanRows taskId source f).view taskId = { s.view taskId with
      rows := (s.view taskId).rows.map fun row => if source row then f row else row } :=
  setPlanRows_view rfl

theorem applyPlanRowChange_changed {handler : String} {change : String × PlanRowChange}
    (hview : s.view taskId = v) (he : changedRows handler v.rows change = none → ∀ e, E e) :
    Within E (fun s' => ∃ rows, changedRows handler v.rows change = some rows ∧
        s'.view taskId = { v with rows := rows })
      (s.applyPlanRowChange taskId change.1 handler change.2) := by
  subst hview
  have hrows : (s.view taskId).rows = s.planObligations taskId := rfl
  unfold changedRows at he ⊢
  rw [hrows] at he ⊢
  apply Within.bind (Within.found fun hnone => he (by simp [hnone]) _)
  intro row hrow
  rw [hrow] at he ⊢
  apply Within.bind (Within.require fun hother => he (by simp [hother]) _)
  intro _ hhandler
  apply Within.bind (Within.require fun hunresolved => he (by simp [hunresolved]) _)
  intro _ hresolved
  refine ⟨_, if_pos (by simp [hhandler, hresolved]), ?_⟩
  simpa [hrows] using @updatePlanRows_view s taskId (·.capability = change.1) change.2.apply

theorem applyPlanRowChanges_changed {handler : String} {changes : List (String × PlanRowChange)}
    (hview : s.view taskId = v)
    (he : changes.foldlM (changedRows handler) v.rows = none → ∀ e, E e) :
    Within E (fun s' => ∃ rows, changes.foldlM (changedRows handler) v.rows = some rows ∧
        s'.view taskId = { v with rows := rows })
      (changes.foldlM (fun s change => s.applyPlanRowChange taskId change.1 handler change.2) s) := by
  induction changes generalizing s v with
  | nil => exact ⟨_, rfl, hview⟩
  | cons change changes ih =>
    rw [foldlM_cons] at he ⊢
    rw [foldlM_cons]
    apply Within.bind (applyPlanRowChange_changed hview fun hnone => he (by rw [hnone]; rfl))
    rintro s1 ⟨rows, hrows, hview'⟩
    rw [hrows] at he ⊢
    exact ih hview' he

/-! ## The plan writes -/

/-- A write that is refused where no plan is given, and else leaves the plan settled. -/
def Leaves (s : TaskStore) (taskId : TaskId) (plan : Option TaskView) :
    Except StoreError TaskStore → Prop :=
  Within (fun _ => plan = none) fun s' => s'.view taskId = plan.elim (s.view taskId) settleHold

section

variable {plan : Option TaskView}

theorem updatePlanRow_leaves (h : s.Idles taskId) {update : PlanRowUpdate}
    (hplan : plan = s.planFor taskId (.updatePlanRow taskId update)) :
    Leaves s taskId plan (s.updatePlanRow taskId update) := by
  unfold Leaves updatePlanRow
  apply Within.bind (checkPlanBinding_bound h fun hother _ => hplan.trans (if_neg (by simp [hother])))
  intro _ hbound
  replace hplan := hplan.trans (if_pos hbound)
  apply Within.bind (@applyPlanRowChange_changed _ taskId _ _ _ (update.capability, update.change)
    rfl fun hnone _ => hplan.trans (Option.map_eq_none_iff.mpr hnone))
  rintro s1 ⟨rows, hrows, hview⟩
  rw [hplan, hrows]
  exact settlePlanState_waiting hview h.waiting

theorem storedU64_bound {value : ℕ} (he : ¬ value < 2 ^ 63 → ∀ e, E e) :
    Within E (fun stored => stored = value ∧ value < 2 ^ 63) (storedU64 value) :=
  Within.bind (Within.require fun h => he h _) fun _ h => ⟨rfl, h⟩

theorem recordPlanRevision_leaves (h : s.Idles taskId) {revision : PlanRevisionWrite}
    (hplan : plan = s.planFor taskId (.recordPlanRevision taskId revision)) :
    Leaves s taskId plan ((s.recordPlanRevision taskId revision).map Prod.fst) := by
  apply map_fst
  apply Within.bind (checkPlanBinding_bound h fun hother _ => hplan.trans (if_neg (by simp [hother])))
  intro _ hbound
  apply Within.bind (storedU64_bound fun hlarge _ => hplan.trans (if_neg fun h => hlarge h.2))
  rintro _ ⟨rfl, hstored⟩
  replace hplan := hplan.trans (if_pos ⟨hbound, hstored⟩)
  apply Within.bind (@applyPlanRowChange_changed _ taskId _ _ _ (revision.handler, _)
    (setPlans_changes (s.plans taskId ++ _)).2 fun hnone _ => hplan.trans (Option.map_eq_none_iff.mpr hnone))
  rintro s1 ⟨rows, hrows, hview⟩
  rw [hplan, show changedRows _ _ _ = some rows from hrows]
  have hreopened := @updatePlanRows_view s1 taskId (fun row =>
    row.handler = some revision.reopens ∧ row.applicability = .required) fun row =>
      { row with execution := .pending, outcome := none, blocker := none }
  rw [hview] at hreopened
  apply Within.bind (settlePlanState_waiting hreopened h.waiting)
  intro s' hs'
  have hplans : (s.view taskId).plans = s.plans taskId := rfl
  simpa [hplans] using hs'

theorem recordPlanAssessment_leaves (h : s.Idles taskId) {assessment : PlanAssessmentWrite}
    (hplan : plan = s.planFor taskId (.recordPlanAssessment taskId assessment)) :
    Leaves s taskId plan (s.recordPlanAssessment taskId assessment) := by
  unfold Leaves recordPlanAssessment
  apply Within.bind (checkPlanBinding_bound h fun hother _ => hplan.trans (if_neg (by simp [hother])))
  intro _ hbound
  apply Within.bind (storedU64_bound fun hlarge _ => hplan.trans (if_neg fun h => hlarge h.2.1))
  rintro _ ⟨rfl, hstored⟩
  apply Within.bind (Within.require fun hother => by exact hplan.trans (if_neg fun h => hother h.2.2))
  intro _ hjudged
  replace hplan := hplan.trans (if_pos ⟨hbound, hstored, hjudged⟩)
  apply Within.bind (applyPlanRowChanges_changed (setPlans_changes ((s.plans taskId).map _)).2
    fun hnone _ => hplan.trans (Option.map_eq_none_iff.mpr hnone))
  rintro s1 ⟨rows, hrows, hview⟩
  rw [hplan, show foldlM _ _ _ = some rows from hrows]
  exact settlePlanState_waiting hview h.waiting

theorem holdForPlanGate_leaves (h : s.Idles taskId) {observed : PlanGateHold}
    (hplan : plan = s.planFor taskId (.holdForPlanGate taskId observed)) :
    Leaves s taskId plan ((s.holdForPlanGate taskId observed).map Prod.fst) := by
  subst hplan
  apply map_fst
  unfold holdForPlanGate
  rw [h.requireOpenTask]
  have hview : (if s.gateOn taskId ≠ .open then s.setPlanGateHold taskId (some observed)
      else s).view taskId = if s.gateOn taskId ≠ .open then
        { s.view taskId with hold := some observed } else s.view taskId := by
    split
    · exact (setPlanGateHold_changes _).2
    · rfl
  apply Within.bind (settlePlanState_waiting hview (by split <;> exact h.waiting))
  exact fun _ hs' => hs'

/-- Without a pending question no question of the replaced rows dies. -/
theorem supersedeReplaced_idle (h : s.Idles taskId) {sessionId : SessionId} {next : ℕ}
    (he : ¬ ((s.planSelections taskId).isSome → ∀ row ∈ s.planObligations taskId, row.storable) →
      ∀ e, E e) :
    Within E (fun s' => ((s.planSelections taskId).isSome →
        ∀ row ∈ s.planObligations taskId, row.storable) ∧ s = s')
      (s.supersedeReplaced sessionId taskId next) := by
  unfold supersedeReplaced
  split
  · next current hcurrent =>
    apply Within.bind
    · apply Within.foldlM (I := fun seen acc =>
        acc = (s, false) ∧ ∀ row ∈ seen, PlanObligationRecord.storable row)
      · rintro seen row _ hrow ⟨rfl, hseen⟩
        have hkept : row.storable = true →
            (s, false) = (s, false) ∧ ∀ row' ∈ seen ++ [row], row'.storable := by
          intro hstorable
          exact ⟨rfl, forall_mem_append.mpr ⟨hseen, by simpa using hstorable⟩⟩
        unfold supersedePlanQuestion
        split
        · next hblocker =>
          apply Within.bind (storedU64_bound fun hlarge => he fun hall => hlarge (by
            simpa [PlanObligationRecord.storable, hblocker] using hall (congrArg Option.isSome hcurrent) row hrow))
          rintro revision ⟨rfl, hstored⟩
          dsimp only
          split
          · exact hkept (by simpa [PlanObligationRecord.storable, hblocker] using hstored)
          · next q rest hkilled =>
            have hq := (mem_killed (q := q)).mp (by rw [hkilled]; exact mem_cons_self)
            have hpending := mem_pendingOf.mpr ⟨hq.1, (of_decide_eq_true hq.2.2).2.1, hq.2.1⟩
            rw [h.unasked] at hpending
            cases hpending
        · next hother =>
          apply hkept
          unfold PlanObligationRecord.storable
          split
          · next hblocker => exact absurd hblocker (hother _ _ _ _)
          · rfl
      · exact ⟨rfl, by simp⟩
    · rintro _ ⟨rfl, hstorable⟩
      exact ⟨fun _ => hstorable, rfl⟩
  · next hnone => exact ⟨by simp [hnone], rfl⟩

theorem recordPlanSelection_leaves (h : s.Idles taskId) {sessionId : SessionId}
    {selection : PlanSelectionWrite}
    (hplan : plan = s.planFor taskId (.recordPlanSelection sessionId taskId selection)) :
    Leaves s taskId plan ((s.recordPlanSelection sessionId taskId selection).map Prod.fst) := by
  apply map_fst
  unfold recordPlanSelection
  rw [h.requireOpenTask]
  cases hcurrent : (s.planSelections taskId).filter (·.factsDigest = selection.factsDigest) with
  | some current =>
    replace hplan := hplan.trans
      (if_pos (Option.isSome_filter.symm.trans (congrArg Option.isSome hcurrent)))
    dsimp only
    unfold resetRecoveredPlanRows
    by_cases hunresolved : 0 < s.unresolvedObligations taskId
    · rw [if_pos hunresolved]
      rw [hplan.trans (if_neg fun h => by omega)]
      rfl
    · rw [if_neg hunresolved]
      dsimp only
      split
      · next hback =>
        rw [hplan.trans (if_pos ⟨by omega, hback⟩)]
        apply Within.bind (settlePlanState_waiting (setPlanRows_view rfl) h.waiting)
        intro s' hs'
        refine hs'.trans (congrArg (fun rows => settleHold { s.view taskId with rows := rows }) ?_)
        refine map_congr_left fun row _ => ?_
        cases recovered selection.rows row <;> rfl
      · next hnone =>
        rw [hplan.trans (if_neg fun h => hnone h.2)]
        rfl
  | none =>
    replace hplan := hplan.trans (if_neg (Bool.eq_false_iff.mp
      (Option.isSome_filter.symm.trans (congrArg Option.isSome hcurrent))))
    apply Within.bind (supersedeReplaced_idle h fun hlarge _ =>
      hplan.trans (if_neg fun h => hlarge h.1))
    rintro _ ⟨hstorable, rfl⟩
    apply Within.bind (storedU64_bound fun hlarge _ => hplan.trans (if_neg fun h => hlarge h.2.1))
    rintro _ ⟨rfl, hstored⟩
    apply Within.bind (Within.require fun htwice => by
      exact hplan.trans (if_neg fun h => htwice h.2.2))
    intro _ hnodup
    rw [hplan.trans (if_pos ⟨hstorable, hstored, hnodup⟩)]
    apply Within.bind
      (settlePlanState_waiting (setPlanRows_view (setPlanSelection_changes _).2) h.waiting)
    exact fun _ hs' => hs'

theorem markPlanApplicabilityUnresolved_leaves (h : s.Idles taskId)
    (hplan : plan = s.planFor taskId (.markPlanApplicabilityUnresolved taskId)) :
    Leaves s taskId plan (s.markPlanApplicabilityUnresolved taskId) := by
  unfold Leaves markPlanApplicabilityUnresolved
  rw [h.requireOpenTask]
  cases hselection : s.planSelections taskId with
  | none => simp [hplan, planFor, planAfter, view, hselection]
  | some current =>
    rw [hplan.trans (if_pos (congrArg Option.isSome hselection))]
    apply settlePlanState_waiting ?_ h.waiting
    simpa [unresolvePlanRows] using @updatePlanRows_view s taskId (fun _ => true) _

theorem Leaves.committed {body : Except StoreError TaskStore} (h : Leaves s taskId plan body) :
    (s.commit body).1.view taskId = plan.elim (s.view taskId) settleHold := by
  cases body with
  | ok s' => exact h
  | error e =>
    rw [show plan = none from h]
    rfl

end

/-- The plan write names the task. -/
def Op.writesPlan (taskId : TaskId) : Op → Prop
  | .recordPlanSelection _ t _ => t = taskId
  | .updatePlanRow t _ => t = taskId
  | .recordPlanRevision t _ => t = taskId
  | .recordPlanAssessment t _ => t = taskId
  | .holdForPlanGate t _ => t = taskId
  | .markPlanApplicabilityUnresolved t => t = taskId
  | _ => False

/-- A plan write on a task that waits without a question: what the tables before it say, settled. -/
theorem perform_idle {op : Op} (hop : op.writesPlan taskId) (h : s.Idles taskId) :
    (s.perform op).1.view taskId = (s.planFor taskId op).elim (s.view taskId) settleHold := by
  cases op with
  | recordPlanSelection =>
    obtain rfl := hop
    exact (recordPlanSelection_leaves h rfl).committed
  | updatePlanRow =>
    obtain rfl := hop
    exact (updatePlanRow_leaves h rfl).committed
  | recordPlanRevision =>
    obtain rfl := hop
    exact (recordPlanRevision_leaves h rfl).committed
  | recordPlanAssessment =>
    obtain rfl := hop
    exact (recordPlanAssessment_leaves h rfl).committed
  | holdForPlanGate =>
    obtain rfl := hop
    exact (holdForPlanGate_leaves h rfl).committed
  | markPlanApplicabilityUnresolved =>
    obtain rfl := hop
    exact (markPlanApplicabilityUnresolved_leaves h rfl).committed
  | _ => exact hop.elim

end TaskStore

end Rivect
