import Rivect.TaskStore.Lifecycle

/-! # What an open gate says

The plan revisions of a task name ever later selections, so the verdict that the gate reads is
the verdict on the newest revision. Only an assessment that passes puts it there.
-/

namespace Rivect

open Lib List Option

namespace TaskView

variable {v v' : TaskView} {m : Move} {r σ : ℕ}

/-- What a move does to the selection and the revisions. -/
inductive PlanStep (v v' : TaskView) : Move → Prop
  | keeps {m : Move} : v'.plans = v.plans → v'.selection = v.selection → PlanStep v v' m
  | select {factsDigest : String} (selection : PlanSelectionRecord) : v'.plans = v.plans →
      v'.selection = some selection →
      selection.revision = v.selection.elim 1 (·.revision + 1) →
      PlanStep v v' (.select factsDigest)
  | revise {revision : PlanRevisionWrite} (selection : PlanSelectionRecord) :
      v.selection = some selection → selection.revision = revision.selectionRevision →
      v'.selection = v.selection →
      v'.plans = v.plans ++
        [⟨maxRevision v.plans + 1, revision.selectionRevision, revision.body, none, none⟩] →
      PlanStep v v' (.revise revision)
  | assess {assessment : PlanAssessmentWrite} : v'.selection = v.selection →
      v'.plans = v.plans.map (fun plan =>
        if TaskStore.assessable v.plans assessment.planRevision assessment.selectionRevision plan
        then
          { plan with
            verdict := some assessment.verdict
            assessment := some assessment.assessment }
        else plan) →
      PlanStep v v' (.assess assessment)

theorem Settles.plan (h : Settles v v') : v'.plans = v.plans ∧ v'.selection = v.selection := by
  cases h with
  | stays => exact ⟨rfl, rfl⟩
  | blocks => exact ⟨rfl, rfl⟩
  | releases _ _ hrel => obtain rfl | ⟨-, -, -, rfl⟩ := hrel.cases <;> exact ⟨rfl, rfl⟩

theorem SettlesState.plan (h : SettlesState v v') :
    v'.plans = v.plans ∧ v'.selection = v.selection := Settles.plan (v := v.settleHold) h

theorem step_plan (h : Step m v v') : PlanStep v v' m := by
  cases m with
  | stay =>
    obtain rfl : v' = v := h
    exact .keeps rfl rfl
  | create =>
    obtain ⟨-, rfl⟩ := h
    exact .keeps rfl rfl
  | publish question =>
    obtain ⟨q, -, -, rfl⟩ := h
    exact .keeps rfl rfl
  | fork question update =>
    obtain ⟨-, v1, q, rows, v2, hrel, ⟨-, -, rfl⟩, hset⟩ := h
    obtain ⟨hplans, hselection⟩ := hset.plan
    obtain rfl | ⟨-, -, -, rfl⟩ := hrel.cases <;> exact .keeps hplans hselection
  | answer questionId =>
    obtain ⟨-, q, -, -, rows, -, hset⟩ := h
    obtain ⟨hplans, hselection⟩ := hset.plan
    exact .keeps hplans hselection
  | steer =>
    obtain ⟨hplans, hselection⟩ := h.2.plan
    exact .keeps hplans hselection
  | finish lifecycle =>
    obtain ⟨-, -, rfl⟩ := h
    exact .keeps rfl rfl
  | pause =>
    obtain ⟨-, rfl⟩ := h
    exact .keeps rfl rfl
  | wait =>
    obtain ⟨-, rfl⟩ := h
    exact .keeps rfl rfl
  | block =>
    obtain ⟨l, -, rfl⟩ := h
    exact .keeps rfl rfl
  | unresolve =>
    obtain ⟨l, -, rfl⟩ := h
    exact .keeps rfl rfl
  | select digest =>
    obtain ⟨-, v1, selection, rows, hdrop, hrevision, -, -, hset⟩ := h
    obtain ⟨hplans, hselection⟩ := hset.plan
    have hsame : v1.plans = v.plans := by cases hdrop <;> rfl
    exact .select selection (hplans.trans hsame) hselection hrevision
  | change =>
    obtain ⟨-, rows, hset⟩ := h
    obtain ⟨hplans, hselection⟩ := hset.plan
    exact .keeps hplans hselection
  | revise revision =>
    obtain ⟨-, ⟨selection, hmem, hrevision⟩, rows, hset⟩ := h
    obtain ⟨hplans, hselection⟩ := hset.plan
    exact .revise selection hmem hrevision hselection hplans
  | assess assessment =>
    obtain ⟨-, -, -, rows, hset⟩ := h
    obtain ⟨hplans, hselection⟩ := hset.plan
    exact .assess hselection hplans
  | hold =>
    obtain ⟨-, hold, -, hset⟩ := h
    obtain ⟨hplans, hselection⟩ := hset.plan
    exact .keeps hplans hselection

/-- Revisions are numbered in order, each under the selection of its time. -/
structure Planned (v : TaskView) : Prop where
  unselected : v.selection = none → v.plans = []
  ordered : v.plans.Pairwise fun p q =>
    p.revision < q.revision ∧ p.selectionRevision ≤ q.selectionRevision
  bound : ∀ selection, v.selection = some selection →
    ∀ p ∈ v.plans, p.selectionRevision ≤ selection.revision

theorem le_maxRevision {plans : List PlanRevisionRecord} {p : PlanRevisionRecord}
    (h : p ∈ plans) : p.revision ≤ maxRevision plans :=
  TaskStore.le_foldl_max (mem_map_of_mem h)

theorem Planned.step (h : Planned v) (hm : PlanStep v v' m) : Planned v' := by
  cases hm with
  | keeps hplans hselection =>
    refine ⟨?_, ?_, ?_⟩
    · rw [hplans, hselection]
      exact h.unselected
    · rw [hplans]
      exact h.ordered
    · rw [hplans, hselection]
      exact h.bound
  | select selection hplans hselection hrevision =>
    refine ⟨fun hnone => by simp [hselection] at hnone, by rw [hplans]; exact h.ordered, ?_⟩
    rw [hplans, hselection]
    rintro _ ⟨rfl⟩ p hp
    cases hold : v.selection with
    | none =>
      rw [h.unselected hold] at hp
      simp at hp
    | some old =>
      have := h.bound old hold p hp
      rw [hold] at hrevision
      exact this.trans (hrevision ▸ Nat.le_succ _)
  | revise selection hold hrevision hselection hplans =>
    refine ⟨fun hnone => by simp [hselection, hold] at hnone, ?_, ?_⟩
    · rw [hplans]
      refine pairwise_append.mpr ⟨h.ordered, pairwise_singleton _ _, ?_⟩
      intro p hp q hq
      obtain rfl := mem_singleton.mp hq
      exact ⟨Nat.lt_succ_of_le (le_maxRevision hp), (h.bound _ hold p hp).trans hrevision.le⟩
    · rw [hplans, hselection]
      intro current hcurrent p hp
      obtain rfl := mem_unique hold hcurrent
      rcases mem_append.mp hp with hp | hp
      · exact h.bound _ hold p hp
      · rw [mem_singleton.mp hp]
        exact hrevision.ge
  | assess hselection hplans =>
    refine ⟨?_, ?_, ?_⟩
    · rw [hplans, hselection]
      intro hnone
      rw [h.unselected hnone]
      rfl
    · rw [hplans]
      apply List.Pairwise.map _ _ h.ordered
      intro p q hpq
      split <;> split <;> exact hpq
    · rw [hplans, hselection]
      intro current hcurrent p hp
      obtain ⟨p0, hp0, rfl⟩ := mem_map.mp hp
      have := h.bound _ hcurrent p0 hp0
      split <;> exact this

/-- The newest revision of the task, under the current selection, and its verdict. -/
structure Passed (v : TaskView) (r σ : ℕ) : Prop where
  newest : ∃ p, v.plans.getLast? = some p ∧ p.revision = r ∧ p.selectionRevision = σ ∧
    p.verdict = some .pass
  current : ∃ selection, v.selection = some selection ∧ selection.revision = σ

theorem not_passed_of_select (h : Planned v) {selection : PlanSelectionRecord}
    (hplans : v'.plans = v.plans) (hselection : v'.selection = some selection)
    (hrevision : selection.revision = v.selection.elim 1 (·.revision + 1)) : ¬ Passed v' r σ := by
  rintro ⟨⟨p, hlast, -, hσ, -⟩, current, hcurrent, hcurrentσ⟩
  rw [hplans] at hlast
  obtain rfl := mem_unique hselection hcurrent
  have hp := mem_of_getLast? hlast
  cases hold : v.selection with
  | none =>
    rw [h.unselected hold] at hp
    simp at hp
  | some old =>
    have hle := h.bound old hold p hp
    rw [hold] at hrevision
    simp only [elim_some] at hrevision
    omega

theorem not_passed_of_revise {p : PlanRevisionRecord} (hplans : v'.plans = v.plans ++ [p])
    (hp : p.verdict = none) : ¬ Passed v' r σ := by
  rintro ⟨⟨q, hlast, -, -, hverdict⟩, -⟩
  rw [hplans, getLast?_concat] at hlast
  obtain rfl := some.inj hlast
  simp [hp] at hverdict

theorem assess_of_passed (h : Planned v) (hm : PlanStep v v' m) (hv : ¬ Passed v r σ)
    (hv' : Passed v' r σ) : ∃ assessment, m = .assess assessment ∧ assessment.verdict = .pass ∧
      assessment.planRevision = r ∧ assessment.selectionRevision = σ := by
  cases hm with
  | keeps hplans hselection =>
    obtain ⟨hnewest, hcurrent⟩ := hv'
    rw [hplans] at hnewest
    rw [hselection] at hcurrent
    exact absurd ⟨hnewest, hcurrent⟩ hv
  | select selection hplans hselection hrevision =>
    exact absurd hv' (not_passed_of_select h hplans hselection hrevision)
  | revise selection _ _ _ hplans => exact absurd hv' (not_passed_of_revise hplans rfl)
  | @assess assessment hselection hplans =>
    obtain ⟨⟨p, hlast, hr, hσ, hverdict⟩, hcurrent⟩ := hv'
    rw [hplans, getLast?_map] at hlast
    obtain ⟨p0, hlast0, hp0⟩ := map_eq_some_iff.mp hlast
    split at hp0
    · next hjudged =>
      subst hp0
      obtain ⟨hplan, hselected, -⟩ := of_decide_eq_true hjudged
      exact ⟨assessment, rfl, some.inj hverdict, hplan.symm.trans hr, hselected.symm.trans hσ⟩
    · subst hp0
      rw [hselection] at hcurrent
      exact absurd ⟨⟨p0, hlast0, hr, hσ, hverdict⟩, hcurrent⟩ hv

theorem gate_open {selection : Option PlanSelectionRecord} {rows : List PlanObligationRecord}
    {plans : List PlanRevisionRecord} (h : Rivect.gate selection rows plans = .open) :
    ∃ current, selection = some current ∧ (∀ row ∈ rows, row.applicability ≠ .unresolved) ∧
      (∀ row ∈ rows, row.stage = true → row.applicability = .required →
        row.execution = .satisfied) ∧
      (rows.any (·.requiresPlan) = true → latestVerdict plans current.revision = some .pass) := by
  cases selection with
  | none => simp [Rivect.gate] at h
  | some current =>
    simp only [Rivect.gate] at h
    split at h
    · next hempty =>
      obtain ⟨hunresolved, hstages⟩ := hempty
      have hnone : ∀ row ∈ rows, row.applicability ≠ .unresolved := by
        simpa using map_eq_nil_iff.mp hunresolved
      have hclosed : (rows.filter (·.isOpenStage)).map PlanObligationRecord.capability = [] := by
        unfold openStages at hstages
        dsimp only at hstages
        split at hstages
        · simp at hstages
        · exact hstages
      refine ⟨current, rfl, hnone, ?_, fun hplan => ?_⟩
      · intro row hrow hstage hrequired
        have := filter_eq_nil_iff.mp (map_eq_nil_iff.mp hclosed) row hrow
        simpa [PlanObligationRecord.isOpenStage, hstage, hrequired] using this
      · by_contra hverdict
        unfold openStages at hstages
        simp only [hclosed] at hstages
        rw [if_pos ⟨hplan, hverdict, by simp⟩] at hstages
        simp at hstages
    · cases h

theorem Planned.newest (h : Planned v) {selection : PlanSelectionRecord}
    (hselection : v.selection = some selection) {verdict : PlanVerdict}
    (hlatest : latestVerdict v.plans selection.revision = some verdict) :
    ∃ p, v.plans.getLast? = some p ∧ p.selectionRevision = selection.revision ∧
      p.verdict = some verdict := by
  obtain ⟨p0, hlast0, hverdict⟩ := bind_eq_some_iff.mp hlatest
  obtain ⟨hmem0, hσ⟩ := mem_filter.mp (mem_of_getLast? hlast0)
  have hσ : p0.selectionRevision = selection.revision := of_decide_eq_true hσ
  obtain ⟨init, p, hplans⟩ : ∃ init p, v.plans = init ++ [p] :=
    ⟨_, _, (dropLast_append_getLast (ne_nil_of_mem hmem0)).symm⟩
  have hp : p.selectionRevision = selection.revision := by
    have hle := h.bound selection hselection p (by simp [hplans])
    have hordered := h.ordered
    rw [hplans] at hmem0 hordered
    rcases mem_append.mp hmem0 with hinit | hlast
    · have := (pairwise_append.mp hordered).2.2 p0 hinit p (by simp)
      omega
    · rw [← mem_singleton.mp hlast]
      exact hσ
  rw [hplans, filter_append, filter_cons_of_pos (by simpa using hp), filter_nil,
    getLast?_concat] at hlast0
  obtain rfl := some.inj hlast0
  exact ⟨p, by rw [hplans, getLast?_concat], hp, hverdict⟩

end TaskView

namespace TaskStore

open TaskView

variable {s s' : TaskStore} {taskId : TaskId} {ops pre post : List Op} {op : Op} {r σ : ℕ}

/-! ## Writes that come too late -/

/-- The plan revision an assessment names is not the one to judge. -/
inductive Stale (s : TaskStore) (taskId : TaskId) (assessment : PlanAssessmentWrite) : Prop
  | superseded : assessment.planRevision < maxRevision (s.plans taskId) → Stale s taskId assessment
  | judged (p : PlanRevisionRecord) : p ∈ s.plans taskId → p.revision = assessment.planRevision →
      p.verdict ≠ none → Stale s taskId assessment
  | earlier (p : PlanRevisionRecord) (selection : PlanSelectionRecord) : p ∈ s.plans taskId →
      p.revision = assessment.planRevision → s.planSelections taskId = some selection →
      p.selectionRevision < selection.revision → Stale s taskId assessment

/-- The task, the selection and the facts that a plan write is bound to. -/
def Op.binding : Op → Option (TaskId × ℕ × String)
  | .updatePlanRow t update => some (t, update.selectionRevision, update.factsDigest)
  | .publishPlanFork _ question update =>
    some (question.taskId, update.selectionRevision, update.factsDigest)
  | .recordPlanRevision t revision => some (t, revision.selectionRevision, revision.factsDigest)
  | .recordPlanAssessment t assessment =>
    some (t, assessment.selectionRevision, assessment.factsDigest)
  | _ => none

/-- The write is bound to a selection that is not the current one, or judges no plan to judge. -/
inductive Outdated (s : TaskStore) : Op → Prop
  | binding {op : Op} {t : TaskId} {revision : ℕ} {digest : String} :
      op.binding = some (t, revision, digest) →
      (∀ selection, s.planSelections t = some selection →
        selection.revision ≠ revision ∨ selection.factsDigest ≠ digest) → Outdated s op
  | assessment {t : TaskId} {assessment : PlanAssessmentWrite} : Stale s t assessment →
      Outdated s (.recordPlanAssessment t assessment)

theorem commit_refused {body : Except StoreError TaskStore}
    (h : Within Refuses (fun _ => False) body) : (s.commit body).1 = s := by
  cases body with
  | ok s' => exact h.elim
  | error e => rfl

theorem checkPlanBinding_refuses {revision : ℕ} {digest : String}
    (h : ∀ selection, s.planSelections taskId = some selection →
      selection.revision ≠ revision ∨ selection.factsDigest ≠ digest) :
    Within Refuses (fun _ => False) (s.checkPlanBinding taskId revision digest) := by
  apply (checkPlanBinding_within revision digest).imp
  rintro _ ⟨-, selection, hselection, rfl, rfl⟩
  rcases h selection hselection with hne | hne
  · exact hne rfl
  · exact hne rfl

theorem plan_unique (h : Planned (s.view taskId)) {p q : PlanRevisionRecord}
    (hp : p ∈ s.plans taskId) (hq : q ∈ s.plans taskId) (hr : p.revision = q.revision) :
    p = q := by
  have hnodup : ((s.plans taskId).map PlanRevisionRecord.revision).Nodup :=
    pairwise_map.mpr (h.ordered.imp fun hpq => hpq.1.ne)
  exact inj_on_of_nodup_map hnodup hp hq hr

theorem recordPlanAssessment_refuses (h : Planned (s.view taskId))
    {assessment : PlanAssessmentWrite} (hstale : Stale s taskId assessment) :
    Within Refuses (fun _ => False) (s.recordPlanAssessment taskId assessment) := by
  apply Within.bind (checkPlanBinding_within _ _)
  rintro _ ⟨-, selection, hselection, hσ, -⟩
  apply Within.bind (storedU64_within _)
  rintro _ rfl
  apply Within.guard
  intro hany
  exfalso
  obtain ⟨p, hp, hassessable⟩ := any_eq_true.mp hany
  obtain ⟨hr, hpσ, hverdict, hmax⟩ := of_decide_eq_true hassessable
  cases hstale with
  | superseded hlt => omega
  | judged q hq hqr hjudged =>
    obtain rfl := plan_unique h hq hp (hqr.trans hr.symm)
    exact hjudged hverdict
  | earlier q current hq hqr hcurrent hlt =>
    obtain rfl := plan_unique h hq hp (hqr.trans hr.symm)
    obtain rfl := mem_unique hselection hcurrent
    omega

theorem Outdated.refused (h : Outdated s op) (hplanned : ∀ t, Planned (s.view t)) :
    (s.perform op).1 = s := by
  cases h with
  | binding hop hother =>
    cases op with
    | updatePlanRow =>
      obtain ⟨⟩ := some.inj hop
      exact commit_refused (Within.bind (checkPlanBinding_refuses hother) fun _ => False.elim)
    | publishPlanFork =>
      obtain ⟨⟩ := some.inj hop
      exact commit_refused (Within.bind (checkPlanBinding_refuses hother) fun _ => False.elim)
    | recordPlanRevision =>
      obtain ⟨⟩ := some.inj hop
      apply commit_refused
      apply Within.map_fst
      exact Within.bind (checkPlanBinding_refuses hother) fun _ => False.elim
    | recordPlanAssessment =>
      obtain ⟨⟩ := some.inj hop
      exact commit_refused (Within.bind (checkPlanBinding_refuses hother) fun _ => False.elim)
    | _ => cases hop
  | assessment hstale => exact commit_refused (recordPlanAssessment_refuses (hplanned _) hstale)

/-! ## Runs -/

theorem planned_after (ops : List Op) (taskId : TaskId) : Planned ((after ops).view taskId) := by
  apply (run_after ops).invariant (I := fun s => Planned (s.view taskId))
  · rintro s op _ hs rfl
    obtain ⟨m, -, hstep⟩ := perform_moves s op taskId
    exact hs.step (step_plan hstep)
  · exact ⟨fun _ => rfl, .nil, by simp [view, fresh]⟩

/-- The call commits another plan revision, or a selection for other facts. -/
def Renews (s : TaskStore) (taskId : TaskId) (op : Op) : Prop :=
  (s.perform op).2 = .ok () ∧
    ((∃ revision, op = .recordPlanRevision taskId revision) ∨
      ∃ sessionId selection, op = .recordPlanSelection sessionId taskId selection ∧
        ∀ current, s.planSelections taskId = some current →
          current.factsDigest ≠ selection.factsDigest)

theorem commit_ok {body : Except StoreError TaskStore} (h : (s.commit body).2 = .ok ()) :
    body = .ok (s.commit body).1 := by
  cases body with
  | ok s' => rfl
  | error e => cases h

theorem Renews.not_passed (h : Renews s taskId op) (hplanned : Planned (s.view taskId)) :
    ¬ Passed ((s.perform op).1.view taskId) r σ := by
  obtain ⟨hok, ⟨revision, rfl⟩ | ⟨sessionId, selection, rfl, hother⟩⟩ := h
  · have hbody := Within.map_fst (P := Changes taskId (Step (.revise revision)) s)
      (recordPlanRevision_changes revision)
    have hstep := (hbody.of_ok (commit_ok hok)).2
    obtain ⟨-, -, rows, hset⟩ := hstep
    exact not_passed_of_revise hset.plan.1 rfl
  · have hfresh : (s.planSelections taskId).filter (·.factsDigest = selection.factsDigest) =
        none := by
      apply filter_eq_none_iff.mpr
      intro current hcurrent
      simpa using hother current hcurrent
    have hbody := Within.map_fst (P := Changes taskId (Step (.select selection.factsDigest)) s)
      (recordPlanSelection_changes sessionId selection hfresh)
    have hstep := (hbody.of_ok (commit_ok hok)).2
    obtain ⟨-, v1, current, rows, hdrop, hrevision, -, -, hset⟩ := hstep
    have hsame : v1.plans = (s.view taskId).plans := by cases hdrop <;> rfl
    exact not_passed_of_select hplanned (hset.plan.1.trans hsame) hset.plan.2 hrevision

/-- In between, an assessment that passes the newest revision under the current selection has
committed. -/
def Reassessed (taskId : TaskId) (pre post : List Op) : Prop :=
  ∃ mid assessment rest, post = mid ++ .recordPlanAssessment taskId assessment :: rest ∧
    ((after (pre ++ mid)).perform (.recordPlanAssessment taskId assessment)).2 = .ok () ∧
    assessment.verdict = .pass ∧
    (∃ p, ((after (pre ++ post)).plans taskId).getLast? = some p ∧
      p.revision = assessment.planRevision) ∧
    ∃ selection, (after (pre ++ post)).planSelections taskId = some selection ∧
      selection.revision = assessment.selectionRevision

theorem after_append (pre post : List Op) :
    after (pre ++ post) = post.foldl (fun s op => (s.perform op).1) (after pre) := by
  rw [after, foldl_append]
  rfl

theorem run_append (pre post : List Op) : Run Performs (after pre) post (after (pre ++ post)) := by
  rw [after_append]
  exact Run.of_foldl (fun (s : TaskStore) (op : Op) => (s.perform op).1) _ _

theorem reassessed (hpre : ¬ Passed ((after pre).view taskId) r σ)
    (hpost : Passed ((after (pre ++ post)).view taskId) r σ) : Reassessed taskId pre post := by
  obtain ⟨mid, op, rest, a, b, rfl, hmid, hop, -, ha, hb⟩ :=
    (run_append pre post).exists_rise (P := fun s => Passed (s.view taskId) r σ) hpre hpost
  obtain rfl : a = after (pre ++ mid) :=
    Run.unique (fun _ _ _ _ h h' => h.symm.trans h') hmid (run_append pre mid)
  obtain rfl : (perform _ op).1 = b := hop
  obtain ⟨m, hmakes, hstep⟩ := perform_moves (after (pre ++ mid)) op taskId
  obtain ⟨assessment, rfl, hpass, rfl, rfl⟩ :=
    assess_of_passed (planned_after _ taskId) (step_plan hstep) ha hb
  obtain rfl : op = .recordPlanAssessment taskId assessment := by
    cases op <;> first | exact False.elim hmakes | (obtain ⟨rfl, rfl⟩ := hmakes; rfl)
  refine ⟨mid, assessment, rest, rfl, ?_, hpass, ?_, hpost.current⟩
  · by_contra hrefused
    have hsame : ((after (pre ++ mid)).perform
        (.recordPlanAssessment taskId assessment)).1 = after (pre ++ mid) := by
      generalize hbody : (after (pre ++ mid)).recordPlanAssessment taskId assessment = body
      simp only [perform, hbody] at hrefused ⊢
      cases body with
      | ok s' => exact absurd rfl hrefused
      | error e => rfl
    rw [hsame] at hb
    exact ha hb
  · obtain ⟨p, hlast, hr, -⟩ := hpost.newest
    exact ⟨p, hlast, hr⟩

/-- What the gate says in the state that the calls lead to. -/
structure GateLaw (ops : List Op) (taskId : TaskId) : Prop where
  sound : (after ops).gateOn taskId = .open → ∃ selection,
    (after ops).planSelections taskId = some selection ∧
      (∀ row ∈ (after ops).planObligations taskId, row.applicability ≠ .unresolved) ∧
      (∀ row ∈ (after ops).planObligations taskId, row.stage = true →
        row.applicability = .required → row.execution = .satisfied) ∧
      (((after ops).planObligations taskId).any (·.requiresPlan) = true →
        ∃ p, ((after ops).plans taskId).getLast? = some p ∧
          p.selectionRevision = selection.revision ∧ p.verdict = some .pass)
  reassessed : (after ops).gateOn taskId = .open →
    ((after ops).planObligations taskId).any (·.requiresPlan) = true →
    ∀ pre op post, ops = pre ++ op :: post → Renews (after pre) taskId op →
      Reassessed taskId (pre ++ [op]) post
  outdated : ∀ op, Outdated (after ops) op → ((after ops).perform op).1 = after ops

/-- The gate is sound in every reached state, and while the plan is required it opens again only
after the newest plan has passed. -/
theorem plan_gate (ops : List Op) (taskId : TaskId) : GateLaw ops taskId := by
  have hplanned := planned_after ops taskId
  have hsound : (after ops).gateOn taskId = .open → ∃ selection,
      (after ops).planSelections taskId = some selection ∧
        (∀ row ∈ (after ops).planObligations taskId, row.applicability ≠ .unresolved) ∧
        (∀ row ∈ (after ops).planObligations taskId, row.stage = true →
          row.applicability = .required → row.execution = .satisfied) ∧
        (((after ops).planObligations taskId).any (·.requiresPlan) = true →
          ∃ p, ((after ops).plans taskId).getLast? = some p ∧
            p.selectionRevision = selection.revision ∧ p.verdict = some .pass) := by
    intro hopen
    obtain ⟨selection, hselection, hresolved, hstages, hverdict⟩ := gate_open hopen
    exact ⟨selection, hselection, hresolved, hstages,
      fun hplan => hplanned.newest hselection (hverdict hplan)⟩
  refine ⟨hsound, ?_, fun op hop => hop.refused fun t => planned_after ops t⟩
  rintro hopen hplan pre op post rfl hrenews
  obtain ⟨selection, hselection, -, -, hnewest⟩ := hsound hopen
  obtain ⟨p, hlast, hσ, hverdict⟩ := hnewest hplan
  rw [append_cons] at hlast hselection
  apply reassessed (r := p.revision) (σ := selection.revision)
  · rw [after_append]
    exact hrenews.not_passed (planned_after pre taskId)
  · exact ⟨⟨p, hlast, rfl, hσ, hverdict⟩, selection, hselection, rfl⟩

/-! ## Facts that need no plan -/

def planRow (capability handler : String) (applicability : ObligationApplicability) :
    PlanRowWrite :=
  ⟨capability, applicability, true, some handler, none⟩

/-- A plan that is recorded and still to be assessed. -/
def drafted : List Op :=
  [created, .recordPlanSelection ⟨"session"⟩ ⟨"task"⟩
    ⟨"digest", .change, [planRow PLAN_WORK PLAN_WORK .required,
      planRow ASSESS_PLAN ASSESS_PLAN .required]⟩]

def draft : Op :=
  .recordPlanRevision ⟨"task"⟩ ⟨PLAN_WORK, ASSESS_PLAN, 1, "digest", "plan"⟩

/-- The facts change, and the plan is not required any more. -/
def replan : Op :=
  .recordPlanSelection ⟨"session"⟩ ⟨"task"⟩
    ⟨"other", .change, [planRow PLAN_WORK PLAN_WORK .notApplicable]⟩

/-- The gate opens past a plan that nobody assessed. -/
theorem gate_opens_unassessed :
    ¬ ∀ (ops : List Op) (taskId : TaskId), (after ops).gateOn taskId = .open →
      ∀ pre op post, ops = pre ++ op :: post → Renews (after pre) taskId op →
        Reassessed taskId (pre ++ [op]) post := by
  intro h
  have hopen : (after (drafted ++ [draft, replan])).gateOn ⟨"task"⟩ = .open := by decide
  have hdraft : ((after drafted).perform draft).2 = .ok () := by decide
  obtain ⟨mid, assessment, rest, hpost, -⟩ :=
    h _ _ hopen drafted draft [replan] rfl ⟨hdraft, .inl ⟨_, rfl⟩⟩
  have hmem : Op.recordPlanAssessment ⟨"task"⟩ assessment ∈ [replan] := by
    rw [hpost]
    simp
  cases mem_singleton.mp hmem

end TaskStore

end Rivect
