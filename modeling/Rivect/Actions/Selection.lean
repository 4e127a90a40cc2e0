import Rivect.Actions.Registry

/-! # What a selection stores

A selection that is recorded stores the rows it answers. One that is kept for the same facts
stores the rows of the call that recorded it, some of them in doubt.
-/

namespace Rivect.Actions

open Lib Learning TaskStore List

/-- The row states the obligation. -/
structure Stores (o : SelectedObligation) (row : PlanObligationRecord) : Prop where
  capability : row.capability = o.capability
  applicability : row.applicability = o.applicability
  handler : row.handler = o.route.handler

/-- The row is that of the obligation, at most put in doubt. -/
structure Holds (o : SelectedObligation) (row : PlanObligationRecord) : Prop where
  capability : row.capability = o.capability
  applicability : row.applicability = o.applicability ∨ row.applicability = .unresolved
  handler : row.handler = o.route.handler

/-- The call of the run that recorded a selection, with its request and its answer. -/
inductive Recorded (digest : CanonicalFacts → String) : List Call → PlanRequest → Selection → Prop
  | intro (pre post : List Call) (sessionId : SessionId) (request : PlanRequest)
      (shortlist : List String) (tables : TaskStore) (answer : Selection) :
      (Registry.after digest pre).Anew digest request →
      (Registry.after digest pre).select digest sessionId request shortlist =
        .ok (tables, answer) →
      Recorded digest (pre ++ .select sessionId request shortlist :: post) request answer

/-- The facts that the calls select for. -/
def factsOf (calls : List Call) : List CanonicalFacts :=
  calls.filterMap fun
    | .select _ request _ => some request.canonical
    | _ => none

/-- The digest tells the facts of the calls apart. -/
def NoCollision (digest : CanonicalFacts → String) (calls : List Call) : Prop :=
  ∀ facts ∈ factsOf calls, ∀ facts' ∈ factsOf calls, digest facts = digest facts' → facts = facts'

/-- What the tables hold of a selection once it is answered. -/
structure Answered (digest : CanonicalFacts → String) (calls : List Call) (request : PlanRequest)
    (tables : TaskStore) (selection : Selection) : Prop where
  current : ∃ current, tables.planSelections request.taskId = some current ∧
    current.revision = selection.revision ∧ current.factsDigest = selection.factsDigest
  anew : (Registry.after digest calls).Anew digest request →
    Forall₂ Stores selection.obligations (tables.planObligations request.taskId)
  kept : ¬ (Registry.after digest calls).Anew digest request →
    ∃ request0 first, request0.taskId = request.taskId ∧
      request0.canonical = request.canonical ∧ Recorded digest calls request0 first ∧
      first.revision = selection.revision ∧ first.factsDigest = selection.factsDigest ∧
      Forall₂ Holds first.obligations (tables.planObligations request.taskId) ∧
      (first.obligations = selection.obligations →
        (Registry.after digest calls).tables.unresolvedObligations request.taskId = 0 →
        Forall₂ Stores selection.obligations (tables.planObligations request.taskId))

variable {digest : CanonicalFacts → String} {calls : List Call} {request request' : PlanRequest}
  {learned learned' : LearningDefinition} {o : SelectedObligation} {row row' : PlanObligationRecord}

/-! ## Rows -/

theorem Stores.holds (h : Stores o row) : Holds o row :=
  ⟨h.capability, .inl h.applicability, h.handler⟩

theorem Holds.keeps (h : Holds o row) (h' : KeepsRow row row') : Holds o row' where
  capability := h'.capability.trans h.capability
  applicability := by
    rcases h'.applicability with hsame | hdoubt
    · rw [hsame]
      exact h.applicability
    · exact .inr hdoubt
  handler := h'.handler.trans h.handler

theorem holds_keeps {obligations : List SelectedObligation}
    {rows rows' : List PlanObligationRecord} (h : Forall₂ Holds obligations rows)
    (h' : Forall₂ KeepsRow rows rows') : Forall₂ Holds obligations rows' := by
  induction h generalizing rows' with
  | nil =>
    cases h'
    exact .nil
  | cons hrow _ ih =>
    cases h' with
    | cons hrow' hrest => exact .cons (hrow.keeps hrow') (ih hrest)

theorem rowWrite_stores (o : SelectedObligation) : Stores o (rowWrite o).row := ⟨rfl, rfl, rfl⟩

theorem stores_written (obligations : List SelectedObligation) :
    Forall₂ Stores obligations ((obligations.map rowWrite).map PlanRowWrite.row) := by
  rw [map_map, forall₂_map_right_iff]
  exact forall₂_same.mpr fun o _ => rowWrite_stores o

theorem stores_applicability {selected : List SelectedObligation}
    {rows : List PlanObligationRecord} (h : Forall₂ Stores selected rows) :
    rows.map PlanObligationRecord.applicability =
      selected.map SelectedObligation.applicability := by
  induction h with
  | nil => rfl
  | cons hrow _ ih => rw [map_cons, map_cons, hrow.applicability, ih]

/-- What the same facts give back comes from an obligation they decide. -/
theorem recovered_eq_some {selected : List SelectedObligation}
    {applicability : ObligationApplicability}
    (h : recovered (selected.map rowWrite) row = some applicability) :
    ∃ o ∈ selected, o.capability = row.capability ∧ o.applicability ≠ .unresolved ∧
      applicability = o.applicability := by
  unfold recovered at h
  split at h
  · obtain ⟨d, hd, rfl⟩ := Option.map_eq_some_iff.mp h
    obtain ⟨o, ho, rfl⟩ := mem_map.mp (mem_of_find?_eq_some hd)
    have hmeets := find?_some hd
    obtain ⟨hcapability, hdecided⟩ := of_decide_eq_true hmeets
    exact ⟨o, ho, hcapability, hdecided, rfl⟩
  · cases h

theorem recovered_eq_none {selected : List SelectedObligation} (ho : o ∈ selected)
    (hcapability : row.capability = o.capability) (hdoubt : row.applicability = .unresolved)
    (h : recovered (selected.map rowWrite) row = none) : o.applicability = .unresolved := by
  rw [recovered, if_pos hdoubt, Option.map_eq_none_iff, find?_eq_none] at h
  by_contra hdecided
  apply h (rowWrite o) (mem_map_of_mem ho)
  exact decide_eq_true ⟨hcapability.symm, hdecided⟩

theorem restored_capability (derived : List PlanRowWrite) (row : PlanObligationRecord) :
    (restored derived row).capability = row.capability ∧
      (restored derived row).handler = row.handler := by
  unfold restored
  split <;> exact ⟨rfl, rfl⟩

theorem Holds.restored (h : Holds o row) (ho : o ∈ obligations request learned)
    (hfacts : request.canonical = request'.canonical) :
    Holds o (restored ((obligations request' learned').map rowWrite) row) := by
  obtain ⟨hcapability, hhandler⟩ :=
    restored_capability ((obligations request' learned').map rowWrite) row
  refine ⟨hcapability.trans h.capability, ?_, hhandler.trans h.handler⟩
  unfold TaskStore.restored
  cases hrecovered : recovered ((obligations request' learned').map rowWrite) row with
  | none => exact h.applicability
  | some applicability =>
    obtain ⟨o', ho', hname, -, rfl⟩ := recovered_eq_some hrecovered
    exact .inl (obligation_applicability hfacts ho ho' (h.capability.symm.trans hname.symm)).symm

theorem Holds.stores (h : Holds o row) {selected : List SelectedObligation}
    (hnodup : (selected.map SelectedObligation.capability).Nodup) (ho : o ∈ selected) :
    Stores o (TaskStore.restored (selected.map rowWrite) row) := by
  obtain ⟨hcapability, hhandler⟩ := restored_capability (selected.map rowWrite) row
  refine ⟨hcapability.trans h.capability, ?_, hhandler.trans h.handler⟩
  unfold TaskStore.restored
  cases hrecovered : recovered (selected.map rowWrite) row with
  | none =>
    rcases h.applicability with hsame | hdoubt
    · exact hsame
    · exact hdoubt.trans (recovered_eq_none ho h.capability hdoubt hrecovered).symm
  | some applicability =>
    obtain ⟨o', ho', hname, -, rfl⟩ := recovered_eq_some hrecovered
    rw [inj_on_of_nodup_map hnodup ho' ho (hname.trans h.capability)]

theorem holds_map {R : SelectedObligation → PlanObligationRecord → Prop}
    {f : PlanObligationRecord → PlanObligationRecord} {selected : List SelectedObligation}
    {rows : List PlanObligationRecord} (h : Forall₂ Holds selected rows)
    (hf : ∀ o ∈ selected, ∀ row, Holds o row → R o (f row)) :
    Forall₂ R selected (rows.map f) := by
  induction h with
  | nil => exact .nil
  | cons hrow _ ih =>
    apply Forall₂.cons (hf _ mem_cons_self _ hrow)
    exact ih fun o ho => hf o (mem_cons_of_mem _ ho)

/-! ## Calls -/

theorem select_ok {s tables : TaskStore} {sessionId : SessionId} {shortlist : List String}
    {selection : Selection}
    (h : select digest learned s sessionId request shortlist = .ok (tables, selection)) :
    ∃ record, s.recordPlanSelection sessionId request.taskId
        ⟨digest request.canonical, request.kind, (obligations request learned).map rowWrite⟩ =
          .ok (tables, record) ∧
      selection.revision = record.revision ∧ selection.factsDigest = record.factsDigest ∧
      selection.obligations = obligations request learned := by
  generalize hrecord : s.recordPlanSelection sessionId request.taskId
    ⟨digest request.canonical, request.kind, (obligations request learned).map rowWrite⟩ = x at *
  simp only [select, hrecord] at h
  cases x with
  | error e => cases h
  | ok result =>
    obtain ⟨rfl, rfl⟩ := Prod.mk.inj (Except.ok.inj h)
    exact ⟨result.2, rfl, rfl, rfl, rfl⟩

theorem recordPlanSelection_others {s : TaskStore} {taskId : TaskId} (sessionId : SessionId)
    (selection : PlanSelectionWrite) {u : TaskId} (hu : u ≠ taskId) :
    Within Refuses (fun r => r.1.planSelections u = s.planSelections u ∧
        r.1.planObligations u = s.planObligations u ∧ r.1.plans u = s.plans u)
      (s.recordPlanSelection sessionId taskId selection) := by
  apply (recordPlanSelection_moves sessionId selection).imp
  intro r h
  obtain ⟨m, hm, hstep⟩ := h u
  cases m with
  | stay =>
    exact ⟨congrArg TaskView.selection hstep, congrArg TaskView.rows hstep,
      congrArg TaskView.plans hstep⟩
  | select => exact absurd hm.1.symm hu
  | change => exact absurd hm.symm hu
  | _ => exact hm.elim

theorem Recorded.append {first : Selection} (h : Recorded digest calls request first)
    (rest : List Call) : Recorded digest (calls ++ rest) request first := by
  cases h with
  | intro pre post sessionId _ shortlist tables _ hanew hok =>
    rw [append_assoc, cons_append]
    exact .intro pre (post ++ rest) sessionId request shortlist tables first hanew hok

theorem NoCollision.left {rest : List Call} (h : NoCollision digest (calls ++ rest)) :
    NoCollision digest calls := by
  have hsub : ∀ facts ∈ factsOf calls, facts ∈ factsOf (calls ++ rest) := by
    intro facts hfacts
    rw [factsOf, filterMap_append]
    exact mem_append_left _ hfacts
  exact fun facts hfacts facts' hfacts' => h facts (hsub facts hfacts) facts' (hsub facts' hfacts')

theorem Recorded.spec {first : Selection} (h : Recorded digest calls request first) :
    request.canonical ∈ factsOf calls ∧ first.factsDigest = digest request.canonical ∧
      ∃ learned, first.obligations = obligations request learned := by
  cases h with
  | intro pre post sessionId _ shortlist tables _ hanew hok =>
    obtain ⟨record, hrecord, -, hdigest, hobligations⟩ := select_ok hok
    obtain ⟨hsame, -, -⟩ :=
      Within.of_ok (recordPlanSelection_anew sessionId (by exact hanew)) hrecord
    exact ⟨by simp [factsOf], hdigest.trans hsame, _, hobligations⟩

/-- The current selections are traced to the calls that recorded them. -/
def Traced (digest : CanonicalFacts → String) (calls : List Call) (tables : TaskStore) : Prop :=
  ∀ t current, tables.planSelections t = some current →
    ∃ request first, request.taskId = t ∧ Recorded digest calls request first ∧
      first.revision = current.revision ∧ first.factsDigest = current.factsDigest ∧
      Forall₂ Holds first.obligations (tables.planObligations t)

theorem Traced.answered {sessionId : SessionId} {shortlist : List String} {tables : TaskStore}
    {selection : Selection} (h : Traced digest calls (Registry.after digest calls).tables)
    (hdigest : NoCollision digest (calls ++ [.select sessionId request shortlist]))
    (hok : (Registry.after digest calls).select digest sessionId request shortlist =
      .ok (tables, selection)) : Answered digest calls request tables selection := by
  obtain ⟨record, hrecord, hrevision, hfacts, hobligations⟩ := select_ok hok
  cases hcurrent : ((Registry.after digest calls).tables.planSelections request.taskId).filter
      (·.factsDigest = digest request.canonical) with
  | none =>
    obtain ⟨-, hselection, hrows⟩ :=
      Within.of_ok (recordPlanSelection_anew sessionId (by exact hcurrent)) hrecord
    refine ⟨⟨record, hselection, hrevision.symm, hfacts.symm⟩, fun _ => ?_, absurd hcurrent⟩
    rw [hrows, hobligations]
    exact stores_written _
  | some current =>
    obtain ⟨rfl, hsame⟩ :=
      Within.of_ok (recordPlanSelection_kept sessionId (by exact hcurrent)) hrecord
    obtain ⟨hheld, hdigest'⟩ := Option.filter_eq_some_iff.mp hcurrent
    have hselection : tables.planSelections request.taskId = some record := by
      rw [hsame.selections]
      exact hheld
    refine ⟨⟨_, hselection, hrevision.symm, hfacts.symm⟩, ?_, fun _ => ?_⟩
    · intro hanew
      rw [Registry.Anew, hcurrent] at hanew
      cases hanew
    · obtain ⟨request0, first, htask, hfirst, hrevision0, hfacts0, hholds⟩ := h _ _ hheld
      obtain ⟨hmem, hdigest0, learned, hlearned⟩ := hfirst.spec
      have hcanonical : request0.canonical = request.canonical := by
        apply hdigest
        · rw [factsOf, filterMap_append]
          exact mem_append_left _ hmem
        · simp [factsOf]
        · rw [← hdigest0, hfacts0]
          exact of_decide_eq_true hdigest'
      have hkept : tables.planObligations request.taskId =
          (Registry.after digest calls).tables.keptRows request.taskId
            ((obligations request (Registry.after digest calls).learning.definition).map
              rowWrite) := by
        rw [hsame.rows]
        simp [setPlanRows]
      refine ⟨request0, first, htask, hcanonical, hfirst, hrevision0.trans hrevision.symm,
        hfacts0.trans hfacts.symm, ?_, ?_⟩
      · rw [hkept, keptRows]
        split
        · exact hholds
        · apply holds_map hholds
          intro o ho row hrow
          rw [hlearned] at ho
          exact hrow.restored ho hcanonical
      · intro hobl hresolved
        rw [hkept, keptRows, if_neg (by omega), ← hobligations, ← hobl]
        apply holds_map hholds
        intro o ho row hrow
        rw [hlearned] at ho ⊢
        exact hrow.stores (obligations_nodup _ _) ho

theorem Traced.keeps {tables tables' : TaskStore} (h : Traced digest calls tables)
    (hkeep : KeepsPlan tables tables') (call : Call) :
    Traced digest (calls ++ [call]) tables' := by
  intro t current hcurrent
  obtain ⟨hselection, hrows⟩ := hkeep t
  obtain ⟨request, first, htask, hfirst, hrevision, hfacts, hholds⟩ :=
    h t current (hselection ▸ hcurrent)
  exact ⟨request, first, htask, hfirst.append _, hrevision, hfacts, holds_keeps hholds hrows⟩

theorem Traced.select {sessionId : SessionId} {shortlist : List String} {tables : TaskStore}
    {selection : Selection} (h : Traced digest calls (Registry.after digest calls).tables)
    (hdigest : NoCollision digest (calls ++ [.select sessionId request shortlist]))
    (hok : (Registry.after digest calls).select digest sessionId request shortlist =
      .ok (tables, selection)) :
    Traced digest (calls ++ [.select sessionId request shortlist]) tables := by
  intro t current hcurrent
  by_cases ht : t = request.taskId
  · subst ht
    obtain ⟨⟨_, hnow, hrevision, hfacts⟩, hanew, hkept⟩ := h.answered hdigest hok
    obtain rfl := Option.mem_unique hnow hcurrent
    by_cases hnew : (Registry.after digest calls).Anew digest request
    · refine ⟨request, selection, rfl, ?_, hrevision.symm, hfacts.symm, ?_⟩
      · exact .intro calls [] sessionId request shortlist tables selection hnew hok
      · exact (hanew hnew).imp fun _ _ => Stores.holds
    · obtain ⟨request0, first, htask, -, hfirst, hrevision0, hfacts0, hholds, -⟩ := hkept hnew
      exact ⟨request0, first, htask, hfirst.append _, hrevision0.trans hrevision.symm,
        hfacts0.trans hfacts.symm, hholds⟩
  · obtain ⟨record, hrecord, -⟩ := select_ok hok
    obtain ⟨hselection, hrows, -⟩ := (recordPlanSelection_others sessionId _ ht).of_ok hrecord
    obtain ⟨request0, first, htask, hfirst, hrevision, hfacts, hholds⟩ :=
      h t current (hselection ▸ hcurrent)
    exact ⟨request0, first, htask, hfirst.append _, hrevision, hfacts, hrows ▸ hholds⟩

theorem traced (hdigest : NoCollision digest calls) :
    Traced digest calls (Registry.after digest calls).tables := by
  induction calls using reverseRecOn with
  | nil =>
    intro t current hcurrent
    cases hcurrent
  | append_singleton calls call ih =>
    have hcalls := ih hdigest.left
    rw [after_snoc]
    cases call with
    | store op direct => exact hcalls.keeps (perform_keepsPlan direct) _
    | recordDelta | recordCorpus | activate | rollBack =>
      simp only [Registry.perform, learn_tables]
      exact hcalls.keeps (frames_keepsPlan.refl _) _
    | select sessionId request shortlist =>
      simp only [Registry.perform]
      split
      · next tables selection hok => exact hcalls.select hdigest hok
      · exact hcalls.keeps (frames_keepsPlan.refl _) _

/-- Once a selection is answered, the rows of its task are the recorded ones. -/
theorem selection_stored (sessionId : SessionId) (shortlist : List String) {tables : TaskStore}
    {selection : Selection}
    (hdigest : NoCollision digest (calls ++ [.select sessionId request shortlist]))
    (hok : (Registry.after digest calls).select digest sessionId request shortlist =
      .ok (tables, selection)) : Answered digest calls request tables selection :=
  (traced hdigest.left).answered hdigest hok

/-! ## Identical facts -/

/-- A local change under an approved contract. -/
def approvedChange : PlanRequest :=
  ⟨⟨"task"⟩, .change, .known {.localOnly}, .approved, []⟩

/-- The digest of the facts of `approvedChange`. -/
def approvedDigest (_ : CanonicalFacts) : String :=
  "273899ffc8e55046465c6c8cbf1d509fc49baa5328a3f217f528da6273e02351"

def oneCriterion : Op :=
  .createTask ⟨"task"⟩ (fun _ => "criterion") "create"
    ⟨⟨"session"⟩, "operator", "goal", ["criterion"], []⟩

theorem oneCriterion_direct : oneCriterion.selects = false := rfl

def selectChange : Call := .select ⟨"session"⟩ approvedChange []

theorem approvedDigest_noCollision :
    NoCollision approvedDigest
      [.store oneCriterion oneCriterion_direct, selectChange, selectChange] := by
  intro facts hfacts facts' hfacts' _
  have hone : ∀ f ∈ factsOf [.store oneCriterion oneCriterion_direct, selectChange, selectChange],
      f = approvedChange.canonical := by
    simp [factsOf, selectChange]
  exact (hone facts hfacts).trans (hone facts' hfacts').symm

/-- The second selection of the same facts is kept. -/
theorem selection_stored_kept :
    ∃ tables selection,
      (Registry.after approvedDigest [.store oneCriterion oneCriterion_direct, selectChange]).select
        approvedDigest ⟨"session"⟩ approvedChange [] = .ok (tables, selection) ∧
      Answered approvedDigest [.store oneCriterion oneCriterion_direct, selectChange]
        approvedChange tables selection :=
  ⟨_, _, by rfl, selection_stored ⟨"session"⟩ [] approvedDigest_noCollision (by rfl)⟩

/-- A criterion obligation goes into doubt, and the rows of the plan with it. -/
def doubted : List Call :=
  [.store oneCriterion oneCriterion_direct,
    .store (.materializeObligations ⟨"task"⟩ fun _ => "obligation") rfl, selectChange,
    .store (.markApplicabilityUnresolved "obligation") rfl]

theorem selection_doubted :
    ¬ ∀ (digest : CanonicalFacts → String) (calls : List Call) (sessionId : SessionId)
      (request : PlanRequest) (shortlist : List String) (tables : TaskStore)
      (selection : Selection),
      (Registry.after digest calls).select digest sessionId request shortlist =
        .ok (tables, selection) →
      Forall₂ Stores selection.obligations (tables.planObligations request.taskId) := by
  intro h
  have happ : ((Registry.after approvedDigest doubted).select approvedDigest ⟨"session"⟩
      approvedChange []).toOption.map (fun r => (r.2.obligations.map (·.applicability),
        (r.1.planObligations ⟨"task"⟩).map (·.applicability))) =
      some ([.required, .required, .required], [.unresolved, .unresolved, .unresolved]) := by
    decide
  obtain ⟨⟨tables, selection⟩, hok, hrows⟩ := Option.map_eq_some_iff.mp happ
  have hselect : (Registry.after approvedDigest doubted).select approvedDigest ⟨"session"⟩
      approvedChange [] = .ok (tables, selection) := by
    generalize (Registry.after approvedDigest doubted).select approvedDigest ⟨"session"⟩
      approvedChange [] = x at hok
    cases x with
    | ok r => exact congrArg Except.ok (Option.some.inj hok)
    | error e => cases hok
  have hsame := stores_applicability (h _ _ _ _ _ _ _ hselect)
  obtain ⟨hobligations, hdoubt⟩ := Prod.mk.inj hrows
  rw [hobligations] at hsame
  exact absurd (hdoubt.symm.trans hsame) (by decide)

end Rivect.Actions
