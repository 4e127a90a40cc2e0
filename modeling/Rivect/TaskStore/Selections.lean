import Rivect.TaskStore.Frame

/-! # The rows of a selection

Other facts record a selection anew, with the rows that it names. The same facts keep it: of its
rows they give back what was put in doubt.
-/

namespace Rivect

open Lib List

namespace TaskStore

open TaskView

variable {s s' s'' : TaskStore} {taskId : TaskId}

/-! ## What writes no plan -/

/-- The selections, their rows and the plan revisions stay. -/
structure SamePlan (s s' : TaskStore) : Prop where
  selections : s'.planSelections = s.planSelections
  rows : s'.planObligations = s.planObligations
  plans : s'.plans = s.plans

theorem SamePlan.refl (s : TaskStore) : SamePlan s s := ⟨rfl, rfl, rfl⟩

/-! ## What a call leaves of the selections -/

/-- The selections stay, and their rows are at most put in doubt. -/
def KeepsPlan (s s' : TaskStore) : Prop :=
  ∀ t, s'.planSelections t = s.planSelections t ∧
    Forall₂ KeepsRow (s.planObligations t) (s'.planObligations t)

theorem forall₂_trans {α : Type*} {K : α → α → Prop}
    (htrans : ∀ a b c, K a b → K b c → K a c) {l l' l'' : List α} (h : Forall₂ K l l')
    (h' : Forall₂ K l' l'') : Forall₂ K l l'' := by
  induction h generalizing l'' with
  | nil => exact h'
  | cons hrow _ ih =>
    cases h' with
    | cons hrow' hrest => exact .cons (htrans _ _ _ hrow hrow') (ih hrest)

theorem updatePlanRows_forall₂ {K : PlanObligationRecord → PlanObligationRecord → Prop}
    (hrefl : ∀ row, K row row) (source : PlanObligationRecord → Bool)
    {f : PlanObligationRecord → PlanObligationRecord}
    (hf : ∀ row, source row = true → K row (f row)) (t : TaskId) :
    Forall₂ K (s.planObligations t) ((s.updatePlanRows taskId source f).planObligations t) := by
  by_cases ht : t = taskId
  · subst ht
    simp only [updatePlanRows, setPlanRows, Function.update_self]
    rw [forall₂_map_right_iff]
    apply forall₂_same.mpr
    intro row _
    split
    · next hsource => exact hf row hsource
    · exact hrefl row
  · simp only [updatePlanRows, setPlanRows, Function.update_of_ne ht]
    exact forall₂_same.mpr fun row _ => hrefl row

theorem SamePlan.keeps (h : SamePlan s s') : KeepsPlan s s' := by
  intro t
  rw [h.selections, h.rows]
  exact ⟨rfl, forall₂_same.mpr fun row _ => .refl row⟩

theorem frames_keepsPlan : Frames KeepsRow KeepsPlan where
  task taskId :=
    { doubted := fun _ => ⟨rfl, rfl, rfl, .inr rfl⟩
      answered := fun _ _ => ⟨rfl, rfl, rfl, .inl rfl⟩
      reopened := fun _ => ⟨rfl, rfl, rfl, .inl rfl⟩
      refl := fun s => (SamePlan.refl s).keeps
      trans := fun h h' t =>
        ⟨(h' t).1.trans (h t).1,
          forall₂_trans (K := KeepsRow) (fun _ _ _ => KeepsRow.trans) (h t).2 (h' t).2⟩
      weaken := id
      journal := fun _ _ => SamePlan.keeps ⟨rfl, rfl, rfl⟩
      questions := fun _ _ _ => SamePlan.keeps ⟨rfl, rfl, rfl⟩
      task := fun _ _ _ => SamePlan.keeps ⟨rfl, rfl, rfl⟩
      next := fun _ _ _ _ _ _ => SamePlan.keeps ⟨rfl, rfl, rfl⟩
      answers := fun _ _ => SamePlan.keeps ⟨rfl, rfl, rfl⟩
      hold := fun _ _ => SamePlan.keeps ⟨rfl, rfl, rfl⟩
      mark := fun _ _ => SamePlan.keeps ⟨rfl, rfl, rfl⟩
      plans := fun _ _ _ _ => ⟨rfl, forall₂_same.mpr fun row _ => .refl row⟩
      rows := fun _ source _ hf t => ⟨rfl, updatePlanRows_forall₂ KeepsRow.refl source hf t⟩ }
  records h := by
    obtain ⟨_, _, _, _, _, rfl⟩ := h.rest
    exact SamePlan.keeps ⟨rfl, rfl, rfl⟩
  insert _ _ _ _ := SamePlan.keeps ⟨rfl, rfl, rfl⟩

theorem perform_keepsPlan {op : Op} (hop : op.selects = false) :
    KeepsPlan s (s.perform op).1 := frames_keepsPlan.perform hop op.rowsWithin_keepsRow

/-! ## What a selection writes -/

theorem settlesState_samePlan {v v' : TaskView} (h : SettlesState v v') :
    v'.selection = v.selection ∧ v'.rows = v.rows ∧ v'.plans = v.plans := by
  unfold SettlesState at h
  cases h with
  | stays => exact ⟨rfl, rfl, rfl⟩
  | blocks => exact ⟨rfl, rfl, rfl⟩
  | releases _ _ hrel => cases hrel <;> exact ⟨rfl, rfl, rfl⟩

theorem settlePlanState_samePlan : Within Refuses (SamePlan s) (s.settlePlanState taskId) := by
  apply settlePlanState_changes.imp
  intro s' h
  have hview : ∀ t, (s'.view t).selection = (s.view t).selection ∧
      (s'.view t).rows = (s.view t).rows ∧ (s'.view t).plans = (s.view t).plans := by
    intro t
    by_cases ht : t = taskId
    · subst ht
      exact settlesState_samePlan h.2
    · rw [h.1 t ht]
      exact ⟨rfl, rfl, rfl⟩
  exact ⟨funext fun t => (hview t).1, funext fun t => (hview t).2.1,
    funext fun t => (hview t).2.2⟩

/-- A row as the same facts leave it. -/
def restored (derived : List PlanRowWrite) (row : PlanObligationRecord) : PlanObligationRecord :=
  match recovered derived row with
  | some applicability => { row with applicability := applicability }
  | none => row

/-- The rows that the same facts leave of a task's. -/
def keptRows (s : TaskStore) (taskId : TaskId) (derived : List PlanRowWrite) :
    List PlanObligationRecord :=
  if 0 < s.unresolvedObligations taskId then s.planObligations taskId
  else (s.planObligations taskId).map (restored derived)

theorem map_restored {derived : List PlanRowWrite} {rows : List PlanObligationRecord}
    (h : ¬ rows.any (fun row => (recovered derived row).isSome) = true) :
    rows.map (restored derived) = rows := by
  have hsame : ∀ row ∈ rows, restored derived row = id row := by
    intro row hrow
    have hnone : recovered derived row = none := by
      by_contra hsome
      exact h (any_eq_true.mpr ⟨row, hrow, Option.isSome_iff_ne_none.mpr hsome⟩)
    simp [restored, hnone]
  rw [map_congr_left hsame, map_id]

theorem recordPlanSelection_kept (sessionId : SessionId) {selection : PlanSelectionWrite}
    {current : PlanSelectionRecord}
    (hcurrent : (s.planSelections taskId).filter (·.factsDigest = selection.factsDigest) =
      some current) :
    Within Refuses (fun r => r.2 = current ∧
        SamePlan (s.setPlanRows taskId (s.keptRows taskId selection.rows)) r.1)
      (s.recordPlanSelection sessionId taskId selection) := by
  have hsame : SamePlan (s.setPlanRows taskId (s.planObligations taskId)) s :=
    ⟨rfl, by simp [setPlanRows], rfl⟩
  apply Within.skip
  intro _
  rw [hcurrent]
  dsimp only
  unfold resetRecoveredPlanRows keptRows
  split
  · exact ⟨rfl, hsame⟩
  · dsimp only
    split
    · apply Within.bind settlePlanState_samePlan
      exact fun s' h => ⟨rfl, h⟩
    · next hnone =>
      rw [map_restored hnone]
      exact ⟨rfl, hsame⟩

theorem recordPlanSelection_anew (sessionId : SessionId) {selection : PlanSelectionWrite}
    (hfresh : (s.planSelections taskId).filter (·.factsDigest = selection.factsDigest) = none) :
    Within Refuses (fun r => r.2.factsDigest = selection.factsDigest ∧
        r.1.planSelections taskId = some r.2 ∧
        r.1.planObligations taskId = selection.rows.map PlanRowWrite.row)
      (s.recordPlanSelection sessionId taskId selection) := by
  apply Within.skip
  intro _
  rw [hfresh]
  dsimp only
  apply Within.bind (P := fun _ => True)
  · exact ((frames_keepsPlan.task taskId).supersedeReplaced _ _).imp fun _ _ => trivial
  · intro s1 _
    apply Within.skip
    intro stored
    apply Within.skip
    intro _
    apply Within.bind settlePlanState_samePlan
    intro s' h
    refine ⟨rfl, ?_, ?_⟩
    · rw [h.selections]
      simp [setPlanRows, setPlanSelection]
    · rw [h.rows]
      simp [setPlanRows]

end TaskStore

end Rivect
