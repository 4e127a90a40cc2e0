import Mathlib.Data.String.Basic
import Rivect.Procedure.Law

/-! # What retention takes

A start that opens a run prunes the terminal runs beyond the newest, a recorded segment prunes the
segments beyond the newest with all their runs. The second reaches runs that are still open.
-/

namespace Rivect.Procedure

open Lib List
open Within (skip trivially)

variable {t : ProcedureTables} {call : Call}

namespace ProcedureTables

/-- The attempt of a prepared step has started, or its state does not exclude that it has. -/
def MayHaveStarted (t : ProcedureTables) (step : StepRow) : Prop :=
  step.state = .prepared ∧
    StepStanding.parse ((t.attempts step.attemptId).map AttemptRow.state) ≠ some .notStarted

/-- The segments that leave once this one is recorded. -/
def droppedSegments (t : ProcedureTables) (template : SegmentTemplate) : List String :=
  let segments :=
    if t.segments.any (·.procedureId = template.procedureId) then t.segments
    else t.segments ++ [template]
  ((segments.map SegmentTemplate.procedureId).reverse).drop PROCEDURE_SEGMENT_RETENTION

/-- The runs of dropped segments. -/
def runsOf (t : ProcedureTables) (procedureIds : List String) : List String :=
  (t.runs.filter (·.procedureId ∈ procedureIds)).map RunRow.runId

/-- The terminal runs beyond the newest. -/
def staleRuns (t : ProcedureTables) : List String :=
  (((t.runs.filter (·.state ≠ .running)).map RunRow.runId).reverse).drop PROCEDURE_RUN_RETENTION

/-- The start opens a new run. -/
def opens (t : ProcedureTables) (segment : SegmentTemplate) (snapshot : SegmentSnapshot)
    (openAs : RunStart) (runId : String) : Bool :=
  match segment.prepare snapshot, t.resumableProcedureRun segment.procedureId segment.version with
  | .ok (), .ok none =>
    match t.openProcedureRun segment snapshot openAs runId with
    | .ok _ => true
    | .error _ => false
  | _, _ => false

/-- The runs that the retention of a call takes. -/
def pruned (t : ProcedureTables) : Call → List String
  | .record template => t.runsOf (t.droppedSegments template)
  | .start segment snapshot openAs runId =>
    if t.opens segment snapshot openAs runId then t.staleRuns else []
  | _ => []

end ProcedureTables

open ProcedureTables

def Call.releases : Call → Bool
  | .release .. => true
  | _ => false

/-- Every run that a call deletes was terminal, and a prepared step that may have started stays
unless the call releases it. -/
structure KeepsLive (t : ProcedureTables) (call : Call) : Prop where
  runs : ∀ row ∈ t.runs, row.runId ∉ (t.perform call).1.runs.map RunRow.runId →
    row.state ≠ .running
  steps : call.releases = false → ∀ step ∈ t.steps, t.MayHaveStarted step →
    ∃ step' ∈ (t.perform call).1.steps,
      step'.runId = step.runId ∧ step'.position = step.position

/-- The retention of the call takes an open run, or a run with a prepared step that may have
started. -/
def TakesLive (t : ProcedureTables) (call : Call) : Prop :=
  ∃ runId ∈ t.pruned call, (∃ row ∈ t.runs, row.runId = runId ∧ row.state = .running) ∨
    ∃ step ∈ t.steps, step.runId = runId ∧ t.MayHaveStarted step

/-- What leaves with the runs that a call prunes, and nothing else. -/
structure Prunes (t t' : ProcedureTables) (runIds : List String) : Prop where
  runs : ∀ row ∈ t.runs, row.runId ∈ t'.runs.map RunRow.runId ↔ row.runId ∉ runIds
  steps : ∀ step ∈ t.steps,
    (∃ step' ∈ t'.steps, step'.runId = step.runId ∧ step'.position = step.position) ↔
      step.runId ∉ runIds

theorem Prunes.keepsLive_iff (h : Prunes t (t.perform call).1 (t.pruned call))
    (hreleases : call.releases = false) : KeepsLive t call ↔ ¬ TakesLive t call := by
  constructor
  · rintro hkeeps ⟨runId, hpruned, ⟨row, hrow, rfl, hrunning⟩ | ⟨step, hstep, rfl, hstarted⟩⟩
    · exact hkeeps.runs row hrow (fun hmem => (h.runs row hrow).mp hmem hpruned) hrunning
    · exact (h.steps step hstep).mp (hkeeps.steps hreleases step hstep hstarted) hpruned
  · intro htakes
    refine ⟨fun row hrow hgone hrunning => htakes ?_, fun _ step hstep hstarted => ?_⟩
    · have hpruned : row.runId ∈ t.pruned call := by
        by_contra hkept
        exact hgone ((h.runs row hrow).mpr hkept)
      exact ⟨row.runId, hpruned, Or.inl ⟨row, hrow, rfl, hrunning⟩⟩
    · by_contra hgone
      have hpruned : step.runId ∈ t.pruned call := by
        by_contra hkept
        exact hgone ((h.steps step hstep).mpr hkept)
      exact htakes ⟨step.runId, hpruned, Or.inr ⟨step, hstep, rfl, hstarted⟩⟩

/-! ## What each call prunes -/

theorem prunes_evict (t : ProcedureTables) (runIds : List String) :
    Prunes t (t.evict runIds) runIds := by
  refine ⟨fun row hrow => ?_, fun step hstep => ?_⟩
  · constructor
    · intro hmem
      obtain ⟨row', hrow', hid⟩ := mem_map.mp hmem
      rw [← hid]
      exact of_decide_eq_true (mem_filter.mp hrow').2
    · exact fun hkept => mem_map_of_mem (mem_filter.mpr ⟨hrow, decide_eq_true hkept⟩)
  · constructor
    · rintro ⟨step', hstep', hid, -⟩
      rw [← hid]
      exact of_decide_eq_true (mem_filter.mp hstep').2
    · exact fun hkept => ⟨step, mem_filter.mpr ⟨hstep, decide_eq_true hkept⟩, rfl, rfl⟩

theorem prunes_nothing {t t' : ProcedureTables}
    (hruns : t'.runs.map RunRow.runId = t.runs.map RunRow.runId)
    (hsteps : ∀ step ∈ t.steps, ∃ step' ∈ t'.steps,
      step'.runId = step.runId ∧ step'.position = step.position) : Prunes t t' [] where
  runs row hrow := by
    rw [hruns]
    exact iff_of_true (mem_map_of_mem hrow) not_mem_nil
  steps step hstep := iff_of_true (hsteps step hstep) not_mem_nil

theorem prunes_steps_kept {t t' : ProcedureTables}
    (hruns : t'.runs.map RunRow.runId = t.runs.map RunRow.runId) (hsteps : t'.steps = t.steps) :
    Prunes t t' [] :=
  prunes_nothing hruns fun step hstep => ⟨step, hsteps ▸ hstep, rfl, rfl⟩

theorem prunes_refl (t : ProcedureTables) : Prunes t t [] := prunes_steps_kept rfl rfl

theorem prunes_updateRun (t : ProcedureTables) (runId : String) (meets : RunRow → Bool)
    {update : RunRow → RunRow} (hupdate : ∀ row, (update row).runId = row.runId) :
    Prunes t (t.updateRun runId meets update) [] :=
  prunes_steps_kept (updateRun_runIds runId meets hupdate) rfl

theorem readBack_prunes {runId : String} {write : Except ProcedureError ProcedureTables}
    (hwrite : Within Fails (fun t' => Prunes t t' []) write) :
    Prunes t (t.readBack runId write).1 [] := by
  cases write with
  | ok t' => exact hwrite
  | error e => exact prunes_refl t

theorem written_prunes {α : Type} {answer : α → Answer}
    {write : Except ProcedureError (ProcedureTables × α)}
    (hwrite : Within Fails (fun r => Prunes t r.1 []) write) :
    Prunes t (written t write answer).1 [] := by
  cases write with
  | ok r => exact hwrite
  | error e => exact prunes_refl t

theorem transition_prunes (runId : String) (meets : RunRow → Bool) {update : RunRow → RunRow}
    (hupdate : ∀ row, (update row).runId = row.runId) :
    Within Fails (fun t' => Prunes t t' []) (t.transition runId meets update) := by
  unfold transition
  split
  · exact prunes_updateRun t runId meets hupdate
  · exact Within.bind trivially fun _ _ => trivial

theorem settleWrite_prunes (runId : String) (step : SettledStep) :
    Within Fails (fun t' => Prunes t t' []) (t.settleWrite runId step) := by
  apply skip
  intro run
  apply skip
  intro position
  apply skip
  intro cursor
  apply skip
  intro _
  apply skip
  intro _
  refine prunes_nothing (updateRun_runIds runId _ fun _ => rfl) fun row hrow => ?_
  refine ⟨_, mem_map_of_mem hrow, ?_⟩
  split <;> exact ⟨rfl, rfl⟩

theorem prepare_prunes (run : ProcedureRun) (position : ℕ) (tool attemptId : String) :
    Within Fails (fun t' => Prunes t t' [])
      (t.prepareProcedureStep run position tool attemptId) := by
  apply skip
  intro _
  apply skip
  intro _
  apply skip
  intro _
  exact prunes_nothing rfl fun step hstep => ⟨step, mem_append_left _ hstep, rfl, rfl⟩

/-- A new run is running, so the terminal ones are those of before. -/
theorem prunes_insert {row : RunRow} (hrunning : row.state = .running)
    (hnew : ∀ r ∈ t.runs, r.runId ≠ row.runId) :
    Prunes t ({ t with runs := t.runs ++ [row] }.pruneProcedureRuns PROCEDURE_RUN_RETENTION)
      t.staleRuns := by
  have hstale : (((t.runs ++ [row]).filter (·.state ≠ .running)).map RunRow.runId).reverse.drop
      PROCEDURE_RUN_RETENTION = t.staleRuns := by
    simp [staleRuns, hrunning]
  rw [pruneProcedureRuns, hstale]
  refine ⟨fun r hr => ?_, (prunes_evict t t.staleRuns).steps⟩
  rw [← (prunes_evict t t.staleRuns).runs r hr]
  constructor
  · intro hmem
    obtain ⟨r', hr', hid⟩ := mem_map.mp hmem
    obtain ⟨hr', hkept⟩ := mem_filter.mp hr'
    rcases mem_append.mp hr' with hold | hlast
    · exact hid ▸ mem_map_of_mem (mem_filter.mpr ⟨hold, hkept⟩)
    · rw [mem_singleton.mp hlast] at hid
      exact absurd hid.symm (hnew r hr)
  · intro hmem
    obtain ⟨r', hr', hid⟩ := mem_map.mp hmem
    obtain ⟨hold, hkept⟩ := mem_filter.mp hr'
    exact hid ▸ mem_map_of_mem (mem_filter.mpr ⟨mem_append_left _ hold, hkept⟩)

section

variable (segment : SegmentTemplate) (snapshot : SegmentSnapshot)
include segment snapshot

theorem insertProcedureRun_prunes
    (runId : String) :
    Within Fails (fun t' => Prunes t t' t.staleRuns)
      (t.insertProcedureRun segment snapshot runId) := by
  apply skip
  intro version
  apply skip
  intro stepCount
  apply Within.guard
  intro hnew
  exact prunes_insert rfl hnew

theorem openProcedureRun_prunes
    (openAs : RunStart) (runId : String) :
    Within Fails (fun t' => Prunes t t' t.staleRuns)
      (t.openProcedureRun segment snapshot openAs runId) := by
  unfold openProcedureRun
  split <;>
  · apply skip
    intro completed
    dsimp only
    split
    · trivial
    · exact insertProcedureRun_prunes segment snapshot runId

theorem start_prunes
    (openAs : RunStart) (runId : String) :
    Prunes t (t.startProcedureRun segment snapshot openAs runId).1
      (if t.opens segment snapshot openAs runId then t.staleRuns else []) := by
  unfold startProcedureRun opens
  cases segment.prepare snapshot with
  | error e => exact prunes_refl t
  | ok _ =>
    cases t.resumableProcedureRun segment.procedureId segment.version with
    | error e => exact prunes_refl t
    | ok found =>
      cases found with
      | some run =>
        change Prunes t (t.reopenProcedureRun run).1 []
        unfold reopenProcedureRun
        split
        · exact prunes_refl t
        · exact readBack_prunes (prunes_updateRun t _ _ fun _ => rfl)
      | none =>
        have hopen := openProcedureRun_prunes (t := t) segment snapshot openAs runId
        cases hwrite : t.openProcedureRun segment snapshot openAs runId with
        | error e => exact prunes_refl t
        | ok t' => exact hopen.of_ok hwrite

end

theorem perform_prunes (t : ProcedureTables) {call : Call} (hreleases : call.releases = false) :
    Prunes t (t.perform call).1 (t.pruned call) := by
  cases call with
  | start segment snapshot openAs runId => exact start_prunes segment snapshot openAs runId
  | record template =>
    have hevicts := prunes_evict t (t.pruned (.record template))
    exact ⟨hevicts.runs, hevicts.steps⟩
  | prepare run position tool attemptId =>
    have hprepares := prepare_prunes (t := t) run position tool attemptId
    apply written_prunes
    cases hwrite : t.prepareProcedureStep run position tool attemptId with
    | error e => trivial
    | ok t' => exact hprepares.of_ok hwrite
  | release => cases hreleases
  | settle runId step => exact readBack_prunes (settleWrite_prunes runId step)
  | stop runId decision => exact readBack_prunes (transition_prunes runId _ fun _ => rfl)
  | complete runId => exact readBack_prunes (transition_prunes runId _ fun _ => rfl)
  | read runId => exact prunes_refl t
  | attempt attemptId row => exact prunes_steps_kept rfl rfl

theorem keepsLive_release (t : ProcedureTables) (runId : String) (position : ℕ) :
    KeepsLive t (.release runId position) := by
  refine ⟨fun row hrow hgone => ?_, nofun⟩
  have hruns : (t.perform (.release runId position)).1.runs = t.runs := by
    have hwrite : Within Fails (fun r => r.1.runs = t.runs)
        (t.releaseUnstartedProcedureStep runId position) := by
      apply skip
      intro prepared
      split
      · rfl
      · split
        · rfl
        · exact Within.bind trivially fun _ _ => rfl
    change (written t (t.releaseUnstartedProcedureStep runId position) Answer.released).1.runs = _
    cases hreleased : t.releaseUnstartedProcedureStep runId position with
    | error e => rfl
    | ok r => exact hwrite.of_ok hreleased
  rw [hruns] at hgone
  exact absurd (mem_map_of_mem hrow) hgone

theorem keepsLive_iff (t : ProcedureTables) (call : Call) :
    KeepsLive t call ↔ ¬ TakesLive t call := by
  cases hreleases : call.releases with
  | false => exact (perform_prunes t hreleases).keepsLive_iff hreleases
  | true =>
    cases call with
    | release runId position =>
      exact iff_of_true (keepsLive_release t runId position) fun ⟨_, hmem, _⟩ =>
        not_mem_nil hmem
    | _ => cases hreleases

/-! ## Whole runs -/

/-- The tables after some calls on new ones. -/
def tablesAfter (calls : List Call) : ProcedureTables :=
  calls.foldl (fun t call => (t.perform call).1) ProcedureTables.fresh

/-- The calls of a run meet `P`, each on the tables it is made on. -/
def AtEachCall (P : ProcedureTables → Call → Prop) (calls : List Call) : Prop :=
  ∀ pre call post, calls = pre ++ call :: post → P (tablesAfter pre) call

/-- In a run of calls retention deletes terminal runs alone, and no prepared step that may have
started, exactly if no call's retention takes an open run or a run with such a step. -/
theorem retention_keeps_live (calls : List Call) :
    AtEachCall KeepsLive calls ↔ AtEachCall (fun t call => ¬ TakesLive t call) calls := by
  constructor
  · intro h pre call post hcalls
    exact (keepsLive_iff _ _).mp (h pre call post hcalls)
  · intro h pre call post hcalls
    exact (keepsLive_iff _ _).mpr (h pre call post hcalls)

/-- The segment of another task. -/
def otherSegment (n : ℕ) : SegmentTemplate :=
  { twoSteps with
    procedureId := "procedure:other" ++ toString n ++ ":1"
    taskId := "other" ++ toString n }

/-- Other tasks record as many segments as the window holds while a run is open. -/
def crowdedOut : List Call :=
  [.record twoSteps, .start twoSteps twoStepsSnapshot .resume "run"] ++
    (List.range 31).map fun n => .record (otherSegment n)

/-- The open run leaves with its segment. -/
theorem not_retention_keeps_live :
    ¬ AtEachCall KeepsLive (crowdedOut ++ [.record (otherSegment 31)]) := by
  intro h
  have htakes := (keepsLive_iff _ _).mp (h crowdedOut (.record (otherSegment 31)) [] rfl)
  apply htakes
  refine ⟨"run", ?_, Or.inl ?_⟩
  · decide +kernel
  · decide +kernel

end Rivect.Procedure
