import Rivect.Lib.Run
import Rivect.Procedure.Model

/-! # What one call does

`Writes` lists everything a call can do to the run tables, and `Moves` what becomes of the row and
the step rows of one run. The invariants are then kept case by case.
-/

namespace Rivect.Procedure

open Lib List

/-! ## Calls -/

inductive Answer where
  | run (run : ProcedureRun)
  | done
  | released (released : Bool)
deriving DecidableEq

/-- `read`, `record` and `attempt` are the other uses of the tables. -/
inductive Call where
  | start (segment : SegmentTemplate) (snapshot : SegmentSnapshot) (openAs : RunStart)
      (runId : String)
  | prepare (run : ProcedureRun) (position : ℕ) (tool attemptId : String)
  | release (runId : String) (position : ℕ)
  | settle (runId : String) (step : SettledStep)
  | stop (runId : String) (decision : StopDecision)
  | complete (runId : String)
  | read (runId : String)
  | record (template : SegmentTemplate)
  | attempt (attemptId : String) (row : AttemptRow)

/-- A call's answer when it writes no table on a refusal. -/
def written {α : Type} (t : ProcedureTables) (write : Except ProcedureError (ProcedureTables × α))
    (answer : α → Answer) : ProcedureTables × Except ProcedureError Answer :=
  match write with
  | .ok (t', a) => (t', .ok (answer a))
  | .error e => (t, .error e)

namespace ProcedureTables

def perform (t : ProcedureTables) : Call → ProcedureTables × Except ProcedureError Answer
  | .start segment snapshot openAs runId =>
    (t.startProcedureRun segment snapshot openAs runId).map id (·.map .run)
  | .prepare run position tool attemptId =>
    written t ((t.prepareProcedureStep run position tool attemptId).map (·, ())) fun _ => .done
  | .release runId position => written t (t.releaseUnstartedProcedureStep runId position) .released
  | .settle runId step => (t.settleProcedureStep runId step).map id (·.map .run)
  | .stop runId decision => (t.stopProcedureRun runId decision).map id (·.map .run)
  | .complete runId => (t.completeProcedureRun runId).map id (·.map .run)
  | .read runId => (t, (t.procedureRun runId).map .run)
  | .record template => (t.recordProcedureSegment template, .ok .done)
  | .attempt attemptId row =>
    ({ t with attempts := fun id => if id = attemptId then some row else t.attempts id },
      .ok .done)

end ProcedureTables

/-- What a call may do to the runs and the steps, where the caller holds the runs `handed`. -/
inductive Writes (handed : List ProcedureRun) (t t' : ProcedureTables) : Prop
  | stays (hruns : t'.runs = t.runs) (hsteps : t'.steps = t.steps)
  | evicts (ids : List String) (hruns : t'.runs = (t.evict ids).runs)
      (hsteps : t'.steps = (t.evict ids).steps)
  | opens (row : RunRow) (ids : List String) (hcursor : row.cursor = 0)
      (hstate : row.state = .running) (hversion : row.procedureVersion < 2 ^ 63)
      (hnew : ∀ r ∈ t.runs, r.runId ≠ row.runId) (hkept : row.runId ∉ ids)
      (hfirst : ∀ r ∈ t.runs, r.procedureId = row.procedureId →
        r.procedureVersion = row.procedureVersion → r.state = .completed)
      (hruns : t'.runs =
        (ProcedureTables.evict { t with runs := t.runs ++ [row] } ids).runs)
      (hsteps : t'.steps = (t.evict ids).steps)
  | prepares (run : ProcedureRun) (step : StepRow) (hhanded : run ∈ handed)
      (hid : step.runId = run.runId) (hposition : step.position = run.cursor + 1)
      (hstate : step.state = .prepared)
      (hnew : ∀ s ∈ t.steps, ¬ (s.runId = run.runId ∧ s.position = step.position))
      (hruns : t'.runs = t.runs) (hsteps : t'.steps = t.steps ++ [step])
  | releases (runId : String) (position : ℕ) (hruns : t'.runs = t.runs)
      (hsteps : t'.steps = (t.dropPrepared runId position).steps)
  | settles (row : RunRow) (step : SettledStep) (hrow : row ∈ t.runs)
      (hstate : row.state = .running)
      (hprepared : ∃ s ∈ t.steps, s.runId = row.runId ∧ s.position = step.position ∧
        s.state = .prepared)
      (hruns : t'.runs = (t.advanceCursor row.runId row.cursor step.position).runs)
      (hsteps : t'.steps = (t.markSettled row.runId step).steps)
  | turns (runId : String) (meets : RunRow → Bool) (state : RunState)
      (stop : RunRow → Option StopDecision) (hmeets : ∀ row, meets row → row.state ≠ .completed)
      (hcompleted : ∀ row, meets row → state = .completed → row.cursor = row.stepCount)
      (hruns : t'.runs =
        (t.updateRun runId meets fun row => { row with state, stop := stop row }).runs)
      (hsteps : t'.steps = t.steps)

namespace ProcedureTables

variable {t t' : ProcedureTables} {handed : List ProcedureRun} {id : String}

/-! ## Calls as writes -/

theorem readBack_writes {runId : String} {write : Except ProcedureError ProcedureTables}
    (hwrite : Within Fails (Writes handed t) write) :
    Writes handed t (t.readBack runId write).1 := by
  cases write with
  | ok t' => exact hwrite
  | error e => exact .stays rfl rfl

theorem written_writes {α : Type} {answer : α → Answer}
    {write : Except ProcedureError (ProcedureTables × α)}
    (hwrite : Within Fails (fun r => Writes handed t r.1) write) :
    Writes handed t (written t write answer).1 := by
  cases write with
  | ok r => exact hwrite
  | error e => exact .stays rfl rfl

theorem stored_within (value : ℕ) :
    Within Fails (fun v => value = v ∧ value < 2 ^ 63) (stored value) := by
  unfold stored TaskStore.storedU64
  by_cases h : value < 2 ^ 63
  · rw [require_pos h]
    exact ⟨rfl, h⟩
  · rw [require_neg h]
    trivial

theorem transition_writes (runId : String) (meets : RunRow → Bool) (state : RunState)
    (stop : RunRow → Option StopDecision) (hmeets : ∀ row, meets row → row.state ≠ .completed)
    (hcompleted : ∀ row, meets row → state = .completed → row.cursor = row.stepCount) :
    Within Fails (Writes handed t)
      (t.transition runId meets fun row => { row with state, stop := stop row }) := by
  unfold transition
  split
  · exact .turns runId meets state stop hmeets hcompleted rfl rfl
  · exact Within.bind Within.trivially fun _ _ => trivial

theorem insertProcedureRun_writes {segment : SegmentTemplate}
    (hfirst : ∀ r ∈ t.runs, r.procedureId = segment.procedureId →
      r.procedureVersion = segment.version → r.state = .completed)
    (snapshot : SegmentSnapshot) (runId : String) :
    Within Fails (Writes handed t) (t.insertProcedureRun segment snapshot runId) := by
  apply Within.bind (stored_within _)
  rintro version ⟨rfl, hversion⟩
  apply Within.bind (stored_within _)
  rintro stepCount ⟨rfl, -⟩
  apply Within.guard
  intro hnew
  have hkept : ∀ row : RunRow, row.state = .running → (∀ r ∈ t.runs, r.runId ≠ row.runId) →
      row.runId ∉ (((((t.runs ++ [row]).filter (·.state ≠ .running)).map RunRow.runId).reverse).drop
        PROCEDURE_RUN_RETENTION) := by
    -- The new run is the only one of its id and it is running, so the retention keeps it.
    intro row hrunning hnew hmem
    have hterminal := mem_reverse.mp (mem_of_mem_drop hmem)
    obtain ⟨r, hr, hid⟩ := mem_map.mp hterminal
    obtain ⟨hr, hstate⟩ := mem_filter.mp hr
    rcases mem_append.mp hr with hr | hr
    · exact hnew r hr hid
    · rw [mem_singleton.mp hr] at hstate
      simp [hrunning] at hstate
  exact .opens _ _ rfl rfl hversion hnew (hkept _ rfl hnew) hfirst rfl rfl

/-- What a start meets: no open run of the procedure version, or the newest one. -/
theorem resumable_within (procedureId : String) (version : ℕ) :
    Within Fails (fun found => (∀ run, found = some run → ∃ row ∈ t.runs,
        row.decode = run ∧ row.procedureId = procedureId ∧ row.procedureVersion = version ∧
          row.state ≠ .completed) ∧
      (found = none → ∀ r ∈ t.runs, r.procedureId = procedureId → r.procedureVersion = version →
        r.state = .completed))
      (t.resumableProcedureRun procedureId version) := by
  apply Within.bind (stored_within _)
  rintro _ ⟨rfl, -⟩
  constructor
  · intro run hrun
    obtain ⟨row, hlast, hdecode⟩ := Option.map_eq_some_iff.mp hrun
    obtain ⟨hrow, hmeets⟩ := mem_filter.mp (mem_of_getLast? hlast)
    obtain ⟨hprocedure, hversion, hopen⟩ := of_decide_eq_true hmeets
    exact ⟨row, hrow, hdecode, hprocedure, hversion, hopen⟩
  · intro hnone r hr hprocedure hversion
    rw [Option.map_eq_none_iff, getLast?_eq_none_iff, filter_eq_nil_iff] at hnone
    by_contra hopen
    exact hnone r hr (decide_eq_true ⟨hprocedure, hversion, hopen⟩)

theorem startProcedureRun_writes (segment : SegmentTemplate) (snapshot : SegmentSnapshot)
    (openAs : RunStart) (runId : String) :
    Writes handed t (t.startProcedureRun segment snapshot openAs runId).1 := by
  unfold startProcedureRun
  split
  · exact .stays rfl rfl
  · have hresumable := t.resumable_within segment.procedureId segment.version
    split
    · exact .stays rfl rfl
    · unfold reopenProcedureRun
      split
      · exact .stays rfl rfl
      · apply Writes.turns _ _ .running (fun _ => none) _ _ rfl rfl
        · intro row hrow
          rw [of_decide_eq_true hrow]
          nofun
        · nofun
    next hnone =>
      have hfirst := (hresumable.of_ok hnone).2 rfl
      apply readBack_writes
      unfold openProcedureRun
      split <;>
      · apply Within.skip
        intro completed
        dsimp only
        split
        · trivial
        · exact insertProcedureRun_writes hfirst snapshot runId

theorem prepareProcedureStep_writes {run : ProcedureRun} (hhanded : run ∈ handed) (position : ℕ)
    (tool attemptId : String) :
    Within Fails (Writes handed t)
      (t.prepareProcedureStep run position tool attemptId) := by
  apply Within.guard
  rintro ⟨-, hposition⟩
  apply Within.bind (stored_within _)
  rintro _ ⟨rfl, -⟩
  apply Within.guard
  intro hnew
  exact .prepares run _ hhanded rfl hposition rfl hnew rfl rfl

theorem releaseUnstarted_writes (runId : String) (position : ℕ) :
    Within Fails (fun r => Writes handed t r.1)
      (t.releaseUnstartedProcedureStep runId position) := by
  apply Within.skip
  intro prepared
  split
  · exact .stays rfl rfl
  · split
    · exact .stays rfl rfl
    · apply Within.bind (stored_within _)
      rintro _ ⟨rfl, -⟩
      exact .releases runId position rfl rfl

theorem settleWrite_writes (runId : String) (step : SettledStep) :
    Within Fails (Writes handed t) (t.settleWrite runId step) := by
  apply Within.skip
  intro run
  apply Within.bind (stored_within _)
  rintro _ ⟨rfl, -⟩
  apply Within.bind (stored_within _)
  rintro _ ⟨rfl, -⟩
  apply Within.guard
  intro hprepared
  apply Within.guard
  rintro ⟨row, hrow, rfl, hcursor, hstate⟩
  rw [Within.ok_iff, ← hcursor]
  exact .settles row step hrow hstate hprepared rfl rfl

/-- What any call writes, where `handed` has the copies that the caller prepares with. -/
theorem perform_writes (t : ProcedureTables) (call : Call)
    (hheld : ∀ run position tool attemptId, call = .prepare run position tool attemptId →
      run ∈ handed) :
    Writes handed t (t.perform call).1 := by
  cases call with
  | start segment snapshot openAs runId => exact startProcedureRun_writes segment snapshot openAs runId
  | prepare run position tool attemptId =>
    apply written_writes
    have hprepares := t.prepareProcedureStep_writes (hheld run _ _ _ rfl) position tool attemptId
    cases hwrite : t.prepareProcedureStep run position tool attemptId with
    | ok t' =>
      rw [hwrite] at hprepares
      exact hprepares
    | error e => trivial
  | release runId position => exact written_writes (releaseUnstarted_writes runId position)
  | settle runId step => exact readBack_writes (settleWrite_writes runId step)
  | stop runId decision =>
    apply readBack_writes
    apply transition_writes runId _ .stopped fun _ => some decision
    · exact fun row hrow => of_decide_eq_true hrow
    · nofun
  | complete runId =>
    have hmeets : ∀ row : RunRow, decide (row.state = .running ∧ row.cursor = row.stepCount) →
        row.state = .running ∧ row.cursor = row.stepCount := fun _ h => of_decide_eq_true h
    apply readBack_writes
    apply transition_writes runId _ .completed RunRow.stop
    · intro row hrow
      rw [(hmeets row hrow).1]
      nofun
    · exact fun row hrow _ => (hmeets row hrow).2
  | read runId => exact .stays rfl rfl
  | record template => exact .evicts _ rfl rfl
  | attempt attemptId row => exact .stays rfl rfl

end ProcedureTables

/-! ## One run -/

/-- The row and the step rows of one run. -/
structure RunView where
  row : Option RunRow
  steps : List StepRow

def ProcedureTables.view (t : ProcedureTables) (runId : String) : RunView :=
  ⟨t.runRow runId, t.steps.filter (·.runId = runId)⟩

namespace RunView

def Has (v : RunView) (state : StepState) (position : ℕ) : Prop :=
  ∃ step ∈ v.steps, step.position = position ∧ step.state = state

end RunView

/-- What a call may do to one run, where the caller holds the runs `handed`. -/
inductive Moves (handed : List ProcedureRun) (runId : String) : RunView → RunView → Prop
  | stays (v : RunView) : Moves handed runId v v
  | leaves (v : RunView) : Moves handed runId v ⟨none, []⟩
  | opens {steps : List StepRow} {row : RunRow} (hid : row.runId = runId) (hcursor : row.cursor = 0)
      (hstate : row.state = .running) (hversion : row.procedureVersion < 2 ^ 63) :
      Moves handed runId ⟨none, steps⟩ ⟨some row, steps⟩
  | prepares {v : RunView} {run : ProcedureRun} {step : StepRow} (hhanded : run ∈ handed)
      (hid : run.runId = runId) (hposition : step.position = run.cursor + 1)
      (hstate : step.state = .prepared) (hnew : ∀ s ∈ v.steps, s.position ≠ step.position) :
      Moves handed runId v ⟨v.row, v.steps ++ [step]⟩
  | releases (v : RunView) (position : ℕ) :
      Moves handed runId v ⟨v.row, v.steps.filter fun step =>
        !(step.position = position ∧ step.state = .prepared)⟩
  | settles {row : RunRow} {steps : List StepRow} {step : SettledStep}
      (hstate : row.state = .running) (hprepared : RunView.Has ⟨row, steps⟩ .prepared step.position) :
      Moves handed runId ⟨some row, steps⟩ ⟨some { row with cursor := step.position },
        steps.map fun s =>
          if s.position = step.position ∧ s.state = .prepared then s.settle step else s⟩
  | turns {row : RunRow} {steps : List StepRow} {state : RunState} {stop : Option StopDecision}
      (hopen : row.state ≠ .completed)
      (hcompleted : state = .completed → row.cursor = row.stepCount) :
      Moves handed runId ⟨some row, steps⟩ ⟨some { row with state, stop }, steps⟩

namespace ProcedureTables

variable {t t' : ProcedureTables} {handed : List ProcedureRun} {id : String}

theorem view_evict (ids : List String) :
    (t.evict ids).view id = if id ∈ ids then ⟨none, []⟩ else t.view id := by
  have hrow : (t.evict ids).runRow id = if id ∈ ids then none else t.runRow id := by
    have := @rowAt_filter _ _ RunRow.runId t.runs id _ (decide <| · ∉ ids)
    by_cases h : id ∈ ids <;> simpa [runRow, evict, h] using this
  have hsteps : (t.evict ids).steps.filter (·.runId = id) =
      if id ∈ ids then [] else t.steps.filter (·.runId = id) := by
    by_cases h : id ∈ ids
    · rw [if_pos h, filter_eq_nil_iff]
      intro step hstep hid
      have := (mem_filter.mp hstep).2
      rw [decide_eq_true_iff] at hid
      simp [hid, h] at this
    · rw [if_neg h, evict, filter_filter]
      apply filter_congr
      intro step _
      by_cases hid : step.runId = id
      · simp [hid, h]
      · simp [hid]
  unfold view
  rw [hrow, hsteps]
  by_cases h : id ∈ ids <;> simp [h]

theorem updateRun_key (runId : String) (meets : RunRow → Bool) {update : RunRow → RunRow}
    (hid : ∀ row, (update row).runId = row.runId) (row : RunRow) :
    (if row.runId = runId ∧ meets row then update row else row).runId = row.runId := by
  split
  · exact hid row
  · rfl

theorem updateRun_runIds (runId : String) (meets : RunRow → Bool) {update : RunRow → RunRow}
    (hid : ∀ row, (update row).runId = row.runId) :
    (t.updateRun runId meets update).runs.map RunRow.runId = t.runs.map RunRow.runId := by
  unfold updateRun
  rw [map_map]
  exact map_congr_left fun row _ => updateRun_key runId meets hid row

theorem runRow_updateRun (runId : String) (meets : RunRow → Bool) {update : RunRow → RunRow}
    (hid : ∀ row, (update row).runId = row.runId) (id : String) :
    (t.updateRun runId meets update).runRow id =
      (t.runRow id).map fun row => if id = runId ∧ meets row then update row else row := by
  have hrow : (t.updateRun runId meets update).runRow id =
      (t.runRow id).map fun row => if row.runId = runId ∧ meets row then update row else row :=
    rowAt_map (updateRun_key runId meets hid)
  rw [hrow]
  cases h : t.runRow id with
  | none => rfl
  | some row =>
    have := key_of_rowAt h
    subst this
    rfl

theorem view_updateRun (runId : String) (meets : RunRow → Bool) (update : RunRow → RunRow)
    (hid : ∀ row, (update row).runId = row.runId) :
    (t.updateRun runId meets update).view id =
      ⟨(t.runRow id).map fun row => if id = runId ∧ meets row then update row else row,
        (t.view id).steps⟩ := by
  unfold view
  rw [runRow_updateRun runId meets hid]
  rfl

theorem view_insert {row : RunRow} (hnew : ∀ r ∈ t.runs, r.runId ≠ row.runId) :
    view { t with runs := t.runs ++ [row] } id =
      if id = row.runId then ⟨some row, (t.view id).steps⟩ else t.view id := by
  by_cases hid : id = row.runId
  · subst hid
    have : rowAt RunRow.runId (t.runs ++ [row]) row.runId = some row := rowAt_insert_self hnew
    rw [if_pos rfl, view, runRow, this]
    rfl
  · have : rowAt RunRow.runId (t.runs ++ [row]) id = t.runRow id := rowAt_insert_of_ne (Ne.symm hid)
    rw [if_neg hid, view, runRow, this]
    rfl

theorem view_dropPrepared (runId : String) (position : ℕ) :
    (t.dropPrepared runId position).view id =
      if id = runId then ⟨(t.view id).row, (t.view id).steps.filter fun step =>
        !(step.position = position ∧ step.state = .prepared)⟩
      else t.view id := by
  have hcomm : (t.dropPrepared runId position).steps.filter (·.runId = id) =
      (t.steps.filter (·.runId = id)).filter fun step =>
        !(step.runId = runId ∧ step.position = position ∧ step.state = .prepared) :=
    filter_comm _ _ _
  have hkept : ∀ step ∈ t.steps.filter (·.runId = id), step.runId = id := fun step hstep => by
    simpa using (mem_filter.mp hstep).2
  unfold view
  rw [hcomm]
  split
  next hid =>
    congr 1
    apply filter_congr
    intro step hstep
    simp [hkept step hstep, hid]
  next hid =>
    congr 1
    rw [filter_eq_self]
    intro step hstep
    simp [hkept step hstep, hid]

theorem view_markSettled (runId : String) (step : SettledStep) :
    (t.markSettled runId step).view id =
      if id = runId then ⟨(t.view id).row, (t.view id).steps.map fun s =>
        if s.position = step.position ∧ s.state = .prepared then s.settle step else s⟩
      else t.view id := by
  have hcomm : (t.markSettled runId step).steps.filter (·.runId = id) =
      (t.steps.filter (·.runId = id)).map fun row =>
        if row.runId = runId ∧ row.position = step.position ∧ row.state = .prepared then
          row.settle step
        else row := by
    unfold markSettled
    rw [filter_map]
    congr 1
    apply filter_congr
    intro row _
    dsimp only [Function.comp_apply]
    split <;> rfl
  have hkept : ∀ s ∈ t.steps.filter (·.runId = id), s.runId = id := fun s hs => by
    simpa using (mem_filter.mp hs).2
  unfold view
  rw [hcomm]
  split
  next hid =>
    congr 1
    apply map_congr_left
    intro s hs
    simp [hkept s hs, hid]
  next hid =>
    congr 1
    refine (map_congr_left fun s hs => ?_).trans (map_id _)
    simp [hkept s hs, hid]

theorem view_congr (hruns : t.runs = t'.runs) (hsteps : t.steps = t'.steps) :
    t.view id = t'.view id := by
  unfold view runRow
  rw [hruns, hsteps]

theorem view_of_runRow {row : Option RunRow} (h : t.runRow id = row) :
    t.view id = ⟨row, (t.view id).steps⟩ := by
  subst h
  rfl

end ProcedureTables

open ProcedureTables in
theorem Writes.moves {t t' : ProcedureTables} {handed : List ProcedureRun}
    (h : Writes handed t t') (hkeys : UniqueKeys RunRow.runId t.runs) (id : String) :
    Moves handed id (t.view id) (t'.view id) := by
  cases h with
  | stays hruns hsteps =>
    rw [view_congr hruns hsteps]
    exact .stays _
  | evicts ids hruns hsteps =>
    rw [view_congr hruns hsteps, view_evict]
    split
    · exact .leaves _
    · exact .stays _
  | opens row ids hcursor hstate hversion hnew hkept hfirst hruns hsteps =>
    rw [view_congr hruns hsteps, view_evict, view_insert hnew]
    by_cases hid : id = row.runId
    · have hnone : t.runRow id = none := rowAt_eq_none.mpr (hid ▸ hnew)
      rw [if_neg (hid ▸ hkept), if_pos hid, view_of_runRow hnone]
      exact .opens hid.symm hcursor hstate hversion
    · rw [if_neg hid]
      split
      · exact .leaves _
      · exact .stays _
  | prepares run step hhanded hid hposition hstate hnew hruns hsteps =>
    have hview : t'.view id =
        ⟨(t.view id).row, (t.view id).steps ++ if step.runId = id then [step] else []⟩ := by
      unfold view runRow
      rw [hruns, hsteps, filter_append]
      by_cases h : step.runId = id <;> simp [h]
    rw [hview]
    split
    next hstep =>
      refine .prepares hhanded (hid.symm.trans hstep) hposition hstate ?_
      intro s hs hsame
      obtain ⟨hs, hsid⟩ := mem_filter.mp hs
      exact hnew s hs ⟨(of_decide_eq_true hsid).trans (hstep.symm.trans hid), hsame⟩
    next =>
      rw [append_nil]
      exact .stays _
  | releases runId position hruns hsteps =>
    have hview : t'.view id = (t.dropPrepared runId position).view id := view_congr hruns hsteps
    rw [hview, view_dropPrepared]
    split
    · exact .releases _ _
    · exact .stays _
  | settles row step hrow hstate hprepared hruns hsteps =>
    have hview : t'.view id =
        ((t.markSettled row.runId step).advanceCursor row.runId row.cursor step.position).view id :=
      view_congr hruns hsteps
    -- the guard of the cursor update holds, since the row read is the row stored
    have hcurrent : t.runRow row.runId = some row := rowAt_of_mem hkeys hrow
    rw [hview, advanceCursor, view_updateRun row.runId
      (fun r => r.cursor = row.cursor ∧ r.state = .running)
      (fun r => { r with cursor := step.position }) fun _ => rfl, view_markSettled]
    by_cases hid : id = row.runId
    · subst hid
      have hmarked : (t.markSettled row.runId step).runRow row.runId = some row := hcurrent
      obtain ⟨s, hs, hsid, hposition, hs'⟩ := hprepared
      rw [hmarked, view_of_runRow hcurrent, Option.map_some, if_pos ⟨rfl, by simp [hstate]⟩,
        if_pos rfl]
      exact .settles hstate ⟨s, mem_filter.mpr ⟨hs, decide_eq_true hsid⟩, hposition, hs'⟩
    · have hmarked : (t.markSettled row.runId step).runRow id = t.runRow id := rfl
      rw [hmarked, if_neg hid]
      simp only [hid, false_and, if_false, Option.map_id']
      exact .stays _
  | turns runId meets state stop hmeets hcompleted hruns hsteps =>
    have hview : t'.view id =
        (t.updateRun runId meets fun row => { row with state, stop := stop row }).view id :=
      view_congr hruns hsteps
    rw [hview,
      view_updateRun runId meets (fun row => { row with state, stop := stop row }) fun _ => rfl]
    cases hrow : t.runRow id with
    | none =>
      rw [view_of_runRow hrow]
      exact .stays _
    | some row =>
      rw [Option.map_some, view_of_runRow hrow]
      split
      next hmet => exact .turns (hmeets row hmet.2) (hcompleted row hmet.2)
      next => exact .stays _

/-! ## All runs -/

/-- At most one run of a procedure version is open. -/
def OneOpen (runs : List RunRow) : Prop :=
  ∀ r ∈ runs, ∀ r' ∈ runs, r.state ≠ .completed → r'.state ≠ .completed →
    r.procedureId = r'.procedureId → r.procedureVersion = r'.procedureVersion → r.runId = r'.runId

theorem OneOpen.map {runs : List RunRow} (h : OneOpen runs) {f : RunRow → RunRow}
    (hf : ∀ r, (f r).runId = r.runId ∧ (f r).procedureId = r.procedureId ∧
      (f r).procedureVersion = r.procedureVersion ∧
      (r.state = .completed → (f r).state = .completed)) : OneOpen (runs.map f) := by
  intro r hr r' hr' hopen hopen' hprocedure hversion
  obtain ⟨a, ha, rfl⟩ := mem_map.mp hr
  obtain ⟨b, hb, rfl⟩ := mem_map.mp hr'
  obtain ⟨hid, hp, hv, hs⟩ := hf a
  obtain ⟨hid', hp', hv', hs'⟩ := hf b
  rw [hp, hp'] at hprocedure
  rw [hv, hv'] at hversion
  rw [hid, hid']
  exact h a ha b hb (mt hs hopen) (mt hs' hopen') hprocedure hversion

theorem OneOpen.filter {runs : List RunRow} (h : OneOpen runs) (p : RunRow → Bool) :
    OneOpen (runs.filter p) :=
  fun r hr r' hr' => h r (mem_of_mem_filter hr) r' (mem_of_mem_filter hr')

theorem OneOpen.insert {runs : List RunRow} (h : OneOpen runs) {row : RunRow}
    (hfirst : ∀ r ∈ runs, r.procedureId = row.procedureId →
      r.procedureVersion = row.procedureVersion → r.state = .completed) :
    OneOpen (runs ++ [row]) := by
  intro r hr r' hr' hopen hopen' hprocedure hversion
  rcases mem_append.mp hr with hold | hlast
  · rcases mem_append.mp hr' with hold' | hlast'
    · exact h r hold r' hold' hopen hopen' hprocedure hversion
    · rw [mem_singleton.mp hlast'] at hprocedure hversion
      exact absurd (hfirst r hold hprocedure hversion) hopen
  · rw [mem_singleton.mp hlast] at hprocedure hversion ⊢
    rcases mem_append.mp hr' with hold' | hlast'
    · exact absurd (hfirst r' hold' hprocedure.symm hversion.symm) hopen'
    · rw [mem_singleton.mp hlast']

/-- What all runs keep together. -/
structure Tidy (t : ProcedureTables) : Prop where
  keys : UniqueKeys RunRow.runId t.runs
  oneOpen : OneOpen t.runs
  versions : ∀ r ∈ t.runs, r.procedureVersion < 2 ^ 63

open ProcedureTables in
theorem Writes.tidy {t t' : ProcedureTables} {handed : List ProcedureRun}
    (h : Writes handed t t') (ht : Tidy t) : Tidy t' := by
  have hupdate : ∀ runId meets (update : RunRow → RunRow),
      (∀ r, (update r).runId = r.runId ∧ (update r).procedureId = r.procedureId ∧
        (update r).procedureVersion = r.procedureVersion) →
      (∀ r, meets r = true → r.state ≠ .completed) → Tidy (t.updateRun runId meets update) := by
    intro runId meets update hupdate hmeets
    refine ⟨ht.keys.map fun r => ?_, ht.oneOpen.map fun r => ?_, fun r hr => ?_⟩
    · split
      · exact (hupdate r).1
      · rfl
    · split
      next hmet =>
        obtain ⟨hid, hprocedure, hversion⟩ := hupdate r
        exact ⟨hid, hprocedure, hversion, fun hdone => absurd hdone (hmeets r hmet.2)⟩
      next => exact ⟨rfl, rfl, rfl, id⟩
    · obtain ⟨a, ha, rfl⟩ := mem_map.mp hr
      split
      · rw [(hupdate a).2.2]
        exact ht.versions a ha
      · exact ht.versions a ha
  have hsame : t'.runs = t.runs → Tidy t' := fun hruns =>
    ⟨hruns ▸ ht.keys, hruns ▸ ht.oneOpen, hruns ▸ ht.versions⟩
  cases h with
  | stays hruns _ => exact hsame hruns
  | evicts ids hruns _ =>
    exact ⟨hruns ▸ ht.keys.filter _, hruns ▸ ht.oneOpen.filter _,
      hruns ▸ fun r hr => ht.versions r (mem_of_mem_filter hr)⟩
  | opens row ids _ _ hversion hnew _ hfirst hruns _ =>
    refine ⟨hruns ▸ (ht.keys.insert hnew).filter _, hruns ▸ (ht.oneOpen.insert hfirst).filter _, ?_⟩
    rw [hruns]
    intro r hr
    rcases mem_append.mp (mem_of_mem_filter hr) with hold | hlast
    · exact ht.versions r hold
    · rwa [mem_singleton.mp hlast]
  | prepares _ _ _ _ _ _ _ hruns _ => exact hsame hruns
  | releases _ _ hruns _ => exact hsame hruns
  | settles row step _ _ _ hruns _ =>
    have := hupdate row.runId (fun r => r.cursor = row.cursor ∧ r.state = .running)
      (fun r => { r with cursor := step.position }) (fun _ => ⟨rfl, rfl, rfl⟩) fun r hr => by
        rw [(of_decide_eq_true hr).2]
        nofun
    exact ⟨hruns ▸ this.keys, hruns ▸ this.oneOpen, hruns ▸ this.versions⟩
  | turns runId meets state stop hmeets _ hruns _ =>
    have := hupdate runId meets (fun row => { row with state, stop := stop row })
      (fun _ => ⟨rfl, rfl, rfl⟩) hmeets
    exact ⟨hruns ▸ this.keys, hruns ▸ this.oneOpen, hruns ▸ this.versions⟩

end Rivect.Procedure
