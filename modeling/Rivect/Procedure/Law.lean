import Rivect.Procedure.Runs

/-! # No settled step is issued again

Callers hold copies of runs, current or stale, and prepare steps with them. A run that has not been
evicted has settled exactly the steps up to its cursor, and no later call settles or prepares one of
them again.
-/

namespace Rivect.Procedure

open Lib List Option

/-! ## Runs of calls -/

/-- The tables, the copies of runs that calls answered with and the runs whose row has left. -/
structure World where
  tables : ProcedureTables
  handed : List ProcedureRun
  evicted : List String

namespace World

def fresh : World := ⟨ProcedureTables.fresh, [], []⟩

/-- The copy that an answer hands out. -/
def copies : Except ProcedureError Answer → List ProcedureRun
  | .ok (.run run) => [run]
  | .ok .done | .ok (.released _) | .error _ => []

def after (w : World) (call : Call) : World :=
  let next := w.tables.perform call
  { tables := next.1
    handed := w.handed ++ copies next.2
    evicted := w.evicted ++ (w.tables.runs.map RunRow.runId).filter fun runId =>
      (next.1.runRow runId).isNone }

/-- A step is prepared with a copy that some call answered with. -/
def Holds (w : World) : Call → Prop
  | .prepare run _ _ _ => run ∈ w.handed
  | _ => True

def Step (w : World) (call : Call) (w' : World) : Prop := w.Holds call ∧ w.after call = w'

/-- The call does not refuse. -/
def Succeeds (w : World) (call : Call) : Prop := ∃ answer, (w.tables.perform call).2 = .ok answer

end World

/-! ## One run -/

/-- A run has settled its steps in order, up to its cursor, and prepares only the next one. -/
structure Lawful (row : RunRow) (steps : List StepRow) : Prop where
  settled : ∀ p, (∃ s ∈ steps, s.position = p ∧ s.state = .settled) ↔ 1 ≤ p ∧ p ≤ row.cursor
  next : ∀ s ∈ steps, s.state = .prepared → s.position = row.cursor + 1
  once : ∀ s ∈ steps, ∀ s' ∈ steps, s.position = s'.position → s = s'
  completed : row.state = .completed → row.cursor = row.stepCount

/-- What a call leaves of a run. -/
structure Advances (row row' : RunRow) (steps steps' : List StepRow) : Prop where
  cursor : row'.cursor = row.cursor ∨ row'.cursor = row.cursor + 1
  completed : row.state = .completed → row' = row
  settled : ∀ s ∈ steps, s.state = .settled → s ∈ steps'

/-- The invariant of one run, which knows the copies that callers hold. -/
inductive Ruled (handed : List ProcedureRun) (id : String) : RunView → Prop
  | absent (hcopies : ∀ run ∈ handed, run.runId ≠ id) : Ruled handed id ⟨none, []⟩
  | present {row : RunRow} {steps : List StepRow} (hlawful : Lawful row steps)
      (hcopies : ∀ run ∈ handed, run.runId = id → run.cursor ≤ row.cursor) :
      Ruled handed id ⟨some row, steps⟩

variable {handed : List ProcedureRun} {id : String} {v v' : RunView}

theorem Lawful.opened {row : RunRow} (hcursor : row.cursor = 0) (hstate : row.state = .running) :
    Lawful row [] where
  settled p := by
    constructor
    · rintro ⟨_, h, -⟩
      cases h
    · rintro ⟨hone, hle⟩
      omega
  next := nofun
  once := nofun
  completed h := by
    rw [hstate] at h
    cases h

theorem Lawful.prepare {row : RunRow} {steps : List StepRow} (h : Lawful row steps) {step : StepRow}
    (hstate : step.state = .prepared) (hcursor : step.position ≤ row.cursor + 1)
    (hpositive : 1 ≤ step.position) (hnew : ∀ s ∈ steps, s.position ≠ step.position) :
    Lawful row (steps ++ [step]) := by
  have hnext : step.position = row.cursor + 1 := by
    by_contra hne
    -- A position up to the cursor has its settled row already.
    obtain ⟨s, hs, hposition, -⟩ := (h.settled step.position).mpr ⟨hpositive, by omega⟩
    exact hnew s hs hposition
  refine ⟨fun p => ?_, fun s hs hprepared => ?_, fun s hs s' hs' heq => ?_, h.completed⟩
  · rw [← h.settled p]
    constructor
    · rintro ⟨s, hs, hp, hsettled⟩
      rcases mem_append.mp hs with hs | hs
      · exact ⟨s, hs, hp, hsettled⟩
      · rw [mem_singleton.mp hs, hstate] at hsettled
        cases hsettled
    · rintro ⟨s, hs, hp, hsettled⟩
      exact ⟨s, mem_append_left _ hs, hp, hsettled⟩
  · rcases mem_append.mp hs with hs | hs
    · exact h.next s hs hprepared
    · rw [mem_singleton.mp hs]
      exact hnext
  · rcases mem_append.mp hs with hold | hlast <;>
      rcases mem_append.mp hs' with hold' | hlast'
    · exact h.once s hold s' hold' heq
    · rw [mem_singleton.mp hlast'] at heq
      exact absurd heq (hnew s hold)
    · rw [mem_singleton.mp hlast] at heq
      exact absurd heq.symm (hnew s' hold')
    · rw [mem_singleton.mp hlast, mem_singleton.mp hlast']

theorem Lawful.release {row : RunRow} {steps : List StepRow} (h : Lawful row steps) (position : ℕ) :
    Lawful row (steps.filter fun step => !(step.position = position ∧ step.state = .prepared)) := by
  refine ⟨fun p => ?_, fun s hs => h.next s (mem_of_mem_filter hs),
    fun s hs s' hs' => h.once s (mem_of_mem_filter hs) s' (mem_of_mem_filter hs'),
    h.completed⟩
  rw [← h.settled p]
  constructor
  · rintro ⟨s, hs, hrest⟩
    exact ⟨s, mem_of_mem_filter hs, hrest⟩
  · rintro ⟨s, hs, hp, hsettled⟩
    exact ⟨s, mem_filter.mpr ⟨hs, by simp [hsettled]⟩, hp, hsettled⟩

/-- The prepared step is the next one, so settling it moves the cursor by one. -/
theorem Lawful.settle {row : RunRow} {steps : List StepRow} (h : Lawful row steps)
    {step : SettledStep} (hstate : row.state = .running)
    (hprepared : ∃ s ∈ steps, s.position = step.position ∧ s.state = .prepared) :
    step.position = row.cursor + 1 ∧
      Lawful { row with cursor := step.position } (steps.map fun s =>
        if s.position = step.position ∧ s.state = .prepared then s.settle step else s) := by
  obtain ⟨q, hq, hqposition, hqstate⟩ := hprepared
  have hnext : step.position = row.cursor + 1 := hqposition.symm.trans (h.next q hq hqstate)
  have hkept : ∀ s : StepRow, s.state = .settled →
      (if s.position = step.position ∧ s.state = .prepared then s.settle step else s) = s := by
    intro s hs
    rw [if_neg]
    rw [hs]
    simp
  refine ⟨hnext, fun p => ?_, fun _ hmem hprepared => ?_, fun s hs s' hs' heq => ?_,
    fun hdone => ?_⟩
  · dsimp only
    constructor
    · rintro ⟨_, hmem, hp, hsettled⟩
      obtain ⟨s, hs, rfl⟩ := mem_map.mp hmem
      by_cases hmet : s.position = step.position ∧ s.state = .prepared
      · rw [if_pos hmet] at hp
        have : s.position = p := hp
        omega
      · rw [if_neg hmet] at hp hsettled
        have := (h.settled p).mp ⟨s, hs, hp, hsettled⟩
        omega
    · rintro ⟨hone, hle⟩
      by_cases hlast : p = step.position
      · refine ⟨_, mem_map_of_mem hq, ?_⟩
        rw [if_pos ⟨hqposition, hqstate⟩]
        exact ⟨hqposition.trans hlast.symm, rfl⟩
      · obtain ⟨s, hs, hp, hsettled⟩ := (h.settled p).mpr ⟨hone, by omega⟩
        refine ⟨_, mem_map_of_mem hs, ?_⟩
        rw [hkept s hsettled]
        exact ⟨hp, hsettled⟩
  · obtain ⟨s, hs, rfl⟩ := mem_map.mp hmem
    by_cases hmet : s.position = step.position ∧ s.state = .prepared
    · rw [if_pos hmet] at hprepared
      cases hprepared
    · rw [if_neg hmet] at hprepared
      exact absurd ⟨(h.next s hs hprepared).trans hnext.symm, hprepared⟩ hmet
  · obtain ⟨a, ha, rfl⟩ := mem_map.mp hs
    obtain ⟨b, hb, rfl⟩ := mem_map.mp hs'
    have hposition : ∀ c : StepRow, (if c.position = step.position ∧ c.state = .prepared then
        c.settle step else c).position = c.position := by
      intro c
      split <;> rfl
    rw [hposition, hposition] at heq
    rw [h.once a ha b hb heq]
  · rw [hstate] at hdone
    cases hdone

theorem Lawful.turn {row : RunRow} {steps : List StepRow} (h : Lawful row steps) {state : RunState}
    {stop : Option StopDecision} (hcompleted : state = .completed → row.cursor = row.stepCount) :
    Lawful { row with state, stop } steps where
  settled := h.settled
  next := h.next
  once := h.once
  completed := hcompleted

/-- What a run keeps through a call, unless its row leaves. -/
theorem Ruled.moves (h : Ruled handed id v) (hmoves : Moves handed id v v')
    (hstays : v.row ≠ none → v'.row ≠ none) :
    Ruled handed id v' ∧ ∀ row, v.row = some row →
      ∃ row', v'.row = some row' ∧ Advances row row' v.steps v'.steps := by
  have hrefl : ∀ (row : RunRow) steps, Advances row row steps steps := fun _ _ =>
    ⟨.inl rfl, fun _ => rfl, fun _ hs _ => hs⟩
  cases hmoves with
  | stays => exact ⟨h, fun row hrow => ⟨row, hrow, hrefl row _⟩⟩
  | leaves =>
    cases h with
    | absent hcopies => exact ⟨.absent hcopies, nofun⟩
    | present => exact absurd rfl (hstays nofun)
  | opens hid hcursor hstate hversion =>
    cases h with
    | absent hcopies =>
      exact ⟨.present (.opened hcursor hstate) fun run hrun hid => absurd hid (hcopies run hrun),
        nofun⟩
  | @prepares _ run step hhanded hid hposition hstate hnew =>
    cases h with
    | absent hcopies => exact absurd hid (hcopies run hhanded)
    | @present row steps hlawful hcopies =>
      have hle := hcopies run hhanded hid
      have hlawful' := hlawful.prepare hstate (by omega) (by omega) hnew
      refine ⟨.present hlawful' hcopies, fun r hr => ?_⟩
      obtain rfl := some.inj hr
      exact ⟨row, rfl, .inl rfl, fun _ => rfl, fun s hs _ => mem_append_left _ hs⟩
  | releases =>
    cases h with
    | absent hcopies => exact ⟨.absent hcopies, nofun⟩
    | @present row steps hlawful hcopies =>
      refine ⟨.present (hlawful.release _) hcopies, fun r hr => ?_⟩
      obtain rfl := some.inj hr
      refine ⟨row, rfl, .inl rfl, fun _ => rfl, fun s hs hsettled => ?_⟩
      exact mem_filter.mpr ⟨hs, by simp [hsettled]⟩
  | @settles row steps step hstate hprepared =>
    cases h with
    | present hlawful hcopies =>
      obtain ⟨hnext, hlawful'⟩ := hlawful.settle hstate hprepared
      refine ⟨.present hlawful' fun run hrun hid => ?_, fun r hr => ?_⟩
      · have := hcopies run hrun hid
        dsimp only
        omega
      · obtain rfl := some.inj hr
        refine ⟨_, rfl, .inr hnext, fun hdone => ?_, fun s hs hsettled => ?_⟩
        · rw [hstate] at hdone
          cases hdone
        · refine mem_map.mpr ⟨s, hs, if_neg ?_⟩
          rw [hsettled]
          simp
  | @turns row steps state stop hopen hcompleted =>
    cases h with
    | present hlawful hcopies =>
      refine ⟨.present (hlawful.turn hcompleted) hcopies, fun r hr => ?_⟩
      obtain rfl := some.inj hr
      exact ⟨_, rfl, .inl rfl, fun hdone => absurd hdone hopen, fun s hs _ => hs⟩

/-! ## Answers -/

namespace ProcedureTables

variable {t : ProcedureTables}

theorem procedureRun_within (runId : String) :
    Within Fails (fun run => ∃ row, t.runRow run.runId = some row ∧ row.decode = run)
      (t.procedureRun runId) := by
  apply Within.look
  intro row hrow
  have hid : row.runId = runId := key_of_rowAt hrow
  refine ⟨row, ?_, rfl⟩
  change t.runRow row.runId = some row
  rw [hid, hrow]

/-- A call answers with the run as it then stands. -/
def Answers (x : ProcedureTables × Except ProcedureError ProcedureRun) : Prop :=
  Within Fails (fun run => ∃ row, x.1.runRow run.runId = some row ∧ row.decode = run) x.2

theorem readBack_answers (runId : String) (write : Except ProcedureError ProcedureTables) :
    Answers (t.readBack runId write) := by
  cases write with
  | ok t' => exact t'.procedureRun_within runId
  | error e => trivial

theorem startProcedureRun_answers (ht : Tidy t) (segment : SegmentTemplate)
    (snapshot : SegmentSnapshot) (openAs : RunStart) (runId : String) :
    Answers (t.startProcedureRun segment snapshot openAs runId) := by
  unfold startProcedureRun
  split
  · trivial
  · have hresumable := t.resumable_within segment.procedureId segment.version
    split
    · trivial
    next run hrun =>
      unfold reopenProcedureRun
      split
      · obtain ⟨row, hrow, rfl, -⟩ := (hresumable.of_ok hrun).1 run rfl
        exact ⟨row, rowAt_of_mem ht.keys hrow, rfl⟩
      · exact readBack_answers _ _
    · exact readBack_answers _ _

theorem copies_perform (ht : Tidy t) (call : Call) {run : ProcedureRun}
    (h : run ∈ World.copies (t.perform call).2) :
    ∃ row, (t.perform call).1.runRow run.runId = some row ∧ row.decode = run := by
  have hanswer : ∀ x : ProcedureTables × Except ProcedureError ProcedureRun, Answers x →
      run ∈ World.copies (x.2.map Answer.run) →
      ∃ row, x.1.runRow run.runId = some row ∧ row.decode = run := by
    rintro ⟨t', _ | run'⟩ hx hrun
    · cases hrun
    · rw [mem_singleton.mp hrun]
      exact hx
  have hwritten : ∀ {α : Type} (write : Except ProcedureError (ProcedureTables × α)) answer,
      (∀ a run, answer a ≠ Answer.run run) → run ∉ World.copies (written t write answer).2 := by
    intro α write answer hne hrun
    cases write with
    | error e => cases hrun
    | ok r =>
      change run ∈ World.copies (.ok (answer r.2)) at hrun
      cases hanswer : answer r.2 with
      | run run' => exact hne _ _ hanswer
      | done => rw [hanswer] at hrun; cases hrun
      | released _ => rw [hanswer] at hrun; cases hrun
  cases call with
  | start segment snapshot openAs runId =>
    exact hanswer _ (startProcedureRun_answers ht segment snapshot openAs runId) h
  | prepare => exact absurd h (hwritten _ _ nofun)
  | release => exact absurd h (hwritten _ _ nofun)
  | settle runId step => exact hanswer _ (readBack_answers _ _) h
  | stop runId decision => exact hanswer _ (readBack_answers _ _) h
  | complete runId => exact hanswer _ (readBack_answers _ _) h
  | read runId => exact hanswer (t, t.procedureRun runId) (t.procedureRun_within runId) h
  | record => cases h
  | attempt => cases h

theorem settle_succeeds {runId : String} {step : SettledStep} {answer : Answer}
    (h : (t.perform (.settle runId step)).2 = .ok answer) :
    (t.view runId).Has .prepared step.position ∧
      ((t.perform (.settle runId step)).1.view runId).Has .settled step.position := by
  have hwrite : Within Fails (fun t' => (t.view runId).Has .prepared step.position ∧
      (t'.view runId).Has .settled step.position) (t.settleWrite runId step) := by
    apply Within.skip
    intro run
    apply Within.bind (stored_within _)
    rintro _ ⟨rfl, -⟩
    apply Within.bind (stored_within _)
    rintro _ ⟨rfl, -⟩
    apply Within.guard
    rintro ⟨s, hs, hid, hposition, hstate⟩
    apply Within.guard
    intro _
    have hmem : s ∈ (t.view runId).steps := mem_filter.mpr ⟨hs, decide_eq_true hid⟩
    refine ⟨⟨s, hmem, hposition, hstate⟩, s.settle step, ?_, hposition, rfl⟩
    refine mem_filter.mpr ⟨mem_map.mpr ⟨s, hs, if_pos ⟨hid, hposition, hstate⟩⟩, ?_⟩
    exact decide_eq_true hid
  change (t.settleProcedureStep runId step).2.map Answer.run = .ok answer at h
  change _ ∧ ((t.settleProcedureStep runId step).1.view runId).Has .settled step.position
  unfold settleProcedureStep at h ⊢
  cases hsettle : t.settleWrite runId step with
  | ok t' => exact hwrite.of_ok hsettle
  | error e =>
    rw [hsettle] at h
    cases h

theorem prepare_succeeds {run : ProcedureRun} {position : ℕ} {tool attemptId : String}
    {answer : Answer} (h : (t.perform (.prepare run position tool attemptId)).2 = .ok answer) :
    ∀ s ∈ (t.view run.runId).steps, s.position ≠ position := by
  have hwrite : Within Fails (fun _ => ∀ s ∈ (t.view run.runId).steps,
      s.position ≠ position) (t.prepareProcedureStep run position tool attemptId) := by
    apply Within.guard
    intro _
    apply Within.bind (stored_within _)
    rintro _ ⟨rfl, -⟩
    apply Within.guard
    intro hnew s hs hposition
    obtain ⟨hs, hid⟩ := mem_filter.mp hs
    exact hnew s hs ⟨of_decide_eq_true hid, hposition⟩
  cases hprepare : t.prepareProcedureStep run position tool attemptId with
  | ok t' => exact hwrite.of_ok hprepare
  | error e =>
    change (written t ((t.prepareProcedureStep run position tool attemptId).map (·, ()))
      fun _ => Answer.done).2 = .ok answer at h
    rw [hprepare] at h
    cases h

/-- A start returns the open run of the procedure version with its cursor, and opens no other. -/
theorem start_resumes (ht : Tidy t) {segment : SegmentTemplate} {snapshot : SegmentSnapshot}
    (hprepare : segment.prepare snapshot = .ok ()) {row : RunRow} (hrow : row ∈ t.runs)
    (hprocedure : row.procedureId = segment.procedureId)
    (hversion : row.procedureVersion = segment.version) (hopen : row.state ≠ .completed)
    (openAs : RunStart) (runId : String) :
    ∃ run, (t.startProcedureRun segment snapshot openAs runId).2 = .ok run ∧
      run.runId = row.runId ∧ run.cursor = row.cursor ∧
      (t.startProcedureRun segment snapshot openAs runId).1.runs.map RunRow.runId =
        t.runs.map RunRow.runId := by
  have hresumable := t.resumable_within segment.procedureId segment.version
  unfold startProcedureRun
  rw [hprepare]
  cases hfound : t.resumableProcedureRun segment.procedureId segment.version with
  | error e =>
    -- The version of a stored row can be stored.
    unfold resumableProcedureRun stored TaskStore.storedU64 at hfound
    rw [← hversion, require_pos (ht.versions row hrow)] at hfound
    cases hfound
  | ok found =>
    have hmeets := hresumable.of_ok hfound
    cases found with
    | none => exact absurd (hmeets.2 rfl row hrow hprocedure hversion) hopen
    | some run =>
      obtain ⟨row', hrow', rfl, hprocedure', hversion', hopen'⟩ := hmeets.1 run rfl
      have hid := ht.oneOpen row' hrow' row hrow hopen' hopen (hprocedure'.trans hprocedure.symm)
        (hversion'.trans hversion.symm)
      obtain rfl : row' = row := inj_on_of_nodup_map ht.keys hrow' hrow hid
      have hcurrent : t.runRow row'.runId = some row' := rowAt_of_mem ht.keys hrow'
      dsimp only
      unfold reopenProcedureRun
      split
      · exact ⟨row'.decode, rfl, rfl, rfl, rfl⟩
      next hstopped =>
        have hstate : row'.state = .stopped := not_not.mp hstopped
        have hkeeps : ∀ row : RunRow,
            ({ row with state := .running, stop := none } : RunRow).runId = row.runId := fun _ => rfl
        have hreopened := t.runRow_updateRun row'.runId (fun row => row.state = .stopped) hkeeps
          row'.runId
        rw [hcurrent, map_some, if_pos ⟨rfl, decide_eq_true hstate⟩] at hreopened
        have hread : (t.updateRun row'.runId (fun row => row.state = .stopped) fun row =>
            { row with state := .running, stop := none }).procedureRun row'.runId =
            .ok ({ row' with state := .running, stop := none } : RunRow).decode := by
          unfold procedureRun
          rw [hreopened]
          rfl
        exact ⟨_, hread, rfl, rfl, updateRun_runIds _ _ hkeeps⟩

end ProcedureTables

/-! ## All runs -/

namespace World

variable {w w' u : World} {call : Call} {calls post : List Call}

/-- The invariant of the tables with the copies that callers hold. -/
structure Inv (w : World) : Prop where
  tidy : Tidy w.tables
  ruled : ∀ id, id ∉ w.evicted → Ruled w.handed id (w.tables.view id)

theorem fresh_inv : Inv fresh where
  tidy := ⟨nodup_nil, nofun, nofun⟩
  ruled _ _ := .absent nofun

theorem evicted_of_step (h : Step w call w') {id : String} (hid : id ∉ w'.evicted) :
    id ∉ w.evicted := by
  obtain ⟨-, rfl⟩ := h
  exact fun hmem => hid (mem_append_left _ hmem)

theorem stays_of_step (h : Step w call w') {id : String} (hid : id ∉ w'.evicted)
    (hrow : w.tables.runRow id ≠ none) : w'.tables.runRow id ≠ none := by
  obtain ⟨-, rfl⟩ := h
  obtain ⟨row, hrow⟩ := ne_none_iff_exists'.mp hrow
  intro hnone
  have hmem : id ∈ w.tables.runs.map RunRow.runId :=
    mem_map.mpr ⟨row, mem_of_rowAt hrow, key_of_rowAt hrow⟩
  exact hid (mem_append_right _ (mem_filter.mpr ⟨hmem, isNone_iff_eq_none.mpr hnone⟩))

theorem perform_moves (hw : Inv w) (h : Step w call w') (id : String) :
    Writes w.handed w.tables w'.tables ∧
      Moves w.handed id (w.tables.view id) (w'.tables.view id) := by
  obtain ⟨hheld, rfl⟩ := h
  have hwrites : Writes w.handed w.tables (w.tables.perform call).1 := by
    apply w.tables.perform_writes call
    rintro run position tool attemptId rfl
    exact hheld
  exact ⟨hwrites, hwrites.moves hw.tidy.keys id⟩

/-- What one call keeps, and what it leaves of each run that it does not evict. -/
theorem Inv.step (hw : Inv w) (h : Step w call w') :
    Inv w' ∧ ∀ id, id ∉ w'.evicted → ∀ row, w.tables.runRow id = some row →
      ∃ row', w'.tables.runRow id = some row' ∧
        Advances row row' (w.tables.view id).steps (w'.tables.view id).steps := by
  have hmoved : ∀ id, id ∉ w'.evicted → Ruled w.handed id (w'.tables.view id) ∧
      ∀ row, w.tables.runRow id = some row → ∃ row', w'.tables.runRow id = some row' ∧
        Advances row row' (w.tables.view id).steps (w'.tables.view id).steps := fun id hid =>
    (hw.ruled id (evicted_of_step h hid)).moves (perform_moves hw h id).2 (stays_of_step h hid)
  refine ⟨⟨(perform_moves hw h "").1.tidy hw.tidy, fun id hid => ?_⟩, fun id hid => (hmoved id hid).2⟩
  -- A new copy is one of the run as it stands after the call.
  have hcopies : ∀ run ∈ w'.handed, run ∈ w.handed ∨
      ∃ row, w'.tables.runRow run.runId = some row ∧ row.decode = run := by
    obtain ⟨-, rfl⟩ := h
    intro run hrun
    exact (mem_append.mp hrun).imp_right (w.tables.copies_perform hw.tidy call)
  have hruled := (hmoved id hid).1
  cases hrow : w'.tables.runRow id with
  | none =>
    rw [ProcedureTables.view_of_runRow hrow] at hruled ⊢
    generalize (w'.tables.view id).steps = steps at hruled ⊢
    cases hruled with
    | absent hold =>
      refine .absent fun run hrun hrunId => ?_
      rcases hcopies run hrun with hrun | ⟨row, hsome, -⟩
      · exact hold run hrun hrunId
      · rw [hrunId, hrow] at hsome
        cases hsome
  | some row =>
    rw [ProcedureTables.view_of_runRow hrow] at hruled ⊢
    cases hruled with
    | present hlawful hold =>
      refine .present hlawful fun run hrun hrunId => ?_
      rcases hcopies run hrun with hrun | ⟨row', hsome, rfl⟩
      · exact hold run hrun hrunId
      · rw [hrunId, hrow] at hsome
        rw [some.inj hsome]
        exact le_refl _

theorem inv_of_run (h : Run Step w calls w') (hw : Inv w) : Inv w' :=
  h.invariant (fun _ _ _ hw h => (hw.step h).1) hw

theorem evicted_of_run (h : Run Step w calls w') {id : String} (hid : id ∉ w'.evicted) :
    id ∉ w.evicted := by
  induction h with
  | nil => exact hid
  | cons hstep _ ih => exact evicted_of_step hstep (ih hid)

theorem settled_of_run (h : Run Step w calls w') (hw : Inv w) {id : String} (hid : id ∉ w'.evicted)
    {position : ℕ} (hsettled : (w.tables.view id).Has .settled position)
    (hrow : w.tables.runRow id ≠ none) : (w'.tables.view id).Has .settled position := by
  induction h with
  | nil => exact hsettled
  | cons hstep hrest ih =>
    have hid' := evicted_of_run hrest hid
    obtain ⟨row, hrow⟩ := ne_none_iff_exists'.mp hrow
    obtain ⟨row', hrow', hadvances⟩ := (hw.step hstep).2 _ hid' row hrow
    obtain ⟨s, hs, hposition, hstate⟩ := hsettled
    exact ih (hw.step hstep).1 hid ⟨s, hadvances.settled s hs hstate, hposition, hstate⟩ (by simp [hrow'])

/-- The call issues a step of the run: it settles the step or prepares it. -/
inductive Issues (id : String) (position : ℕ) : Call → Prop
  | settle {step : SettledStep} (h : step.position = position) : Issues id position (.settle id step)
  | prepare {run : ProcedureRun} (h : run.runId = id) (tool attemptId : String) :
      Issues id position (.prepare run position tool attemptId)

theorem Inv.not_issues (hw : Inv w) {id : String} (hid : id ∉ w.evicted) {position : ℕ}
    (hsettled : (w.tables.view id).Has .settled position) (hissues : Issues id position call) :
    ¬ w.Succeeds call := by
  rintro ⟨answer, hanswer⟩
  obtain ⟨s, hs, hposition, hstate⟩ := hsettled
  cases hissues with
  | settle h =>
    obtain ⟨⟨s', hs', hposition', hstate'⟩, -⟩ := ProcedureTables.settle_succeeds hanswer
    have hruled := hw.ruled id hid
    generalize w.tables.view id = v at hruled hs hs'
    cases hruled with
    | absent => cases hs
    | present hlawful =>
      have := hlawful.once s hs s' hs' (by rw [hposition, hposition', h])
      rw [this, hstate'] at hstate
      cases hstate
  | prepare h tool attemptId =>
    subst h
    exact ProcedureTables.prepare_succeeds hanswer s hs hposition

end World

open World in
/-- In every run of calls on fresh tables, and for every run that has not been evicted, the settled
steps are those up to the cursor, only the next one is prepared, the cursor moves by single steps, a
completed run is final, and no settled step is settled or prepared again. An open run is the only
one of its procedure version, and a start returns it. -/
theorem settled_never_reissued {calls : List Call} {w : World} (h : Run Step World.fresh calls w) :
    (OneOpen w.tables.runs ∧
      ∀ (segment : SegmentTemplate) (snapshot : SegmentSnapshot) (openAs : RunStart)
        (runId : String) (row : RunRow), segment.prepare snapshot = .ok () → row ∈ w.tables.runs →
        row.procedureId = segment.procedureId → row.procedureVersion = segment.version →
        row.state ≠ .completed →
        ∃ run, (w.tables.startProcedureRun segment snapshot openAs runId).2 = .ok run ∧
          run.runId = row.runId ∧ run.cursor = row.cursor ∧
          (w.tables.startProcedureRun segment snapshot openAs runId).1.runs.map RunRow.runId =
            w.tables.runs.map RunRow.runId) ∧
    ∀ id, id ∉ w.evicted →
      (∀ row, w.tables.runRow id = some row → Lawful row (w.tables.view id).steps) ∧
      ∀ pre call post u v, calls = pre ++ call :: post → Run Step World.fresh pre u →
        Step u call v → Run Step v post w →
        (∀ row, u.tables.runRow id = some row → ∃ row', v.tables.runRow id = some row' ∧
          Advances row row' (u.tables.view id).steps (v.tables.view id).steps) ∧
        ∀ step, call = .settle id step → u.Succeeds call →
          ∀ pre' call' post' a b, post = pre' ++ call' :: post' → Run Step v pre' a →
            Step a call' b → Run Step b post' w → Issues id step.position call' →
            ¬ a.Succeeds call' := by
  have hw := inv_of_run h fresh_inv
  refine ⟨⟨hw.tidy.oneOpen, fun segment snapshot openAs runId row hprepare hrow hprocedure hversion
    hopen => ProcedureTables.start_resumes hw.tidy hprepare hrow hprocedure hversion hopen openAs
      runId⟩, fun id hid => ⟨fun row hrow => ?_, ?_⟩⟩
  · have hruled := hw.ruled id hid
    rw [ProcedureTables.view_of_runRow hrow] at hruled
    cases hruled with
    | present hlawful => exact hlawful
  · rintro pre call post u v - hpre hcall hpost
    have hu := inv_of_run hpre fresh_inv
    obtain ⟨hv, hadvances⟩ := hu.step hcall
    have hidv := evicted_of_run hpost hid
    refine ⟨hadvances id hidv, ?_⟩
    rintro step rfl ⟨answer, hanswer⟩ pre' call' post' a b - hpre' hcall' hpost' hissues
    have hida : id ∉ a.evicted := evicted_of_step hcall' (evicted_of_run hpost' hid)
    have hsettled : (v.tables.view id).Has .settled step.position := by
      obtain ⟨-, rfl⟩ := hcall
      exact (ProcedureTables.settle_succeeds hanswer).2
    have hrow : v.tables.runRow id ≠ none := by
      intro hnone
      have hruled := hv.ruled id hidv
      rw [ProcedureTables.view_of_runRow hnone] at hruled
      obtain ⟨s, hs, -⟩ := hsettled
      generalize (v.tables.view id).steps = steps at hruled hs
      cases hruled
      cases hs
    exact (inv_of_run hpre' hv).not_issues hida (settled_of_run hpre' hv hida hsettled hrow) hissues

/-! ## A segment of two steps -/

def twoSteps : SegmentTemplate :=
  { procedureId := "procedure:task:1"
    version := 1
    taskId := "task"
    selectionRevision := 1
    planRevision := 1
    schemaVersion := 1
    toolVersion := "tool"
    steps := [⟨1, "plan", "planned"⟩, ⟨2, "assess", "assessed"⟩] }

def twoStepsSnapshot : SegmentSnapshot := ⟨1, 1, "tool", none⟩

def firstCopy : ProcedureRun :=
  ⟨"run", "procedure:task:1", 1, "task", twoStepsSnapshot, 0, .running, none⟩

/-- The first step settles. -/
def firstSettled : List Call :=
  [.start twoSteps twoStepsSnapshot .resume "run", .prepare firstCopy 1 "plan" "attempt",
    .settle "run" ⟨1, "plan", "attempt", "planned"⟩]

theorem firstSettled_run :
    Run World.Step World.fresh firstSettled (firstSettled.foldl World.after World.fresh) := by
  have hheld : firstCopy ∈ (World.fresh.after
      (.start twoSteps twoStepsSnapshot .resume "run")).handed := by decide
  exact .cons ⟨trivial, rfl⟩ (.cons ⟨hheld, rfl⟩ (.single ⟨trivial, rfl⟩))

/-- The run of `twoSteps` has settled the first step alone. -/
theorem firstSettled_lawful :
    ∃ row, (firstSettled.foldl World.after World.fresh).tables.runRow "run" = some row ∧
      Lawful row ((firstSettled.foldl World.after World.fresh).tables.view "run").steps :=
  ⟨_, rfl, ((settled_never_reissued firstSettled_run).2 "run" (by decide)).1 _ rfl⟩

end Rivect.Procedure
