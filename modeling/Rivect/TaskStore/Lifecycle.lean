import Rivect.TaskStore.Moves

/-! # Why a task is not running

Five tables say it together: the lifecycle, the pending questions, the plan rows, the gate hold
and the mark of the plan's own block. Each move keeps them consistent, and with it every call.
-/

namespace Rivect

open Lib List

namespace TaskView

variable {v v' : TaskView}

/-- What every reached task keeps. -/
structure Inv (v : TaskView) : Prop where
  absent : v.lifecycle = none → v.pending = [] ∧ v.selection = none ∧ v.rows = [] ∧
    v.plans = [] ∧ v.hold = none ∧ v.marked = false
  running : v.lifecycle = some .running → v.held = false ∧ v.pending = []
  marked : v.marked = true → (v.lifecycle = some .blocked ∧ v.pending = []) ∨
    v.lifecycle = some .completed ∨ v.lifecycle = some .cancelled
  hold : ∀ kind, v.hold = some kind →
    v.gate ≠ .open ∧ (kind = .unassessed ↔ v.selection = none)
  ended : v.lifecycle = some .completed ∨ v.lifecycle = some .cancelled → v.pending = []
  pending : v.pending.length ≤ 1 ∧ ∀ q ∈ v.pending, q.intentRevision = v.intent

/-- What is left of it between a write and the settlement that ends the transaction. -/
structure Loose (v : TaskView) : Prop where
  live : v.IsLive
  running : v.lifecycle = some .running → v.pending = [] ∧ v.marked = false
  marked : v.marked = true → (v.lifecycle = some .blocked ∧ v.pending = []) ∨
    v.lifecycle = some .completed ∨ v.lifecycle = some .cancelled
  pending : v.pending.length ≤ 1 ∧ ∀ q ∈ v.pending, q.intentRevision = v.intent

/-- The gate hold stands for a closed gate and names its kind. -/
def HoldSound (v : TaskView) : Prop :=
  ∀ kind, v.hold = some kind → v.gate ≠ .open ∧ (kind = .unassessed ↔ v.selection = none)

theorem gate_eq_unassessed_iff : v.gate = .unassessed ↔ v.selection = none := by
  unfold gate Rivect.gate
  cases v.selection with
  | none => simp
  | some selection =>
    dsimp only
    split <;> simp

theorem settleHold_sound (v : TaskView) : v.settleHold.HoldSound := by
  intro kind hkind
  have hgate : v.settleHold.gate = v.gate := rfl
  have hselection : v.settleHold.selection = v.selection := rfl
  have hkind : v.settledHold = some kind := hkind
  rw [hgate, hselection, ← gate_eq_unassessed_iff]
  unfold settledHold at hkind
  split at hkind
  · cases hkind
  · cases hkind
  · next hu =>
    obtain rfl := Option.some.inj hkind
    simp [hu]
  · next hu =>
    obtain rfl := Option.some.inj hkind
    simp [hu]

theorem Releases.cases (h : Releases v v') : v' = v ∨ (v.lifecycle = some .blocked ∧
    v.marked = true ∧ v.pending = [] ∧
    v' = { v with lifecycle := some .running, marked := false }) := by
  cases h with
  | stays => exact .inl rfl
  | releases hl hm hp => exact .inr ⟨hl, hm, hp, rfl⟩

theorem IsLive.present (h : v.IsLive) : v.lifecycle ≠ none := by
  obtain ⟨l, hl, -⟩ := h
  simp [hl]

theorem IsLive.not_ended (h : v.IsLive) :
    ¬ (v.lifecycle = some .completed ∨ v.lifecycle = some .cancelled) := by
  obtain ⟨l, hl, hterm⟩ := h
  rw [hl]
  rintro (h | h)
  all_goals
    obtain rfl := Option.some.inj h
    cases hterm

theorem Settles.inv (h : Settles v v') (hv : Loose v) (hhold : HoldSound v) : Inv v' := by
  cases h with
  | stays hrun =>
    exact
      { absent := fun h => absurd h hv.live.present
        running := fun h => ⟨hrun h, (hv.running h).1⟩
        marked := hv.marked
        hold := hhold
        ended := fun h => absurd h hv.live.not_ended
        pending := hv.pending }
  | blocks hl hheld =>
    exact
      { absent := by simp
        running := by simp
        marked := fun _ => .inl ⟨rfl, (hv.running hl).1⟩
        hold := hhold
        ended := by simp
        pending := hv.pending }
  | releases hl hheld hr =>
    obtain rfl | ⟨-, hm, hp, rfl⟩ := hr.cases
    · exact
        { absent := fun h => absurd h hv.live.present
          running := fun h => by simp [hl] at h
          marked := hv.marked
          hold := hhold
          ended := fun h => absurd h hv.live.not_ended
          pending := hv.pending }
    · exact
        { absent := by simp
          running := fun _ => ⟨hheld, hp⟩
          marked := by simp
          hold := hhold
          ended := by simp
          pending := hv.pending }

theorem SettlesState.inv (h : SettlesState v v') (hv : Loose v) : Inv v' :=
  Settles.inv h ⟨hv.live, hv.running, hv.marked, hv.pending⟩ (settleHold_sound v)

theorem Inv.unmarked (hv : Inv v) (h : v.lifecycle = some .running ∨ v.lifecycle = some .waiting ∨
    v.lifecycle = some .paused) : v.marked = false := by
  by_contra hm
  have := hv.marked (by simpa using hm)
  rcases h with h | h | h <;> simp [h] at this

theorem Inv.loose (hv : Inv v) (hlive : v.IsLive) : Loose v where
  live := hlive
  running h := ⟨(hv.running h).2, hv.unmarked (.inl h)⟩
  marked := hv.marked
  pending := hv.pending

theorem Loose.plan (hv : Loose v) (selection : Option PlanSelectionRecord)
    (rows : List PlanObligationRecord) (plans : List PlanRevisionRecord)
    (hold : Option PlanGateHold) :
    Loose { v with selection := selection, rows := rows, plans := plans, hold := hold } :=
  ⟨hv.live, hv.running, hv.marked, hv.pending⟩

theorem SameRows.any {rows rows' : List PlanObligationRecord} (h : SameRows rows rows')
    {p : PlanObligationRecord → Bool}
    (hp : ∀ row outcome, p { row with outcome := outcome } = p row) : rows'.any p = rows.any p := by
  obtain ⟨f, rfl⟩ := h
  rw [any_map]
  congr 1
  funext row
  exact hp row _

theorem SameRows.capabilities {rows rows' : List PlanObligationRecord} (h : SameRows rows rows')
    {p : PlanObligationRecord → Bool}
    (hp : ∀ row outcome, p { row with outcome := outcome } = p row) :
    (rows'.filter p).map PlanObligationRecord.capability =
      (rows.filter p).map PlanObligationRecord.capability := by
  obtain ⟨f, rfl⟩ := h
  rw [filter_map, map_map]
  have hcomp : (p ∘ fun row => { row with outcome := f row }) = p := funext fun row => hp row _
  rw [hcomp]
  rfl

theorem SameRows.gate_eq {rows rows' : List PlanObligationRecord} (h : SameRows rows rows')
    (selection : Option PlanSelectionRecord) (plans : List PlanRevisionRecord) :
    Rivect.gate selection rows' plans = Rivect.gate selection rows plans := by
  unfold Rivect.gate openStages
  cases selection with
  | none => rfl
  | some selection =>
    rw [h.capabilities (p := (·.isOpenStage)) fun _ _ => rfl,
      h.capabilities (p := fun row => row.applicability = .unresolved) fun _ _ => rfl,
      h.any (p := (·.requiresPlan)) fun _ _ => rfl]

theorem gate_unresolved {selection : Option PlanSelectionRecord}
    {rows : List PlanObligationRecord} {plans : List PlanRevisionRecord}
    (h : Rivect.gate selection rows plans ≠ .open) :
    Rivect.gate selection (rows.map fun row => { row with applicability := .unresolved }) plans ≠
      .open := by
  cases rows with
  | nil => exact h
  | cons row rows =>
    cases selection with
    | none => simp [Rivect.gate]
    | some selection => simp [Rivect.gate]

theorem moved_running {source : Lifecycle → Bool} {l : Option Lifecycle}
    (h : moved source .running l = some .running) :
    l = some .running ∨ ∃ a, l = some a ∧ source a = true := by
  cases l with
  | none => cases h
  | some a =>
    by_cases ha : source a = true
    · exact .inr ⟨a, rfl, ha⟩
    · left
      simpa [moved, ha] using h

theorem moved_isLive {source : Lifecycle → Bool} {l : Lifecycle} (hl : v.lifecycle = some l)
    (hterm : l.isTerminal = false) {v' : TaskView}
    (h : v'.lifecycle = moved source .running v.lifecycle) : v'.IsLive := by
  refine ⟨_, h.trans (by rw [hl]; rfl), ?_⟩
  dsimp only
  split
  · rfl
  · exact hterm

theorem Publishes.loose {q : QuestionRow} (h : Publishes q v v') (hm : v.marked = false) :
    Loose v' := by
  obtain ⟨hl, hq, rfl⟩ := h
  exact
    { live := ⟨.waiting, rfl, rfl⟩
      running := by simp
      marked := by simp [hm]
      pending := by simpa using hq }

theorem Inv.block (hv : Inv v) {l : Option Lifecycle} (hl : Blocks v.lifecycle l)
    {rows : List PlanObligationRecord} (hrows : v.rows = [] → rows = [])
    (hgate : v.gate ≠ .open → Rivect.gate v.selection rows v.plans ≠ .open) :
    Inv { v with lifecycle := l, marked := false, rows := rows } := by
  have hrunning : l ≠ some .running := by
    rcases hl with ⟨rfl, h⟩ | ⟨-, rfl⟩
    · intro hr
      exact absurd (h _ hr) (by decide)
    · simp
  have hnone : l = none → v.lifecycle = none := by
    rcases hl with ⟨rfl, -⟩ | ⟨-, rfl⟩
    · exact id
    · simp
  have hended : l = some .completed ∨ l = some .cancelled → v.pending = [] := by
    rcases hl with ⟨rfl, -⟩ | ⟨-, rfl⟩
    · exact hv.ended
    · simp
  exact
    { absent := fun h => by
        obtain ⟨h1, h2, h3, h4, h5, -⟩ := hv.absent (hnone h)
        exact ⟨h1, h2, hrows h3, h4, h5, rfl⟩
      running := fun h => absurd h hrunning
      marked := by simp
      hold := fun kind h => ⟨hgate (hv.hold kind h).1, (hv.hold kind h).2⟩
      ended := hended
      pending := hv.pending }

theorem Inv.dropsQuestions (hv : Inv v) (hlive : v.IsLive) (h : DropsQuestions v v') :
    Loose v' := by
  cases h with
  | keeps => exact hv.loose hlive
  | drops pending hsub hlt =>
    have hempty : pending = [] := by
      have := hv.pending.1
      exact length_eq_zero_iff.mp (by omega)
    subst hempty
    obtain ⟨l, hl, hterm⟩ := hlive
    exact
      { live := moved_isLive hl hterm rfl
        running := fun hr => by
          refine ⟨rfl, hv.unmarked ?_⟩
          rcases moved_running hr with h | ⟨a, ha, hwait⟩
          · exact .inl h
          · right; left
            simpa [ha] using hwait
        marked := fun hm => by
          rcases hv.marked hm with ⟨h, -⟩ | h | h <;> simp [h, moved]
        pending := by simp }

/-- The moves of a plan write. -/
def WritesPlan : Move → Prop
  | .select _ | .change | .revise _ | .assess _ | .hold => True
  | _ => False

theorem settles_of_writesPlan {m : Move} (hm : WritesPlan m) (h : Step m v v') :
    v.IsLive ∧ ∃ v1 selection rows plans hold, DropsQuestions v v1 ∧ SettlesState
      { v1 with selection := selection, rows := rows, plans := plans, hold := hold } v' := by
  cases m with
  | select =>
    obtain ⟨hlive, v1, selection, rows, hdrop, -, -, -, hset⟩ := h
    exact ⟨hlive, v1, _, _, _, _, hdrop, hset⟩
  | change =>
    obtain ⟨hlive, rows, hset⟩ := h
    exact ⟨hlive, v, _, _, _, _, .keeps v, hset⟩
  | revise =>
    obtain ⟨hlive, -, rows, hset⟩ := h
    exact ⟨hlive, v, _, _, _, _, .keeps v, hset⟩
  | assess =>
    obtain ⟨hlive, -, -, rows, hset⟩ := h
    exact ⟨hlive, v, _, _, _, _, .keeps v, hset⟩
  | hold =>
    obtain ⟨hlive, hold, -, hset⟩ := h
    exact ⟨hlive, v, _, _, _, _, .keeps v, hset⟩
  | _ => exact hm.elim

theorem Inv.step (hv : Inv v) {m : Move} (h : Step m v v') : Inv v' := by
  cases m with
  | stay => rwa [show v' = v from h]
  | create =>
    obtain ⟨hl, rfl⟩ := h
    obtain ⟨hpending, hselection, hrows, hplans, hhold, hmarked⟩ := hv.absent hl
    exact
      { absent := by simp
        running := fun _ => ⟨by simp [held, hhold, hrows], hpending⟩
        marked := by simp [hmarked]
        hold := hv.hold
        ended := by simp
        pending := by simp [hpending] }
  | publish question =>
    obtain ⟨q, hpub⟩ := h
    have hm := hv.unmarked (hpub.1.imp_right .inl)
    obtain ⟨hl, hq, rfl⟩ := hpub
    exact
      { absent := by simp
        running := by simp
        marked := by simp [hm]
        hold := hv.hold
        ended := by simp
        pending := by simpa using hq }
  | fork question update =>
    -- an owned block may be released first; the plan settles after the publication
    obtain ⟨hlive, v1, q, rows, v2, hrel, hpub, hset⟩ := h
    apply hset.inv
    apply hpub.loose
    rcases hrel.cases with rfl | ⟨-, -, -, rfl⟩
    · exact hv.unmarked (hpub.1.imp_right .inl)
    · rfl
  | answer questionId =>
    obtain ⟨hlive, q, hq, hid, rows, hrows, hset⟩ := h
    -- the question answered was the only one pending
    have hnone : v.pending.filter (·.questionId ≠ questionId) = [] := by
      obtain ⟨p, hp⟩ := length_eq_one_iff.mp
        (Nat.le_antisymm hv.pending.1 (length_pos_of_mem hq))
      rw [hp] at hq ⊢
      simp [mem_singleton.mp hq ▸ hid]
    -- a marked task has no question pending or has ended, and this one lives and has one
    have hmarked : v.marked = false := by
      by_contra hm
      rcases hv.marked (by simpa using hm) with ⟨-, hp⟩ | h | h
      · simp [hp] at hq
      · obtain ⟨l, hl, hterm⟩ := hlive
        simp [h] at hl
        simp [← hl, Lifecycle.isTerminal] at hterm
      · obtain ⟨l, hl, hterm⟩ := hlive
        simp [h] at hl
        simp [← hl, Lifecycle.isTerminal] at hterm
    apply hset.inv
    · exact
        { live := ⟨.running, rfl, rfl⟩
          running := fun _ => ⟨hnone, hmarked⟩
          marked := by simp [hmarked]
          pending := by
            rw [hnone]
            simp }
    · intro kind hkind
      have := hv.hold kind hkind
      rw [gate, hrows.gate_eq]
      exact this
  | steer =>
    obtain ⟨hlive, hset⟩ := h
    -- every pending question pins the intent that the steer replaces
    have hnone : v.pending.filter (·.intentRevision = v.intent + 1) = [] := by
      rw [filter_eq_nil_iff]
      intro q hq
      simp [hv.pending.2 q hq]
    apply hset.inv
    · obtain ⟨l, hl, hterm⟩ := hlive
      exact
        { live := moved_isLive hl hterm rfl
          running := fun hr => by
            refine ⟨hnone, hv.unmarked ?_⟩
            rcases moved_running hr with h | ⟨a, ha, hwait⟩
            · exact .inl h
            · right
              simpa [ha] using hwait
          marked := fun hm => by
            rcases hv.marked hm with ⟨h, -⟩ | h | h <;> simp [h, moved, hnone]
          pending := by simp [hnone] }
    · exact hv.hold
  | finish lifecycle =>
    obtain ⟨hterm, -, rfl⟩ := h
    exact
      { absent := by simp
        running := fun h => by
          obtain rfl := Option.some.inj h
          cases hterm
        marked := fun _ => by
          right
          cases lifecycle <;> simp_all [Lifecycle.isTerminal]
        hold := hv.hold
        ended := fun _ => rfl
        pending := by simp }
  | pause =>
    obtain ⟨hl, rfl⟩ := h
    exact
      { absent := by simp
        running := by simp
        marked := by simp [hv.unmarked (hl.imp_right .inl)]
        hold := hv.hold
        ended := by simp
        pending := hv.pending }
  | wait =>
    obtain ⟨hl, rfl⟩ := h
    exact
      { absent := by simp
        running := by simp
        marked := by simp [hv.unmarked (.inl hl)]
        hold := hv.hold
        ended := by simp
        pending := hv.pending }
  | block =>
    obtain ⟨l, hl, rfl⟩ := h
    exact hv.block hl id id
  | unresolve =>
    obtain ⟨l, hl, rfl⟩ := h
    exact hv.block hl (by simp +contextual) gate_unresolved
  | select | change | revise | assess | hold =>
    obtain ⟨hlive, v1, _, _, _, _, hdrop, hset⟩ := settles_of_writesPlan (by trivial) h
    exact hset.inv ((hv.dropsQuestions hlive hdrop).plan _ _ _ _)

/-- No settlement releases a block that the plan did not make. -/
theorem Settles.not_running (h : Settles v v') (hl : v.lifecycle ≠ some .running)
    (hm : v.marked = false) : v'.lifecycle ≠ some .running := by
  cases h with
  | stays => exact hl
  | blocks hrun => exact absurd hrun hl
  | releases _ _ hr =>
    obtain rfl | ⟨-, hmarked, -⟩ := hr.cases
    · exact hl
    · simp [hm] at hmarked

theorem DropsQuestions.blocked (h : DropsQuestions v v') (hl : v.lifecycle = some .blocked) :
    v'.lifecycle = some .blocked ∧ v'.marked = v.marked := by
  cases h with
  | keeps => exact ⟨hl, rfl⟩
  | drops => simp [hl, moved]

end TaskView

namespace TaskStore

open TaskView

variable {s s' : TaskStore}

/-- The calls that write the plan tables of an existing task. -/
def Op.isPlanWrite : Op → Bool
  | .recordPlanSelection .. | .updatePlanRow .. | .recordPlanRevision ..
  | .recordPlanAssessment .. | .holdForPlanGate .. | .markPlanApplicabilityUnresolved .. => true
  | _ => false

theorem fresh_inv (taskId : TaskId) : (fresh.view taskId).Inv where
  absent _ := ⟨rfl, rfl, rfl, rfl, rfl, rfl⟩
  running h := by cases h
  marked h := by cases h
  hold _ h := by cases h
  ended h := by rcases h with h | h <;> cases h
  pending := by simp [view, pendingOf, fresh, QuestionTable.empty]

theorem perform_inv (op : Op) (taskId : TaskId) (h : (s.view taskId).Inv) :
    ((s.perform op).1.view taskId).Inv := by
  obtain ⟨m, -, hstep⟩ := perform_moves s op taskId
  exact h.step hstep

theorem inv_of_run {ops : List Op} (h : Run Performs fresh ops s) (taskId : TaskId) :
    (s.view taskId).Inv := by
  apply h.invariant (I := fun s => (s.view taskId).Inv) _ (fresh_inv taskId)
  rintro s op _ hs rfl
  exact perform_inv op taskId hs

theorem planWrite_keeps_block {op : Op} (hop : op.isPlanWrite = true) (taskId : TaskId)
    (hl : s.lifecycleOf taskId = some .blocked) (hm : s.planBlocks taskId = false) :
    (s.perform op).1.lifecycleOf taskId ≠ some .running := by
  obtain ⟨m, hmakes, hstep⟩ := perform_moves s op taskId
  have hl : (s.view taskId).lifecycle = some .blocked := hl
  have hm : (s.view taskId).marked = false := hm
  change ((s.perform op).1.view taskId).lifecycle ≠ some .running
  cases m with
  | stay =>
    rw [show _ = _ from hstep, hl]
    simp
  | select | change | revise | assess | hold =>
    obtain ⟨-, v1, _, _, _, _, hdrop, hset⟩ := settles_of_writesPlan (by trivial) hstep
    obtain ⟨hl1, hm1⟩ := hdrop.blocked hl
    exact Settles.not_running hset (by simp [settleHold, hl1]) (hm1.trans hm)
  | _ => cases op <;> first | exact False.elim hmakes | exact absurd hop Bool.false_ne_true

/-- The state that the calls lead to from a new store. -/
def after (ops : List Op) : TaskStore := ops.foldl (fun s op => (s.perform op).1) fresh

theorem run_after (ops : List Op) : Run Performs fresh ops (after ops) :=
  Run.of_foldl (fun (s : TaskStore) (op : Op) => (s.perform op).1) fresh ops

/-- A task without criteria. -/
def created : Op :=
  .createTask ⟨"task"⟩ (fun _ => "criterion") "create"
    ⟨⟨"session"⟩, "operator", "goal", [], []⟩

/-- What the five tables say of one task. -/
structure PlanLifecycle (s : TaskStore) (taskId : TaskId) : Prop where
  running : s.lifecycleOf taskId = some .running →
    s.planGateHolds taskId = none ∧
      ∀ row ∈ s.planObligations taskId, row.holdsLifecycle = false
  marked : s.planBlocks taskId = true → s.lifecycleOf taskId = some .blocked ∨
    s.lifecycleOf taskId = some .completed ∨ s.lifecycleOf taskId = some .cancelled
  hold : ∀ kind, s.planGateHolds taskId = some kind →
    s.gateOn taskId ≠ .open ∧ (kind = .unassessed ↔ s.planSelections taskId = none)

/-- In every reached state, and of every task: a running task is not held, a task the plan
blocked is blocked or has ended, a hold stands for a closed gate of its kind, and no plan write
sets a foreign block running. -/
theorem plan_lifecycle {ops : List Op} (h : Run Performs fresh ops s) (taskId : TaskId) :
    PlanLifecycle s taskId ∧
      ∀ op : Op, op.isPlanWrite = true → s.lifecycleOf taskId = some .blocked →
        s.planBlocks taskId = false → (s.perform op).1.lifecycleOf taskId ≠ some .running := by
  have hinv := inv_of_run h taskId
  refine ⟨⟨fun hl => ?_, fun hm => ?_, hinv.hold⟩, fun op hop => planWrite_keeps_block hop taskId⟩
  · have hheld := (hinv.running hl).1
    simpa [held, view] using hheld
  · rcases hinv.marked hm with ⟨h, -⟩ | h | h
    · exact .inl h
    · exact .inr (.inl h)
    · exact .inr (.inr h)

/-- A refused effect on a task without a selection: the plan blocks it. -/
theorem plan_lifecycle_held :
    (after [created, .holdForPlanGate ⟨"task"⟩ .paused]).planGateHolds ⟨"task"⟩ =
        some .unassessed ∧
      (after [created, .holdForPlanGate ⟨"task"⟩ .paused]).lifecycleOf ⟨"task"⟩ = some .blocked ∧
      PlanLifecycle (after [created, .holdForPlanGate ⟨"task"⟩ .paused]) ⟨"task"⟩ :=
  ⟨rfl, rfl, (plan_lifecycle (run_after _) _).1⟩

end TaskStore

end Rivect
