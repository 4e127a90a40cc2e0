import Rivect.TaskStore.Blockers
import Rivect.TaskStore.Pause
import Rivect.TaskStore.Planned

/-! # A wait that nothing ends

A waiting task without a pending question and without a blocker of its plan lists no blocker. The
calls that leave a task there are a refused completion of a running task and a plan write on a task
that waits for its plan alone.
-/

namespace Rivect

open Lib List

/-- The blocker waits on a question. -/
def Blocker.IsDecision (blocker : Blocker) : Prop :=
  ∃ questionId revision, blocker.condition = .decision questionId revision

namespace TaskView

def planBlockers (v : TaskView) : List Blocker :=
  v.rows.filterMap PlanObligationRecord.projected ++ v.hold.toList.map PlanGateHold.blocker

/-- The task waits, no question is pending, and the plan projects nothing but forks. -/
structure Stranded (v : TaskView) : Prop where
  waiting : v.lifecycle = some .waiting
  unasked : v.pending = []
  unplanned : ∀ b ∈ v.planBlockers, b.IsDecision

end TaskView

namespace TaskStore

open TaskView

variable {s s' : TaskStore} {taskId : TaskId} {v v' : TaskView}

/-! ## What a snapshot lists -/

/-- The blocker is a pending question's, or one of the plan. -/
def Meetable (s : TaskStore) (taskId : TaskId) (blocker : Blocker) : Prop :=
  (∃ q ∈ s.pendingOf taskId, blocker.condition = .decision q.questionId q.revision) ∨
    blocker ∈ s.planBlockers taskId

/-- A task that waits, is blocked or is paused lists a blocker, and a waiting one that can still be
met. -/
def NamesBlocker (s : TaskStore) (taskId : TaskId) : Prop :=
  ∀ lifecycle, s.lifecycleOf taskId = some lifecycle → lifecycle.projectsPlan = true →
    ∃ blockers, s.blockersInTx taskId = .ok (some blockers) ∧ blockers ≠ [] ∧
      (lifecycle = .waiting → ∃ b ∈ blockers, s.Meetable taskId b)

theorem shows_of_not_decision {pending : Option QuestionRow} {listed : List Blocker}
    {blocker : Blocker} (h : ¬ blocker.IsDecision) : Shows pending listed blocker :=
  fun questionId revision hcondition => absurd ⟨questionId, revision, hcondition⟩ h

theorem mem_extendPlanBlockers {pending : Option QuestionRow} {blockers plan : List Blocker}
    {b : Blocker} (hb : b ∈ blockers ∨ (b ∈ plan ∧ ¬ b.IsDecision)) :
    b ∈ extendPlanBlockers blockers plan pending := by
  induction plan generalizing blockers with
  | nil => exact hb.resolve_right fun h => absurd h.1 not_mem_nil
  | cons blocker plan ih =>
    by_cases hshows : Shows pending blockers blocker
    · rw [extendPlanBlockers_shown hshows]
      apply ih
      rcases hb with hb | ⟨hb, hdecision⟩
      · exact Or.inl (mem_append_left _ hb)
      · rcases mem_cons.mp hb with rfl | hb
        · exact Or.inl (mem_append_right _ mem_cons_self)
        · exact Or.inr ⟨hb, hdecision⟩
    · rw [extendPlanBlockers_hidden hshows]
      refine ih (hb.imp_right fun ⟨hb, hdecision⟩ => ⟨?_, hdecision⟩)
      rcases mem_cons.mp hb with rfl | hb
      · exact absurd (shows_of_not_decision hdecision) hshows
      · exact hb

/-- Without a pending question, a plan of forks adds nothing. -/
theorem extendPlanBlockers_forks {blockers plan : List Blocker} (h : ∀ b ∈ plan, b.IsDecision) :
    extendPlanBlockers blockers plan none = blockers := by
  induction plan with
  | nil => rfl
  | cons blocker plan ih =>
    obtain ⟨⟨questionId, revision, hcondition⟩, hplan⟩ := forall_mem_cons.mp h
    rw [extendPlanBlockers_hidden, ih hplan]
    intro hshows
    obtain ⟨⟨q, hq, -⟩, -⟩ := hshows questionId revision hcondition
    cases hq

theorem blockersInTx_eq {lifecycle : Lifecycle} (h : s.lifecycleOf taskId = some lifecycle) :
    s.blockersInTx taskId = .ok (s.blockersOf taskId lifecycle) := by
  obtain ⟨row, hrow, hlifecycle⟩ := lifecycleOf_eq_some.mp h
  rw [blockersInTx, hrow, found_some, ok_bind, hlifecycle]

/-- A block that nothing else explains still lists a blocker. -/
theorem blockersOf_blocked (s : TaskStore) (taskId : TaskId) :
    ∃ blockers, s.blockersOf taskId .blocked = some blockers ∧ blockers ≠ [] := by
  by_cases hempty : s.withPlan taskId .blocked = []
  · refine ⟨[noReadyActionBlocker], ?_, cons_ne_nil _ _⟩
    simp only [blockersOf, hempty]
    rfl
  · refine ⟨s.withPlan taskId .blocked, ?_, hempty⟩
    rw [blockersOf, if_neg fun h => hempty h.2, present_ne_nil hempty]

theorem withPlan_waiting (s : TaskStore) (taskId : TaskId) :
    s.withPlan taskId .waiting =
      extendPlanBlockers ((s.pendingQuestion taskId).toList.map decisionBlocker)
        (s.planBlockers taskId) (s.pendingQuestion taskId) := rfl

theorem namesBlocker_iff : s.NamesBlocker taskId ↔ ¬ (s.view taskId).Stranded := by
  constructor
  · rintro h ⟨hwaiting, hunasked, hunplanned⟩
    obtain ⟨blockers, hblockers, -⟩ := h .waiting hwaiting rfl
    have hpending : s.pendingQuestion taskId = none := by
      have hnone : s.pendingOf taskId = [] := hunasked
      rw [pendingQuestion, hnone]
      rfl
    have hlisted : s.withPlan taskId .waiting = [] := by
      rw [withPlan_waiting, hpending]
      exact extendPlanBlockers_forks hunplanned
    rw [blockersInTx_eq hwaiting, blockersOf, hlisted] at hblockers
    cases hblockers
  · intro h lifecycle hlifecycle hprojects
    rw [blockersInTx_eq hlifecycle]
    cases lifecycle with
    | running => cases hprojects
    | completed => cases hprojects
    | cancelled => cases hprojects
    | paused =>
      rw [blockersOf_paused]
      exact ⟨_, rfl, cons_ne_nil _ _, fun h => by cases h⟩
    | blocked =>
      obtain ⟨blockers, hblockers, hne⟩ := s.blockersOf_blocked taskId
      exact ⟨blockers, congrArg _ hblockers, hne, fun h => by cases h⟩
    | waiting =>
      have hmember : ∃ b ∈ s.withPlan taskId .waiting, s.Meetable taskId b := by
        rw [withPlan_waiting]
        by_cases hunasked : s.pendingOf taskId = []
        · by_contra hnone
          refine h ⟨hlifecycle, hunasked, fun b hb => ?_⟩
          by_contra hdecision
          exact hnone ⟨b, mem_extendPlanBlockers (Or.inr ⟨hb, hdecision⟩), Or.inr hb⟩
        · obtain ⟨r, hr⟩ := exists_mem_of_ne_nil _ hunasked
          have hne : s.pendingQuestion taskId ≠ none := latestBy_ne_none hr
          obtain ⟨q, hq⟩ := Option.ne_none_iff_exists'.mp hne
          refine ⟨decisionBlocker q, mem_extendPlanBlockers (Or.inl ?_),
            Or.inl ⟨q, pendingQuestion_mem hq, rfl⟩⟩
          rw [hq]
          exact mem_singleton.mpr rfl
      obtain ⟨b, hb, hmeetable⟩ := hmember
      have hne : s.withPlan taskId .waiting ≠ [] := ne_nil_of_mem hb
      refine ⟨s.withPlan taskId .waiting, ?_, hne, fun _ => ⟨b, hb, hmeetable⟩⟩
      rw [blockersOf, if_neg (by simp), present_ne_nil hne]

/-! ## The calls that strand a task -/

/-- A completion is refused for what is still open. -/
def CompletionOpen (s : TaskStore) (taskId : TaskId) : Prop :=
  0 < (s.completionCounts taskId).1 ∨ 0 < (s.completionCounts taskId).2.1 ∨
    0 < (s.completionCounts taskId).2.2

def PlanForks (s : TaskStore) (taskId : TaskId) : Prop :=
  ∀ b ∈ s.planBlockers taskId, b.IsDecision

/-- A refused completion of a running task whose plan projects nothing but forks, or a plan write on
a task that waits without a question where the tables before it leave nothing else of the plan. -/
def Strands (s : TaskStore) (op : Op) (taskId : TaskId) : Prop :=
  ((∃ sessionId, op = .completeIfEligible sessionId taskId) ∧
      s.lifecycleOf taskId = some .running ∧ s.CompletionOpen taskId ∧ s.PlanForks taskId) ∨
    (op.writesPlan taskId ∧ s.Idles taskId ∧
      ∃ v ∈ s.planFor taskId op, ∀ b ∈ v.settleHold.planBlockers, b.IsDecision)

theorem settles_to_waiting (h : Settles v v') (hl : v'.lifecycle = some .waiting) : v' = v := by
  cases h with
  | blocks => cases hl
  | releases hblocked _ hr =>
    obtain rfl | ⟨-, -, -, rfl⟩ := hr.cases
    · rfl
    · cases hl
  | stays => rfl

theorem settles_from_waiting (h : Settles v v') (hl : v.lifecycle = some .waiting) : v' = v := by
  cases h with
  | blocks hrun => exact absurd (hl.symm.trans hrun) nofun
  | releases hblocked => exact absurd (hl.symm.trans hblocked) nofun
  | stays => rfl

theorem not_waiting_of_moved {source : Lifecycle → Bool} {l : Option Lifecycle}
    (hsource : source .waiting = true) : moved source .running l ≠ some .waiting := by
  cases l with
  | none =>
    intro h
    cases h
  | some l =>
    simp only [moved, Option.map_some, ne_eq, Option.some.injEq]
    split
    · intro h
      cases h
    · rename_i h
      rintro rfl
      exact h hsource

theorem not_waiting_of_blocks {l l' : Option Lifecycle} (h : Blocks l l') :
    l' ≠ some .waiting := by
  rintro rfl
  rcases h with ⟨rfl, hterminal⟩ | ⟨-, h⟩
  · cases hterminal _ rfl
  · cases h

/-- A task reaches the stranded wait from a refused completion or from the same wait. -/
theorem stranded_of_step {m : Move} (hstep : Step m v v') (hv : ¬ v.Stranded)
    (hv' : v'.Stranded) :
    m = .wait ∨ (WritesPlan m ∧ v.lifecycle = some .waiting ∧ v.pending = []) := by
  obtain ⟨hwaiting, hunasked, hunplanned⟩ := hv'
  cases m with
  | stay =>
    obtain rfl : v' = v := hstep
    exact absurd ⟨hwaiting, hunasked, hunplanned⟩ hv
  | create =>
    obtain ⟨-, rfl⟩ := hstep
    cases hwaiting
  | publish question =>
    obtain ⟨q, -, -, rfl⟩ := hstep
    cases hunasked
  | fork question update =>
    obtain ⟨-, v1, q, rows, v2, -, ⟨-, -, rfl⟩, hset⟩ := hstep
    obtain rfl := settles_to_waiting hset hwaiting
    cases hunasked
  | answer questionId =>
    obtain ⟨-, q, -, -, rows, -, hset⟩ := hstep
    obtain rfl := settles_to_waiting hset hwaiting
    cases hwaiting
  | steer =>
    obtain ⟨-, hset⟩ := hstep
    obtain rfl := settles_to_waiting hset hwaiting
    exact absurd hwaiting (not_waiting_of_moved (by simp))
  | finish lifecycle =>
    obtain ⟨hterminal, -, rfl⟩ := hstep
    obtain rfl : lifecycle = .waiting := Option.some.inj hwaiting
    cases hterminal
  | pause =>
    obtain ⟨-, rfl⟩ := hstep
    cases hwaiting
  | wait => exact Or.inl rfl
  | block =>
    obtain ⟨l, hblocks, rfl⟩ := hstep
    exact absurd hwaiting (not_waiting_of_blocks hblocks)
  | unresolve =>
    obtain ⟨l, hblocks, rfl⟩ := hstep
    exact absurd hwaiting (not_waiting_of_blocks hblocks)
  | select | change | revise | assess | hold =>
    obtain ⟨-, v1, _, _, _, _, hdrops, hset⟩ := settles_of_writesPlan (by trivial) hstep
    obtain rfl := settles_to_waiting hset hwaiting
    cases hdrops with
    | keeps => exact Or.inr ⟨trivial, hwaiting, hunasked⟩
    | drops => exact absurd hwaiting (not_waiting_of_moved (by simp))

theorem waits_of_writesPlan {m : Move} (hm : WritesPlan m) (hstep : Step m v v')
    (hl : v.lifecycle = some .waiting) (hp : v.pending = []) :
    v'.lifecycle = some .waiting ∧ v'.pending = [] := by
  obtain ⟨-, v1, _, _, _, _, hdrops, hset⟩ := settles_of_writesPlan hm hstep
  cases hdrops with
  | keeps =>
    obtain rfl := settles_from_waiting hset hl
    exact ⟨hl, hp⟩
  | drops pending _ hfewer =>
    rw [hp] at hfewer
    exact absurd hfewer (Nat.not_lt_zero _)

theorem writesPlan_of_makes {op : Op} {m : Move} (hop : op.makes taskId m) (hm : WritesPlan m) :
    op.writesPlan taskId := by
  cases op <;> cases m <;> first | exact hop.1 | exact hop | exact hop.elim | exact hm.elim

theorem writesPlan_cases {op : Op} {m : Move} (hwrites : op.writesPlan taskId)
    (hop : op.makes taskId m) : m = .stay ∨ WritesPlan m := by
  cases op <;> cases m <;>
    first | exact Or.inl rfl | exact Or.inr trivial | exact hop.elim | exact hwrites.elim

/-! ## The refused completion -/

/-- A refused completion leaves a running task waiting, with the questions and the plan it had. -/
theorem view_of_refused {sessionId : SessionId} (hl : s.lifecycleOf taskId = some .running)
    (hopen : s.CompletionOpen taskId) :
    (s.completeIfEligible sessionId taskId).1.view taskId =
      { s.view taskId with lifecycle := some .waiting } := by
  obtain ⟨task, htask, hrunning⟩ := lifecycleOf_eq_some.mp hl
  have hrefused : (s.completeIfEligible sessionId taskId).1 = s.pauseRunningTask taskId := by
    simp only [completeIfEligible, htask, hrunning]
    rw [if_neg (by decide), if_pos (show _ ∨ _ ∨ _ from hopen)]
  rw [hrefused]
  refine (flipTask_changes .running .waiting).2.trans ?_
  rw [view_lifecycle htask hrunning]
  rfl

theorem completionOpen_of_wait {sessionId : SessionId}
    (hstep : Step .wait (s.view taskId) ((s.completeIfEligible sessionId taskId).1.view taskId)) :
    s.lifecycleOf taskId = some .running ∧ s.CompletionOpen taskId := by
  obtain ⟨hl, hview⟩ := hstep
  refine ⟨hl, ?_⟩
  by_contra hclosed
  obtain ⟨task, htask, hrunning⟩ := lifecycleOf_eq_some.mp hl
  have hlive : task.lifecycle.isTerminal = false := by
    rw [hrunning]
    rfl
  have hwaiting := congrArg TaskView.lifecycle hview
  have hcompletes := completeTask_changes sessionId htask hlive
  simp only [completeIfEligible, htask] at hwaiting
  rw [if_neg (by simp [hlive]), if_neg (show ¬ (_ ∨ _ ∨ _) from hclosed)] at hwaiting
  split at hwaiting
  · next s' hok =>
    rw [hok] at hcompletes
    obtain ⟨-, -, -, hended⟩ := hcompletes
    rw [hended] at hwaiting
    cases hwaiting
  · rw [hl] at hwaiting
    cases hwaiting

/-- A call strands a task exactly where it should not be made. -/
theorem stranded_iff {op : Op} (hinv : (s.view taskId).Inv) (hv : ¬ (s.view taskId).Stranded) :
    ((s.perform op).1.view taskId).Stranded ↔ s.Strands op taskId := by
  obtain ⟨m, hop, hstep⟩ := perform_moves s op taskId
  constructor
  · intro hv'
    rcases stranded_of_step hstep hv hv' with rfl | ⟨hm, hl, hp⟩
    · left
      cases op with
      | completeIfEligible sessionId t =>
        obtain rfl : t = taskId := hop
        obtain ⟨hl, hopen⟩ := completionOpen_of_wait hstep
        refine ⟨⟨sessionId, rfl⟩, hl, hopen, ?_⟩
        have hunplanned := hv'.unplanned
        rw [show (s.perform (.completeIfEligible sessionId t)).1.view t = _ from hstep.2]
          at hunplanned
        exact hunplanned
      | _ => exact hop.elim
    · have hwrites := writesPlan_of_makes hop hm
      have hview := perform_idle hwrites ⟨hl, hp⟩
      refine .inr ⟨hwrites, ⟨hl, hp⟩, ?_⟩
      cases hplan : s.planFor taskId op with
      | none =>
        rw [hview, hplan] at hv'
        exact absurd hv' hv
      | some v =>
        rw [hview, hplan] at hv'
        exact ⟨v, rfl, hv'.unplanned⟩
  · rintro (⟨⟨sessionId, rfl⟩, hl, hopen, hforks⟩ | ⟨hwrites, hidles, v, hplan, hforks⟩)
    · have hview : (s.perform (.completeIfEligible sessionId taskId)).1.view taskId = _ :=
        view_of_refused hl hopen
      rw [hview]
      exact ⟨rfl, (hinv.running hl).2, hforks⟩
    · have hwaits : ((s.perform op).1.view taskId).lifecycle = some .waiting ∧
          ((s.perform op).1.view taskId).pending = [] := by
        rcases writesPlan_cases hwrites hop with rfl | hm
        · have hview : (s.perform op).1.view taskId = s.view taskId := hstep
          rw [hview]
          exact ⟨hidles.waiting, hidles.unasked⟩
        · exact waits_of_writesPlan hm hstep hidles.waiting hidles.unasked
      refine ⟨hwaits.1, hwaits.2, ?_⟩
      rw [perform_idle hwrites hidles, hplan]
      exact hforks

/-! ## Whole runs -/

theorem not_stranded_fresh : ¬ (fresh.view taskId).Stranded := by
  intro h
  cases h.waiting

/-- In every state of a run every task names its blocker exactly if no call of the run strands
a task. -/
theorem waits_name_blockers (ops : List Op) :
    (∀ pre, pre <+: ops → ∀ taskId, (after pre).NamesBlocker taskId) ↔
      AtEveryCall (fun s op => ∀ taskId, ¬ s.Strands op taskId) ops := by
  refine Run.states_iff (I := fun s : TaskStore => ∀ taskId, (s.view taskId).Inv)
    (P := fun s : TaskStore => ∀ taskId, s.NamesBlocker taskId)
    (C := fun s op => ∀ taskId, ¬ s.Strands op taskId) fresh_inv
    (fun s op hinv _ taskId => perform_inv op taskId (hinv taskId))
    (fun _ => namesBlocker_iff.mpr not_stranded_fresh) ?_ ops
  intro s op hinv hnames
  refine forall_congr' fun taskId => ?_
  rw [namesBlocker_iff, stranded_iff (hinv taskId) (namesBlocker_iff.mp (hnames taskId))]

/-- A task with one criterion. -/
def createdWithCriterion : Op :=
  .createTask ⟨"task"⟩ (fun _ => "criterion") "create"
    ⟨⟨"session"⟩, "operator", "goal", ["done"], []⟩

/-- The completion is refused for the open obligation: the task waits and lists nothing. -/
theorem not_waits_name_blockers :
    ¬ ∀ pre, pre <+: [createdWithCriterion,
        .materializeObligations ⟨"task"⟩ fun _ => "obligation",
        .completeIfEligible ⟨"session"⟩ ⟨"task"⟩] →
      ∀ taskId, (after pre).NamesBlocker taskId := by
  intro h
  obtain ⟨blockers, hblockers, -⟩ := h _ (prefix_refl _) ⟨"task"⟩ .waiting rfl rfl
  have hnone : (after [createdWithCriterion,
      .materializeObligations ⟨"task"⟩ fun _ => "obligation",
      .completeIfEligible ⟨"session"⟩ ⟨"task"⟩]).blockersInTx ⟨"task"⟩ = .ok none := rfl
  rw [hnone] at hblockers
  cases hblockers

end TaskStore

end Rivect
