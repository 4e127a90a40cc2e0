import Rivect.Scheduler.Accounting
import Rivect.TaskStore.Frame

/-! # Parentage under the create path

The create arm of `submit_task` asks only that the parent exists before it records the link. A new
task is below nothing, so its link closes no cycle; a replay answers the task that its command first
created, which by then may stand above the parent that the replay names.
-/

namespace Rivect

open Lib Option

structure Runtime where
  store : TaskStore
  scheduler : Scheduler

/-- A create request, and the ids that the call generates. -/
structure CreateTask where
  commandId : String
  params : CreateParams
  parentTask : Option TaskId
  taskId : TaskId
  criterionId : ℕ → String

namespace Runtime

variable {rt rt' : Runtime} {maxSlots cap : ℕ}

/-- The create arm, from its look at the parent on. -/
def createTask (rt : Runtime) (request : CreateTask) :
    Except StoreError (Runtime × CommandResult) := do
  request.parentTask.elim (.ok ()) fun parent => do
    let _ ← found (rt.store.tasks parent) (TaskStore.missingTask parent)
    .ok ()
  let (store, result) ← rt.store.createTask request.taskId request.criterionId request.commandId
    request.params
  let scheduler := request.parentTask.elim rt.scheduler (rt.scheduler.adopt result.taskId)
  .ok (⟨store, scheduler⟩, result)

/-- A create, or another call of the store or of the scheduler: answers and cancels are one of
each. -/
inductive Request where
  | create (request : CreateTask)
  | store (op : TaskStore.Op)
  | schedule (op : Scheduler.Op)

inductive Serves (rt : Runtime) : Request → Runtime → Prop
  | create {request : CreateTask} {rt' : Runtime} {result : CommandResult}
      (h : rt.createTask request = .ok (rt', result)) : Serves rt (.create request) rt'
  | store (op : TaskStore.Op) : Serves rt (.store op) { rt with store := (rt.store.perform op).1 }
  | schedule {op : Scheduler.Op} {s : Scheduler} (hop : ∀ task parent, op ≠ .adopt task parent)
      (h : rt.scheduler.Calls op s) : Serves rt (.schedule op) { rt with scheduler := s }

/-- Every walk up the recorded parentage ends. -/
structure Ends (s : Scheduler) : Prop where
  acyclic : s.Acyclic
  cancelled : ∀ task, ∃ found, s.inCancelledSubtree task = .ok found
  parent : ∀ task, ∃ parent, s.runnableParent task = .ok parent
  answers : ∀ task answer grantId, ∃ answered, s.submitAnswered task answer grantId = .ok answered

/-- A replay that records the first parent of its task names neither the task nor one below it. -/
def Sound (rt : Runtime) (request : CreateTask) : Prop :=
  ∀ row parent, rt.store.receipt request.commandId = some row → request.parentTask = some parent →
    rt.scheduler.parentOf row.result.taskId = none →
    ¬ rt.scheduler.LinkedUnder parent row.result.taskId

/-- The recorded parents exist. -/
structure Held (maxSlots cap : ℕ) (rt : Runtime) : Prop where
  good : rt.scheduler.Good maxSlots cap
  parents : ∀ task parent, rt.scheduler.parentOf task = some parent →
    ∃ row, rt.store.tasks parent = some row

/-! ## What a create does -/

/-- A create answers the task on record, or a task that did not exist. -/
def Answered (s : TaskStore) (request : CreateTask) (result : CommandResult) : Prop :=
  (∃ row, s.receipt request.commandId = some row ∧ result = row.result) ∨
    s.receipt request.commandId = none ∧ result.taskId = request.taskId ∧
      s.tasks request.taskId = none

theorem answered_of_createTask {s s' : TaskStore} {request : CreateTask} {result : CommandResult}
    (h : s.createTask request.taskId request.criterionId request.commandId request.params =
      .ok (s', result)) : Answered s request result := by
  obtain ⟨_, -, h⟩ := bind_eq_ok h
  cases hreceipt : s.receipt request.commandId with
  | some row =>
    rw [hreceipt] at h
    obtain ⟨_, -, h⟩ := bind_eq_ok h
    cases h
    exact .inl ⟨row, hreceipt, rfl⟩
  | none =>
    rw [hreceipt] at h
    obtain ⟨_, hinserted, h⟩ := bind_eq_ok h
    obtain ⟨_, -, h⟩ := bind_eq_ok h
    obtain ⟨_, -, h⟩ := bind_eq_ok h
    cases h
    obtain ⟨_, hnew, -⟩ := bind_eq_ok hinserted
    exact .inr ⟨hreceipt, rfl, require_eq_ok hnew⟩

theorem createTask_ok {request : CreateTask} {result : CommandResult}
    (h : rt.createTask request = .ok (rt', result)) :
    (∀ parent, request.parentTask = some parent → ∃ row, rt.store.tasks parent = some row) ∧
      Answered rt.store request result ∧ TaskStore.Evolves rt.store rt'.store ∧
      rt'.scheduler = request.parentTask.elim rt.scheduler (rt.scheduler.adopt result.taskId) := by
  obtain ⟨_, hparent, h⟩ := bind_eq_ok h
  obtain ⟨⟨store, answered⟩, hcreated, h⟩ := bind_eq_ok h
  cases h
  refine ⟨?_, answered_of_createTask hcreated,
    (TaskStore.frames_evolves.createTask _ _ _).of_ok hcreated, rfl⟩
  intro parent hnamed
  rw [hnamed] at hparent
  obtain ⟨row, hfound, -⟩ := bind_eq_ok hparent
  exact ⟨row, found_eq_ok hfound⟩

theorem ends_of_acyclic {s : Scheduler} (hgood : s.Good maxSlots cap) (hacyclic : s.Acyclic) :
    Ends s := by
  have hno : ∀ fault, ¬ s.Loops fault := fun fault h => h.2 hacyclic
  refine ⟨hacyclic, fun task => ?_, fun task => ?_, fun task answer grantId => ?_⟩
  · obtain ⟨found, hfound, -⟩ := Within.returns (Scheduler.inCancelledSubtree_within task) hno
    exact ⟨found, hfound⟩
  · obtain ⟨parent, hparent, -⟩ :=
      Within.returns (Scheduler.walkUp_within _ (s.parents.lookup task)) hno
    exact ⟨parent, hparent⟩
  · obtain ⟨answered, hanswered, -⟩ :=
      Within.returns (Scheduler.submitAnswered_within hgood.inv task answer grantId) hno
    exact ⟨answered, hanswered⟩

theorem parentOf_of_calls {s s' : Scheduler} {op : Scheduler.Op} (hgood : s.Good maxSlots cap)
    (hop : ∀ task parent, op ≠ .adopt task parent) (h : s.Calls op s') :
    s'.parentOf = s.parentOf := by
  have heffect := (Scheduler.effect_within hgood op).of_ok h
  have hparents : s'.parents = s.parents := by
    cases heffect with
    | submits _ hg => exact hg.parents
    | answers ha =>
      cases ha with
      | refused => rfl
      | settled _ hr => exact hr.keeps.parents
      | grown _ hr _ _ hg => exact hg.parents.trans hr.keeps.parents
    | adopts task parent => exact absurd rfl (hop task parent)
    | drains hd => exact hd.keeps.parents
    | moves _ hm => exact hm.keeps.parents
  unfold Scheduler.parentOf
  rw [hparents]

theorem Held.serves {request : Request} (h : rt.Held maxSlots cap) (hs : rt.Serves request rt') :
    rt'.Held maxSlots cap := by
  obtain ⟨hgood, hparents⟩ := h
  cases hs with
  | @create request rt' result hcreate =>
    obtain ⟨hnamed, -, hevolves, hscheduler⟩ := createTask_ok hcreate
    have hkept : ∀ parent, (∃ row, rt.store.tasks parent = some row) →
        ∃ row, rt'.store.tasks parent = some row := by
      rintro parent ⟨row, hrow⟩
      obtain ⟨row', hrow', -⟩ := hevolves.tasks parent row hrow
      exact ⟨row', hrow'⟩
    cases hparent : request.parentTask with
    | none =>
      rw [hparent, elim_none] at hscheduler
      refine ⟨hscheduler ▸ hgood, fun task parent htask => ?_⟩
      rw [hscheduler] at htask
      exact hkept parent (hparents task parent htask)
    | some named =>
      rw [hparent, elim_some] at hscheduler
      refine ⟨hscheduler ▸ Scheduler.adopt_good hgood _ _, fun task parent htask => ?_⟩
      rw [hscheduler, Scheduler.adopt_parentOf] at htask
      split at htask
      · cases htask
        exact hkept named (hnamed named hparent)
      · exact hkept parent (hparents task parent htask)
  | store op =>
    refine ⟨hgood, fun task parent htask => ?_⟩
    obtain ⟨row, hrow⟩ := hparents task parent htask
    obtain ⟨row', hrow', -⟩ := (TaskStore.perform_evolves rt.store op).tasks parent row hrow
    exact ⟨row', hrow'⟩
  | schedule hop hcalls =>
    refine ⟨(Scheduler.after_within hgood _).of_ok hcalls, fun task parent htask => ?_⟩
    rw [parentOf_of_calls hgood hop hcalls] at htask
    exact hparents task parent htask

theorem Held.not_linkedUnder (h : rt.Held maxSlots cap) {parent task : TaskId} {row : TaskRow}
    (hparent : rt.store.tasks parent = some row) (htask : rt.store.tasks task = none) :
    ¬ rt.scheduler.LinkedUnder parent task := by
  intro hlinked
  rcases Relation.ReflTransGen.cases_tail hlinked with rfl | ⟨child, -, hchild⟩
  · cases hparent.symm.trans htask
  · obtain ⟨row', hrow'⟩ := h.parents child task hchild
    cases hrow'.symm.trans htask

theorem acyclic_create {request : CreateTask} {result : CommandResult} (h : rt.Held maxSlots cap)
    (hacyclic : rt.scheduler.Acyclic) (hcreate : rt.createTask request = .ok (rt', result)) :
    rt'.scheduler.Acyclic ↔ rt.Sound request := by
  obtain ⟨hnamed, hanswered, -, hscheduler⟩ := createTask_ok hcreate
  cases hparent : request.parentTask with
  | none =>
    rw [hparent, elim_none] at hscheduler
    refine iff_of_true (hscheduler ▸ hacyclic) fun row parent _ hparent' => ?_
    cases hparent.symm.trans hparent'
  | some parent =>
    rw [hparent, elim_some] at hscheduler
    have hparentOf := Scheduler.adopt_parentOf rt.scheduler result.taskId parent
    rw [← hscheduler] at hparentOf
    by_cases hnone : rt.scheduler.parentOf result.taskId = none
    · have hlinks : rt'.scheduler.parentOf result.taskId = some parent := by
        rw [hparentOf, if_pos ⟨rfl, hnone⟩]
      have hother : ∀ task, task ≠ result.taskId →
          rt'.scheduler.parentOf task = rt.scheduler.parentOf task := by
        intro task htask
        rw [hparentOf, if_neg fun h => htask h.1]
      refine (acyclic_extend hnone hlinks hother hacyclic).trans ?_
      rcases hanswered with ⟨row, hreceipt, rfl⟩ | ⟨hreceipt, hfresh, habsent⟩
      · constructor
        · intro hnot row' parent' hreceipt' hparent' _
          obtain rfl := mem_unique hreceipt hreceipt'
          obtain rfl := mem_unique hparent hparent'
          exact hnot
        · exact fun hsound => hsound row parent hreceipt hparent hnone
      · obtain ⟨row, hrow⟩ := hnamed parent hparent
        rw [hfresh]
        refine iff_of_true (h.not_linkedUnder hrow habsent) fun row' _ hreceipt' => ?_
        cases hreceipt.symm.trans hreceipt'
    · have hsame : rt'.scheduler.parentOf = rt.scheduler.parentOf := by
        funext task
        rw [hparentOf, if_neg fun h => hnone h.2]
      refine iff_of_true ?_ fun row parent' hreceipt' _ hnone' => ?_
      · unfold Scheduler.Acyclic
        rwa [hsame]
      · rcases hanswered with ⟨row', hreceipt, rfl⟩ | ⟨hreceipt, -⟩
        · obtain rfl := mem_unique hreceipt hreceipt'
          exact absurd hnone' hnone
        · cases hreceipt.symm.trans hreceipt'

theorem acyclic_of_serves {request : Request} (h : rt.Held maxSlots cap)
    (hs : rt.Serves request rt') (hacyclic : rt'.scheduler.Acyclic) : rt.scheduler.Acyclic := by
  cases hs with
  | @create request rt' result hcreate =>
    obtain ⟨-, -, -, hscheduler⟩ := createTask_ok hcreate
    refine Acyclic.of_le hacyclic fun task parent htask => ?_
    rw [hscheduler]
    cases request.parentTask with
    | none => exact htask
    | some named =>
      rw [elim_some, Scheduler.adopt_parentOf, if_neg]
      · exact htask
      · rintro ⟨rfl, hnone⟩
        cases hnone.symm.trans htask
  | store op => exact hacyclic
  | schedule hop hcalls =>
    refine Acyclic.of_le hacyclic fun task parent htask => ?_
    exact (congrFun (parentOf_of_calls h.good hop hcalls) task).trans htask

/-! ## Runs -/

theorem held_new {store : TaskStore} : Held maxSlots cap ⟨store, .new maxSlots cap⟩ :=
  ⟨Scheduler.good_new maxSlots cap, fun _ _ h => by cases h⟩

theorem acyclic_new : (Scheduler.new maxSlots cap).Acyclic :=
  Acyclic.of_rank (fun _ => 0) fun _ _ h => by cases h

theorem Held.run {requests : List Request} (h : rt.Held maxSlots cap)
    (hrun : Run Serves rt requests rt') : rt'.Held maxSlots cap :=
  hrun.invariant (fun _ _ _ h hs => h.serves hs) h

theorem acyclic_of_run {requests : List Request} (h : rt.Held maxSlots cap)
    (hrun : Run Serves rt requests rt') (hacyclic : rt'.scheduler.Acyclic) :
    rt.scheduler.Acyclic := by
  induction hrun with
  | nil => exact hacyclic
  | cons hs _ ih => exact acyclic_of_serves h hs (ih (h.serves hs) hacyclic)

/-- Every create of the run is sound where it is served. -/
def SoundRun (rt : Runtime) (requests : List Request) (rt' : Runtime) : Prop :=
  ∀ pre request post a b, requests = pre ++ .create request :: post → Run Serves rt pre a →
    a.Serves (.create request) b → Run Serves b post rt' → a.Sound request

theorem SoundRun.tail {request : Request} {requests : List Request} {mid : Runtime}
    (h : SoundRun rt (request :: requests) rt') (hs : rt.Serves request mid) :
    SoundRun mid requests rt' := by
  rintro pre created post a b rfl hpre hserved hpost
  exact h (request :: pre) created post a b rfl (.cons hs hpre) hserved hpost

theorem acyclic_run {requests : List Request} (h : rt.Held maxSlots cap)
    (hacyclic : rt.scheduler.Acyclic) (hrun : Run Serves rt requests rt')
    (hsound : SoundRun rt requests rt') : rt'.scheduler.Acyclic := by
  induction hrun with
  | nil => exact hacyclic
  | @cons rt mid rt' request requests hs hrest ih =>
    refine ih (h.serves hs) ?_ (hsound.tail hs)
    cases hs with
    | create hcreate =>
      refine (acyclic_create h hacyclic hcreate).mpr ?_
      exact hsound [] _ requests rt mid rfl (.nil rt) (.create hcreate) hrest
    | store op => exact hacyclic
    | schedule hop hcalls =>
      unfold Scheduler.Acyclic
      rwa [parentOf_of_calls h.good hop hcalls]

/-- From a new scheduler, every upward walk ends exactly where every create of the run was sound. -/
theorem ends_iff {requests : List Request} (hnew : rt.scheduler = .new maxSlots cap)
    (hrun : Run Serves rt requests rt') : Ends rt'.scheduler ↔ SoundRun rt requests rt' := by
  have h : rt.Held maxSlots cap := by
    obtain ⟨store, _⟩ := rt
    cases hnew
    exact held_new
  constructor
  · intro hends pre request post a b _ hpre hserved hpost
    have ha := h.run hpre
    have hb := acyclic_of_run (ha.serves hserved) hpost hends.acyclic
    have haAcyclic := acyclic_of_serves ha hserved hb
    cases hserved with
    | create hcreate => exact (acyclic_create ha haAcyclic hcreate).mp hb
  · intro hsound
    have hstart : rt.scheduler.Acyclic := hnew ▸ acyclic_new
    exact ends_of_acyclic (h.run hrun).good (acyclic_run h hstart hrun hsound)

def goal : CreateParams := ⟨⟨"session"⟩, "local_user", "goal", [], []⟩

def firstTask : CreateTask := ⟨"create", goal, none, ⟨"task"⟩, fun _ => "criterion"⟩

/-- The same command under its own task, which the receipt does not digest. -/
def ownParent : CreateTask := { firstTask with parentTask := some ⟨"task"⟩ }

def childTask : CreateTask := ⟨"child", goal, some ⟨"task"⟩, ⟨"child"⟩, fun _ => "criterion"⟩

def served : Runtime := ⟨.fresh, .new 1 1⟩

theorem child_ends : ∃ rt', Run Serves served [.create firstTask, .create childTask] rt' ∧
    (Ends rt'.scheduler ↔ SoundRun served [.create firstTask, .create childTask] rt') := by
  have hrun : Run Serves served [.create firstTask, .create childTask] _ :=
    .cons (.create rfl) (.cons (.create rfl) (.nil _))
  exact ⟨_, hrun, ends_iff rfl hrun⟩

/-- A replay may record a task as its own parent, and then no walk from it ends. -/
theorem own_parent_loops : ¬ ∀ (maxSlots cap : ℕ) (requests : List Request) (rt' : Runtime),
    Run Serves ⟨.fresh, .new maxSlots cap⟩ requests rt' → Ends rt'.scheduler := by
  intro h
  have hrun : Run Serves served [.create firstTask, .create ownParent] _ :=
    .cons (.create rfl) (.cons (.create rfl) (.nil _))
  obtain ⟨found, hfound⟩ := (h 1 1 _ _ hrun).cancelled ⟨"task"⟩
  have hloops : (Except.error .diverges : Except Fault Bool) = .ok found := hfound
  cases hloops

end Runtime

end Rivect
