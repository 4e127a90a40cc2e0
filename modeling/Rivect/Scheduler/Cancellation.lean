import Rivect.Scheduler.Accounting

/-! # Cancellation over the task tree

A task is doomed once it or a recorded ancestor was drained. The drain ends the nodes of
the tasks linked below at that moment and `submitAnswered` refuses the doomed; what
neither covers is a task that is adopted under a drained one with live nodes below it.
-/

namespace Rivect.Scheduler

open Lib List

variable {s s' : Scheduler} {maxSlots cap : ℕ}

/-- No node of the task is ready, running or waiting. -/
def Quiet (s : Scheduler) (task : TaskId) : Prop :=
  ∀ (i : NodeId) (n : Node), s.nodes[i]? = some n → n.task = task → n.state.isTerminal

/-- A live node is the latest node of its task. -/
def Current (s : Scheduler) : Prop :=
  ∀ (i : NodeId) (n : Node), s.nodes[i]? = some n → n.isLive → s.byTask.lookup n.task = some i

/-- Nodes come from answers alone. -/
def Op.answered : Op → Bool
  | .submit .. => false
  | _ => true

/-- An adoption under a drained task finds no live node at the child or below it. -/
def Covered (s : Scheduler) : Op → Prop
  | .adopt task parent =>
    s.parentOf task = none → s.Doomed parent → ∀ u, s.LinkedUnder u task → s.Quiet u
  | _ => True

theorem LinkedUnder.congr (hp : s'.parents = s.parents) {u t : TaskId} :
    s'.LinkedUnder u t ↔ s.LinkedUnder u t := by
  unfold LinkedUnder parentOf
  rw [hp]

theorem Doomed.congr (hp : s'.parents = s.parents) (hc : s'.cancelledTasks = s.cancelledTasks)
    {u : TaskId} : s'.Doomed u ↔ s.Doomed u := by
  unfold Doomed
  simp only [hc, LinkedUnder.congr hp]

theorem Doomed.under {u v : TaskId} (hv : s.Doomed v) (hu : s.LinkedUnder u v) : s.Doomed u := by
  obtain ⟨t, ht, hvt⟩ := hv
  exact ⟨t, ht, hu.trans hvt⟩

theorem quiet_iff {task : TaskId} : s.Quiet task ↔
    ∀ (i : NodeId) (n : Node), s.nodes[i]? = some n → n.task = task → ¬ s.isLive i := by
  constructor
  · intro h i n hn ht
    simp [isLive, hn, Node.isLive, h i n hn ht]
  · intro h i n hn ht
    simpa [isLive, hn, Node.isLive] using h i n hn ht

theorem Quiet.keeps (hk : Keeps Frozen s s') {task : TaskId} (h : s.Quiet task) :
    s'.Quiet task := by
  rw [quiet_iff] at h ⊢
  intro i n' hn' ht hlive
  obtain ⟨n, hn, hfixed⟩ := hk.node_before hn'
  exact h i n hn ((Node.fixed_eq hfixed).1 ▸ ht) (hk.isLive hlive)

theorem Current.keeps (hk : Keeps Frozen s s') (h : Current s) : Current s' := by
  intro i n' hn' hlive
  obtain ⟨n, hn, hfixed⟩ := hk.node_before hn'
  have hlive' : s.isLive i := hk.isLive (isLive_iff.mpr ⟨n', hn', hlive⟩)
  obtain ⟨m, hm, hml⟩ := isLive_iff.mp hlive'
  obtain rfl : n = m := Option.mem_unique hn hm
  rw [hk.byTask, (Node.fixed_eq hfixed).1]
  exact h i n hn hml

theorem Drains.frozen {tasks : TaskId → Prop} (h : Drains tasks s s') : Keeps Frozen s s' :=
  h.keeps.mono fun _ _ _ => Settles.frozen

theorem Retires.frozen {task : TaskId} (h : Retires task s s') : Keeps Frozen s s' :=
  h.keeps.mono fun _ _ _ => Settles.frozen

theorem Current.answers {task : TaskId} {node : Node} {s'' : Scheduler} (h : Current s)
    (hr : Retires task s s') (htask : node.task = task) (hg : Grows node s' s'') :
    Current s'' := by
  have h' := h.keeps hr.frozen
  intro i n hn hlive
  rw [hg.byTask, lookup_cons, htask]
  rcases hg.cases hn with ⟨rfl, rfl⟩ | ⟨hne, m, hm, hstate, ht, -⟩
  · simp [htask]
  · have hml : m.isLive := by simpa [Node.isLive, hstate] using hlive
    have hlookup := h' i m hm hml
    by_cases htt : n.task = task
    · have hdead := hr.dead i (by rw [← hr.keeps.byTask, ← htt, ht]; exact hlookup)
      simp [isLive, hm, hml] at hdead
    · rw [beq_eq_false_iff_ne.mpr htt, ht]
      exact hlookup

/-- Adoption adds one edge, so a task is newly doomed only below the adopted one. -/
theorem doomed_adopt {task parent u : TaskId} (h : (s.adopt task parent).Doomed u) :
    s.Doomed u ∨ s.parentOf task = none ∧ s.LinkedUnder u task ∧ s.Doomed parent := by
  have hcancelled : (s.adopt task parent).cancelledTasks = s.cancelledTasks := by
    unfold adopt
    split <;> rfl
  obtain ⟨t, ht, hlink⟩ := h
  rw [hcancelled] at ht
  induction hlink using Relation.ReflTransGen.head_induction_on with
  | refl => exact .inl ⟨t, ht, .refl⟩
  | @head u w hstep _ ih =>
    have hstep' : (s.adopt task parent).parentOf u = some w := hstep
    rw [adopt_parentOf] at hstep'
    split at hstep'
    · rename_i hnew
      obtain ⟨rfl, hnone⟩ := hnew
      obtain rfl := Option.some.inj hstep'
      rcases ih with hd | ⟨-, -, hd⟩
      · exact .inr ⟨hnone, .refl, hd⟩
      · exact .inr ⟨hnone, .refl, hd⟩
    · rcases ih with hd | ⟨hnone, hw, hd⟩
      · exact .inl (hd.under (.single hstep'))
      · exact .inr ⟨hnone, .head hstep' hw, hd⟩

theorem linkedUnder_adopt {task parent u t : TaskId} (h : s.LinkedUnder u t) :
    (s.adopt task parent).LinkedUnder u t := by
  refine Relation.ReflTransGen.mono (fun a b hab => ?_) _ _ h
  have hne : ¬ (a = task ∧ s.parentOf task = none) := by
    rintro ⟨rfl, hnone⟩
    simp [Follows, hnone] at hab
  rw [Follows, adopt_parentOf, if_neg hne]
  exact hab

/-- What a guarded run keeps: a doomed task has no live node. -/
structure Drained (s : Scheduler) : Prop where
  current : Current s
  quiet : ∀ u, s.Doomed u → s.Quiet u

theorem Drained.keeps (h : Drained s) (hk : Keeps Frozen s s')
    (hc : s'.cancelledTasks = s.cancelledTasks) : Drained s' where
  current := h.current.keeps hk
  quiet u hu := (h.quiet u ((Doomed.congr hk.parents hc).mp hu)).keeps hk

theorem Effect.drained {op : Op} (h : Drained s) (he : Effect s op s') (hop : op.answered)
    (hcovered : Covered s op) : Drained s' := by
  cases he with
  | submits => simp [Op.answered] at hop
  | answers ha =>
    cases ha with
    | refused => exact h
    | settled _ hr => exact h.keeps hr.frozen hr.cancelledTasks
    | @grown s1 _ node hnot hr htask hf hg =>
      have h1 := h.keeps hr.frozen hr.cancelledTasks
      refine ⟨h.current.answers hr htask hg, fun u hu => ?_⟩
      have hu1 : s1.Doomed u := (Doomed.congr hg.parents hg.cancelledTasks).mp hu
      intro i n hn ht
      rcases hg.cases hn with ⟨-, rfl⟩ | ⟨-, m, hm, hstate, hmt, -⟩
      · exact absurd ((Doomed.congr hr.keeps.parents hr.cancelledTasks).mp hu1)
          ((ht.symm.trans htask) ▸ hnot)
      · rw [hstate]
        exact h1.quiet u hu1 i m hm (hmt ▸ ht)
  | adopts task parent =>
    have hnodes : (s.adopt task parent).nodes = s.nodes ∧
        (s.adopt task parent).byTask = s.byTask := by
      unfold adopt
      split <;> exact ⟨rfl, rfl⟩
    refine ⟨?_, fun u hu => ?_⟩
    · intro i n hn hlive
      rw [hnodes.1] at hn
      rw [hnodes.2]
      exact h.current i n hn hlive
    · have hquiet : s.Quiet u := by
        rcases doomed_adopt hu with hd | ⟨hnone, hut, hd⟩
        · exact h.quiet u hd
        · exact hcovered hnone hd u hut
      intro i n hn
      rw [hnodes.1] at hn
      exact hquiet i n hn
  | @drains task _ hd =>
    refine ⟨h.current.keeps hd.frozen, fun u hu => ?_⟩
    obtain ⟨t, ht, hut⟩ := hu
    rw [LinkedUnder.congr hd.keeps.parents] at hut
    rcases (hd.cancelledTasks t).mp ht with ht | ht
    · exact (h.quiet u ⟨t, ht, hut⟩).keeps hd.frozen
    · rw [quiet_iff]
      intro i n' hn' htask hlive
      obtain ⟨n, hn, hfixed⟩ := hd.keeps.node_before hn'
      obtain ⟨m, hm, hml⟩ := isLive_iff.mp (hd.frozen.isLive hlive)
      obtain rfl : n = m := Option.mem_unique hn hm
      have hlookup := h.current i n hn hml
      rw [← (Node.fixed_eq hfixed).1, htask] at hlookup
      simp [hd.dead u (hut.trans ht) i hlookup] at hlive
  | moves _ hm => exact h.keeps hm.keeps hm.cancelledTasks

theorem Effect.linkedUnder {op : Op} (he : Effect s op s') {u t : TaskId}
    (h : s.LinkedUnder u t) : s'.LinkedUnder u t := by
  cases he with
  | submits _ hg => exact (LinkedUnder.congr hg.parents).mpr h
  | answers ha =>
    cases ha with
    | refused => exact h
    | settled _ hr => exact (LinkedUnder.congr hr.keeps.parents).mpr h
    | grown _ hr _ _ hg =>
      exact (LinkedUnder.congr (hg.parents.trans hr.keeps.parents)).mpr h
  | adopts => exact linkedUnder_adopt h
  | drains hd => exact (LinkedUnder.congr hd.keeps.parents).mpr h
  | moves _ hm => exact (LinkedUnder.congr hm.keeps.parents).mpr h

/-- Who has been drained: what was linked under a cancelled task when it was cancelled. -/
theorem Effect.mem_cancelledTasks {op : Op} (he : Effect s op s') (c : TaskId) :
    c ∈ s'.cancelledTasks ↔
      c ∈ s.cancelledTasks ∨ ∃ t, op = .cancelTaskTree t ∧ s.LinkedUnder c t := by
  cases he with
  | submits _ hg => simp [hg.cancelledTasks]
  | answers ha =>
    cases ha with
    | refused => simp
    | settled _ hr => simp [hr.cancelledTasks]
    | grown _ hr _ _ hg => simp [hg.cancelledTasks, hr.cancelledTasks]
  | adopts task parent =>
    have : (s.adopt task parent).cancelledTasks = s.cancelledTasks := by
      unfold adopt
      split <;> rfl
    simp [this]
  | drains hd => simp [hd.cancelledTasks]
  | moves hop hm => simp [hm.cancelledTasks, hop]

theorem doomed_iff {ops : List Op} (hrun : Run Calls (new maxSlots cap) ops s) (u : TaskId) :
    s.Doomed u ↔ ∃ t, .cancelTaskTree t ∈ ops ∧ s.LinkedUnder u t := by
  have hinv : (∀ c ∈ s.cancelledTasks, ∃ t, .cancelTaskTree t ∈ ops ∧ s.LinkedUnder c t) ∧
      ∀ t, .cancelTaskTree t ∈ ops → t ∈ s.cancelledTasks := by
    refine Run.history (I := fun ops s =>
      (∀ c ∈ s.cancelledTasks, ∃ t, .cancelTaskTree t ∈ ops ∧ s.LinkedUnder c t) ∧
        ∀ t, .cancelTaskTree t ∈ ops → t ∈ s.cancelledTasks) (by simp [new]) ?_ hrun
    rintro pre op a b hpre ⟨hsound, hcomplete⟩ hcall
    have he := (effect_within (good_of_run hpre) op).of_ok hcall
    constructor
    · intro c hc
      rcases (he.mem_cancelledTasks c).mp hc with hc | ⟨t, rfl, hct⟩
      · obtain ⟨t, ht, hct⟩ := hsound c hc
        exact ⟨t, by simp [ht], he.linkedUnder hct⟩
      · exact ⟨t, by simp, he.linkedUnder hct⟩
    · intro t ht
      rw [he.mem_cancelledTasks]
      rcases mem_append.mp ht with ht | ht
      · exact .inl (hcomplete t ht)
      · exact .inr ⟨t, (mem_singleton.mp ht).symm, .refl⟩
  constructor
  · rintro ⟨c, hc, huc⟩
    obtain ⟨t, ht, hct⟩ := hinv.1 c hc
    exact ⟨t, ht, huc.trans hct⟩
  · rintro ⟨t, ht, hut⟩
    exact ⟨t, hinv.2 t ht, hut⟩

/-- What a cancelled task is promised in a state. -/
structure Final (s : Scheduler) (task : TaskId) : Prop where
  quiet : s.Quiet task
  refused : ∀ answer grantId, s.submitAnswered task answer grantId = .ok (s, .ok none)
  late : ∀ (i : NodeId) (n : Node), s.nodes[i]? = some n → n.state = .cancelled →
    s.complete i = .ok
      ({ s with ignoredLateDeliveries := s.ignoredLateDeliveries + 1 }, .ok .ignoredCancelled)

theorem submitAnswered_of_doomed {task : TaskId} (h : s.Doomed task) (answer : AnswerSelection)
    (grantId : String) : s.submitAnswered task answer grantId = .ok (s, .ok none) := by
  simp [submitAnswered, inCancelledSubtree_of_doomed h]
  rfl

theorem final_iff {task : TaskId} (h : s.Doomed task) : s.Final task ↔ s.Quiet task := by
  refine ⟨Final.quiet, fun hq => ⟨hq, submitAnswered_of_doomed h, ?_⟩⟩
  intro i n hn hstate
  simp [complete, nodeState, hn, hstate]

def AnswerStep (s : Scheduler) (op : Op) (s' : Scheduler) : Prop :=
  Calls s op s' ∧ op.answered

def CoveredStep (s : Scheduler) (op : Op) (s' : Scheduler) : Prop :=
  AnswerStep s op s' ∧ Covered s op

theorem Calls.unique (s : Scheduler) (op : Op) (a b : Scheduler) (ha : Calls s op a)
    (hb : Calls s op b) : a = b :=
  Except.ok.inj (ha.symm.trans hb)

theorem drained_of_run {ops : List Op} (hrun : Run CoveredStep (new maxSlots cap) ops s) :
    Drained s := by
  have hboth : Good maxSlots cap s ∧ Drained s := by
    refine hrun.invariant (I := fun s => Good maxSlots cap s ∧ Drained s) ?_
      ⟨good_new maxSlots cap, ?_, ?_⟩
    · rintro a op b ⟨hgood, hdrained⟩ ⟨⟨hcall, hop⟩, hcovered⟩
      have he := (effect_within hgood op).of_ok hcall
      exact ⟨he.good hgood, he.drained hdrained hop hcovered⟩
    · intro i n hn
      simp [new] at hn
    · rintro u ⟨t, ht, -⟩
      simp [new] at ht
  exact hboth.2

/-- An adoption that breaks the guard leaves a live node under a cancelled task. -/
theorem covered_of_final {ops : List Op} (hrun : Run Calls (new maxSlots cap) ops s) {op : Op}
    (hcall : Calls s op s')
    (hfinal : ∀ t u, .cancelTaskTree t ∈ ops → s'.LinkedUnder u t → s'.Quiet u) :
    Covered s op := by
  cases op with
  | adopt task parent =>
    intro hnone hdoomed u hut
    obtain rfl : s.adopt task parent = s' := Except.ok.inj hcall
    have hedge : (s.adopt task parent).LinkedUnder task parent := by
      apply Relation.ReflTransGen.single
      rw [Follows, adopt_parentOf, if_pos ⟨rfl, hnone⟩]
    obtain ⟨t, ht, hpt⟩ := (doomed_iff hrun parent).mp hdoomed
    have hquiet := hfinal t u ht
      (((linkedUnder_adopt hut).trans hedge).trans (linkedUnder_adopt hpt))
    have hnodes : (s.adopt task parent).nodes = s.nodes := by
      unfold adopt
      split <;> rfl
    intro i n hn
    exact hquiet i n (hnodes ▸ hn)
  | _ => trivial

/-- Over a run whose nodes come from answers, every task under a cancelled one is final from
then on exactly if no adoption puts live nodes under a drained task. -/
theorem cancellation_permanent {ops : List Op} (hrun : Run AnswerStep (new maxSlots cap) ops s) :
    Run CoveredStep (new maxSlots cap) ops s ↔
      ∀ pre post a t u, ops = pre ++ post → Run Calls (new maxSlots cap) pre a →
        .cancelTaskTree t ∈ pre → a.LinkedUnder u t → a.Final u := by
  constructor
  · rintro hcovered pre post a t u rfl hpre ht hut
    obtain ⟨b, hb, -⟩ := hcovered.split
    obtain rfl : b = a := (hb.mono fun _ _ _ h => h.1.1).unique Calls.unique hpre
    have hdoomed : b.Doomed u := (doomed_iff hpre u).mpr ⟨t, ht, hut⟩
    exact (final_iff hdoomed).mpr ((drained_of_run hb).quiet u hdoomed)
  · intro hfinal
    apply hrun.guarded
    rintro pre op post a b rfl hpre hstep
    have hcalls := hpre.mono fun _ _ _ h => h.1
    apply covered_of_final hcalls hstep.1
    intro t u ht hut
    exact (hfinal (pre ++ [op]) post b t u (by simp) (hcalls.append (.single hstep.1))
      (by simp [ht]) hut).quiet

/-- A child that was answered before its parent's cancellation is final after it. -/
theorem cancellation_permanent_child : ∃ s : Scheduler,
    Run Calls (new 2 4) [.adopt ⟨"child"⟩ ⟨"task"⟩,
      .submitAnswered ⟨"child"⟩ (.custom "go") "grant", .cancelTaskTree ⟨"task"⟩] s ∧
    s.nodes.map Node.state = [.cancelled] ∧ s.Final ⟨"child"⟩ := by
  have hrun : Run CoveredStep (new 2 4) [.adopt ⟨"child"⟩ ⟨"task"⟩,
      .submitAnswered ⟨"child"⟩ (.custom "go") "grant", .cancelTaskTree ⟨"task"⟩] _ :=
    .cons ⟨⟨rfl, rfl⟩, by rintro - ⟨t, ht, -⟩; simp [new] at ht⟩
      (.cons ⟨⟨rfl, rfl⟩, trivial⟩ (.cons ⟨⟨rfl, rfl⟩, trivial⟩ (.nil _)))
  have hcalls := hrun.mono fun _ _ _ h => h.1.1
  exact ⟨_, hcalls, by decide, (cancellation_permanent (hrun.mono fun _ _ _ h => h.1)).mp hrun
    _ [] _ ⟨"task"⟩ _ (append_nil _).symm hcalls (by simp) (.single rfl)⟩

/-- Nodes come from answers alone and a task is adopted before it carries a node. -/
def AdoptsFirst (s : Scheduler) (op : Op) (s' : Scheduler) : Prop :=
  AnswerStep s op s' ∧ ∀ task parent, op = .adopt task parent → s.byTask.lookup task = none

/-- The middle task carries no node when it is adopted under the cancelled one, but its
child does, and stays ready. -/
theorem live_node_under_cancelled_task : ¬ ∀ (maxSlots cap : ℕ) (ops : List Op) (s : Scheduler)
    (t u : TaskId), Run AdoptsFirst (new maxSlots cap) ops s → s.Acyclic →
      .cancelTaskTree t ∈ ops → s.LinkedUnder u t → s.Quiet u := by
  intro hclaim
  have hrun : Run AdoptsFirst (new 2 4) [.adopt ⟨"child"⟩ ⟨"middle"⟩,
      .submitAnswered ⟨"child"⟩ (.custom "go") "grant", .cancelTaskTree ⟨"task"⟩,
      .adopt ⟨"middle"⟩ ⟨"task"⟩] _ :=
    .cons ⟨⟨rfl, rfl⟩, by rintro _ _ ⟨⟩; rfl⟩ (.cons ⟨⟨rfl, rfl⟩, by simp⟩
      (.cons ⟨⟨rfl, rfl⟩, by simp⟩ (.cons ⟨⟨rfl, rfl⟩, by rintro _ _ ⟨⟩; rfl⟩ (.nil _))))
  have hquiet := hclaim 2 4 _ _ ⟨"task"⟩ ⟨"child"⟩ hrun ?_ (by simp)
    (.head rfl (.single rfl)) 0 _ rfl rfl
  · exact absurd hquiet (by decide)
  · refine Lib.Acyclic.of_rank
      (fun t => if t = ⟨"child"⟩ then 0 else if t = ⟨"middle"⟩ then 1 else 2) ?_
    intro a b hab
    have hmem : (a, b) ∈ [((⟨"middle"⟩, ⟨"task"⟩) : TaskId × TaskId), (⟨"child"⟩, ⟨"middle"⟩)] :=
      mem_parents hab
    simp only [mem_cons, Prod.mk.injEq, not_mem_nil, or_false] at hmem
    rcases hmem with ⟨rfl, rfl⟩ | ⟨rfl, rfl⟩ <;> decide

end Rivect.Scheduler
