import Rivect.Scheduler.Admission

/-! # Answers and cancellations by task

`submitAnswered` walks up the recorded parentage and `cancelTaskTree` walks down it. Only
the upward walks may fail to end, and only on a cycle.
-/

namespace Rivect.Scheduler

open Lib List

variable {s : Scheduler}

/-- The recorded parent. -/
def parentOf (s : Scheduler) (task : TaskId) : Option TaskId := s.parents.lookup task

/-- `task` is `ancestor` or is linked under it through recorded parentage. -/
abbrev LinkedUnder (s : Scheduler) : TaskId → TaskId → Prop :=
  Relation.ReflTransGen (Follows s.parentOf)

def Acyclic (s : Scheduler) : Prop := Lib.Acyclic s.parentOf

/-- The task or a recorded ancestor was drained by a tree cancellation. -/
def Doomed (s : Scheduler) (task : TaskId) : Prop := ∃ t ∈ s.cancelledTasks, s.LinkedUnder task t

/-- The only fault a call can meet: an upward walk that goes round a cycle. -/
def Loops (s : Scheduler) (fault : Fault) : Prop := fault = .diverges ∧ ¬ s.Acyclic

/-- The edge list and the map record the same parentage. -/
def Linked (s : Scheduler) : Prop := ∀ c p, (c, p) ∈ s.linkage ↔ s.parentOf c = some p

theorem mem_parents {a b : TaskId} (h : s.parentOf a = some b) : (a, b) ∈ s.parents := by
  obtain ⟨l1, l2, hl, -⟩ := lookup_eq_some_iff.mp h
  simp [hl]

theorem parentOf_mem_keys (s : Scheduler) (a b : TaskId) (h : s.parentOf a = some b) :
    a ∈ s.parents.map Prod.fst :=
  mem_map.mpr ⟨_, mem_parents h, rfl⟩

theorem walkUp_within {β : Type} (hit : TaskId → Option β) (start : Option TaskId) :
    Within s.Loops (fun r => ∀ task, start = some task →
      (r.isSome ↔ ∃ t, s.LinkedUnder task t ∧ (hit t).isSome) ∧
      ∀ b, r = some b → ∃ t, s.LinkedUnder task t ∧ hit t = some b)
      (s.walkUp hit start) := by
  have hkeys := s.parentOf_mem_keys
  unfold walkUp
  rw [show (fun id => s.parents.lookup id) = s.parentOf from rfl,
    show s.parents.length = (s.parents.map Prod.fst).length by simp]
  cases start with
  | none => simp
  | some task =>
    cases h : firstHit s.parentOf hit ((s.parents.map Prod.fst).length + 1) (some task) with
    | none =>
      refine ⟨rfl, fun hacyclic => ?_⟩
      exact firstHit_ne_none_of_acyclic hkeys hacyclic task h
    | some r =>
      rintro t ⟨⟩
      constructor
      · constructor
        · intro hr
          obtain ⟨b, rfl⟩ := Option.isSome_iff_exists.mp hr
          obtain ⟨k, c, hk, hc⟩ := exists_link_of_firstHit h
          exact ⟨c, follows_iff_link.mpr ⟨k, hk⟩, by simp [hc]⟩
        · rintro ⟨c, hlink, hc⟩
          obtain ⟨k, hk⟩ := follows_iff_link.mp hlink
          cases r with
          | none => simp [no_hit_of_firstHit h hk] at hc
          | some b => rfl
      · rintro b rfl
        obtain ⟨k, c, hk, hc⟩ := exists_link_of_firstHit h
        exact ⟨c, follows_iff_link.mpr ⟨k, hk⟩, hc⟩

theorem inCancelledSubtree_within (task : TaskId) :
    Within s.Loops (fun b => b = true ↔ s.Doomed task) (s.inCancelledSubtree task) := by
  apply Within.bind (walkUp_within _ (some task))
  intro r hr
  simp only [Within.ok_iff, (hr task rfl).1, Doomed]
  constructor
  · rintro ⟨t, hlink, ht⟩
    by_cases hmem : t ∈ s.cancelledTasks
    · exact ⟨t, hmem, hlink⟩
    · simp [hmem] at ht
  · rintro ⟨t, hmem, hlink⟩
    exact ⟨t, hlink, by simp [hmem]⟩

/-- A cancelled task is found, whatever the parentage looks like. -/
theorem inCancelledSubtree_of_doomed {task : TaskId} (h : s.Doomed task) :
    s.inCancelledSubtree task = .ok true := by
  obtain ⟨t, hmem, hlink⟩ := h
  obtain ⟨k, hk⟩ := follows_iff_link.mp hlink
  let hit : TaskId → Option Unit := fun id => if id ∈ s.cancelledTasks then some () else none
  have hhit : hit t = some () := if_pos hmem
  obtain ⟨b, hb⟩ := firstHit_of_link s.parentOf_mem_keys hk hhit
  rw [length_map] at hb
  have hwalk : s.walkUp hit (some task) = .ok (some b) := by
    unfold walkUp
    rw [show (fun id => s.parents.lookup id) = s.parentOf from rfl, hb]
  unfold inCancelledSubtree
  rw [hwalk]
  rfl

/-- The previous node of the task is terminal. -/
structure Retires (task : TaskId) (s s' : Scheduler) : Prop where
  inv : Inv s'
  keeps : Keeps (Settles (fun i => s.byTask.lookup task = some i) .settled) s s'
  cancelledTasks : s'.cancelledTasks = s.cancelledTasks
  dead : ∀ i, s.byTask.lookup task = some i → s'.isLive i = false

/-- What `submitAnswered` does when it answers. -/
inductive Answers (task : TaskId) (s : Scheduler) :
    Scheduler × Except SchedulerError (Option NodeId) → Prop
  | refused (h : s.Doomed task) : Answers task s (s, .ok none)
  | settled {s' : Scheduler} {r : Except SchedulerError (Option NodeId)} (h : ¬ s.Doomed task)
      (hr : Retires task s s') : Answers task s (s', r)
  | grown {s' s'' : Scheduler} {node : Node} (h : ¬ s.Doomed task) (hr : Retires task s s')
      (htask : node.task = task) (hf : Fresh s' node) (hg : Grows node s' s'') :
      Answers task s (s'', .ok (some s'.nodes.length))

theorem submitAnswered_within (hinv : Inv s) (task : TaskId) (answer : AnswerSelection)
    (grantId : String) : Within s.Loops (Answers task s) (s.submitAnswered task answer grantId) := by
  apply Within.bind (inCancelledSubtree_within task)
  intro doomed hdoomed
  cases doomed with
  | true => exact .refused (hdoomed.mp rfl)
  | false =>
    have hnot : ¬ s.Doomed task := fun h => by simpa using hdoomed.mpr h
    have hkept : s.byTask.lookup task = none → Within s.Loops (Retires task s) (.ok s) :=
      fun hnone => ⟨hinv, Keeps.refl (fun _ _ => .inl rfl) s, rfl, by simp [hnone]⟩
    have hretired : ∀ previous, s.byTask.lookup task = some previous →
        Within s.Loops (Retires task s) (s.retire previous) := by
      intro previous hprevious
      obtain ⟨n, hn, -⟩ := hinv.shape.byTask task previous hprevious
      apply (retire_within hinv hn).imp
      rintro s' ⟨he, hdead⟩
      refine ⟨he.inv, he.keeps.mono ?_, he.cancelledTasks, ?_⟩
      · rintro i a b (h | ⟨hi, h⟩ | h)
        · exact .inl h
        · exact .inr (.inl ⟨by rw [hprevious, mem_singleton.mp hi], h⟩)
        · exact .inr (.inr h)
      · intro i hi
        obtain rfl : previous = i := Option.mem_unique hprevious hi
        exact hdead
    rcases hprevious : s.byTask.lookup task with _ | previous
    on_goal 1 => apply Within.bind (hkept hprevious)
    on_goal 2 => apply Within.bind (hretired previous hprevious)
    all_goals
      intro s' hs'
      have hparents : s'.parentOf = s.parentOf := by
        unfold parentOf
        rw [hs'.keeps.parents]
      have hwalk :=
        walkUp_within (s := s') (fun id => s'.byTask.lookup id) (s'.parents.lookup task)
      unfold Loops Acyclic at hwalk
      rw [hparents] at hwalk
      apply Within.bind hwalk
      intro parent _
      rcases submit_cases s' parent task answer grantId 1 with ⟨e, he⟩ |
        ⟨node, s'', hok, htask, -, hf, hg⟩
      · rw [he]
        cases e <;> exact .settled hnot hs'
      · rw [hok]
        exact .grown hnot hs' htask hf hg

/-- What `cancelTaskTree` does: the linked tasks are marked and their nodes are terminal. -/
structure Drains (tasks : TaskId → Prop) (s s' : Scheduler) : Prop where
  inv : Inv s'
  keeps : Keeps (Settles (fun _ => True) .cancelled) s s'
  cancelledTasks : ∀ t, t ∈ s'.cancelledTasks ↔ t ∈ s.cancelledTasks ∨ tasks t
  dead : ∀ t, tasks t → ∀ i, s.byTask.lookup t = some i → s'.isLive i = false

theorem Drains.refl (hinv : Inv s) : Drains (· ∈ ([] : List TaskId)) s s :=
  ⟨hinv, Keeps.refl (fun _ _ => .inl rfl) s, by simp, by simp⟩

theorem Drains.mark {s0 : Scheduler} {seen : List TaskId} (h : Drains (· ∈ seen) s0 s)
    (task : TaskId) :
    let marked := { s with
      cancelledTasks := if task ∈ s.cancelledTasks then s.cancelledTasks
        else task :: s.cancelledTasks }
    Inv marked ∧ Keeps (Settles (fun _ => True) .cancelled) s0 marked ∧
      (∀ t, t ∈ marked.cancelledTasks ↔ t ∈ s0.cancelledTasks ∨ t ∈ seen ++ [task]) := by
  obtain ⟨⟨hb, hq, hs, hw⟩, hk, hc, -⟩ := h
  refine ⟨⟨⟨hb.running_eq, hb.running_le, hb.held_eq, hb.held_le⟩, ⟨hq.nodup, hq.mem_iff⟩,
    ⟨hs.parent_lt, hs.mem_children, hs.nodup, hs.byTask⟩, ⟨hw.count, hw.waiting⟩⟩,
    ⟨hk.fixed, hk.state, hk.parents, hk.linkage, hk.byTask, hk.maxSlots, hk.resourceCap⟩, ?_⟩
  intro t
  have hiff : t ∈ (if task ∈ s.cancelledTasks then s.cancelledTasks
      else task :: s.cancelledTasks) ↔ t ∈ s.cancelledTasks ∨ t = task := by
    split
    · rename_i hmem
      constructor
      · exact .inl
      · rintro (h | rfl)
        · exact h
        · exact hmem
    · simp [or_comm]
  rw [hiff, hc, mem_append, mem_singleton, or_assoc]

theorem cancelTask_within {E : Fault → Prop} {s0 : Scheduler} {seen : List TaskId}
    {ids : List NodeId} (h : Drains (· ∈ seen) s0 s) (task : TaskId) :
    Within E (fun acc => Drains (· ∈ seen ++ [task]) s0 acc.1 ∧ ∃ ids, acc.2 = .ok ids)
      (cancelTask (s, .ok ids) task) := by
  obtain ⟨hinv, hkeeps, hcancelled⟩ := h.mark task
  simp only [cancelTask]
  cases hroot : s.byTask.lookup task with
  | none =>
    refine ⟨⟨hinv, hkeeps, hcancelled, fun t ht i hi => ?_⟩, ids, rfl⟩
    rcases mem_append.mp ht with ht | ht
    · exact h.dead t ht i hi
    · rw [← h.keeps.byTask, mem_singleton.mp ht, hroot] at hi
      simp at hi
  | some root =>
    obtain ⟨n, hn, -⟩ := hinv.shape.byTask task root hroot
    have hlt := (List.getElem?_eq_some_iff.mp hn).1
    apply Within.bind (cancelTree_within hinv root)
    rintro ⟨s', r⟩ ⟨hc, hdead, hok⟩
    obtain ⟨more, rfl⟩ := hok hlt
    refine ⟨⟨hc.inv, hkeeps.settle_trans rfl hc.keeps, ?_, fun t ht i hi => ?_⟩, _, rfl⟩
    · intro t
      rw [hc.cancelledTasks]
      exact hcancelled t
    · rcases mem_append.mp ht with ht | ht
      · by_contra hlive
        have hbefore : s.isLive i := hc.moves.keeps.isLive (by simpa using hlive)
        simp [h.dead t ht i hi] at hbefore
      · rw [← h.keeps.byTask, mem_singleton.mp ht, hroot] at hi
        obtain rfl := Option.some.inj hi
        exact hdead

theorem under_linkage (hlinked : Linked s) (task t : TaskId) :
    Under s.linkage task t ↔ s.LinkedUnder t task := by
  unfold LinkedUnder
  rw [← Relation.reflTransGen_swap]
  have hrel : (fun p c => (c, p) ∈ s.linkage) = Function.swap (Follows s.parentOf) := by
    funext p c
    exact propext (hlinked c p)
  rw [Under, hrel]

theorem cancelTaskTree_within {E : Fault → Prop} (hinv : Inv s) (hlinked : Linked s)
    (task : TaskId) :
    Within E (fun r => Drains (s.LinkedUnder · task) s r.1 ∧ ∃ ids, r.2 = .ok ids)
      (s.cancelTaskTree task) := by
  obtain ⟨subtree, hsweep, hmem⟩ : ∃ l, sweep s.linkage (s.linkage.length + 1) 0 [task] = some l ∧
      ∀ t, t ∈ l ↔ Under s.linkage task t := sweep_spec task
  have hsubtree : s.taskSubtree task = .ok subtree := by simp [taskSubtree, hsweep]
  simp only [cancelTaskTree, hsubtree, ok_bind]
  have hloop : Within E (fun acc => Drains (· ∈ subtree) s acc.1 ∧ ∃ ids, acc.2 = .ok ids)
      (subtree.foldlM cancelTask (s, .ok [])) := by
    apply Within.foldlM fun seen (acc : Scheduler × Except SchedulerError (List NodeId)) =>
      Drains (· ∈ seen) s acc.1 ∧ ∃ ids, acc.2 = .ok ids
    · rintro seen t ⟨s', r⟩ - ⟨h, ids, rfl⟩
      exact cancelTask_within h t
    · exact ⟨Drains.refl hinv, [], rfl⟩
  apply hloop.imp
  rintro acc ⟨h, hok⟩
  have hiff : ∀ t, s.LinkedUnder t task ↔ t ∈ subtree := fun t =>
    (under_linkage hlinked task t).symm.trans (hmem t).symm
  refine ⟨⟨h.inv, h.keeps, fun t => ?_, fun t ht => h.dead t ((hiff t).mp ht)⟩, hok⟩
  rw [h.cancelledTasks, hiff]

end Rivect.Scheduler
