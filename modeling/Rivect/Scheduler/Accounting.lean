import Rivect.Scheduler.Tasks
import Rivect.Lib.Run

/-! # The accounting over all runs

One call of any kind keeps the invariants, so every reached state has them.
-/

namespace Rivect.Scheduler

open Lib

variable {s s' : Scheduler} {maxSlots cap : ℕ}

/-- The state of a scheduler that was made with these two caps. -/
structure Good (maxSlots cap : ℕ) (s : Scheduler) : Prop where
  inv : Inv s
  linked : Linked s
  maxSlots_eq : s.maxSlots = maxSlots
  resourceCap_eq : s.resourceCap = cap

theorem good_new (maxSlots cap : ℕ) : Good maxSlots cap (new maxSlots cap) :=
  ⟨inv_new maxSlots cap, by intro c p; simp [new, parentOf], rfl, rfl⟩

theorem Linked.congr (h : Linked s) (hl : s'.linkage = s.linkage) (hp : s'.parents = s.parents) :
    Linked s' := by
  intro c p
  rw [hl, parentOf, hp]
  exact h c p

theorem Good.keeps {R : NodeId → NodeState → NodeState → Prop} (h : Good maxSlots cap s)
    (hinv : Inv s') (hk : Keeps R s s') : Good maxSlots cap s' :=
  ⟨hinv, h.linked.congr hk.linkage hk.parents, hk.maxSlots.trans h.maxSlots_eq,
    hk.resourceCap.trans h.resourceCap_eq⟩

theorem Good.grows {node : Node} (h : Good maxSlots cap s) (hf : Fresh s node)
    (hg : Grows node s s') : Good maxSlots cap s' :=
  ⟨hg.inv hf h.inv, h.linked.congr hg.linkage hg.parents, hg.maxSlots.trans h.maxSlots_eq,
    hg.resourceCap.trans h.resourceCap_eq⟩

theorem adopt_parentOf (s : Scheduler) (task parent t : TaskId) :
    (s.adopt task parent).parentOf t =
      if t = task ∧ s.parentOf task = none then some parent else s.parentOf t := by
  unfold adopt parentOf
  cases h : s.parents.lookup task with
  | some p => simp
  | none =>
    by_cases ht : t = task
    · simp [ht]
    · simp [ht, List.lookup_cons, beq_eq_false_iff_ne.mpr ht]

theorem adopt_good (h : Good maxSlots cap s) (task parent : TaskId) :
    Good maxSlots cap (s.adopt task parent) := by
  have hparentOf := adopt_parentOf s task parent
  cases hold : s.parentOf task with
  | some p =>
    have hsame : s.adopt task parent = s := if_pos (by rw [← parentOf, hold]; rfl)
    rwa [hsame]
  | none =>
    have hnew : s.adopt task parent = { s with
        parents := (task, parent) :: s.parents
        linkage := s.linkage ++ [(task, parent)] } := if_neg (by rw [← parentOf, hold]; simp)
    obtain ⟨⟨hb, hq, hs, hw⟩, hlinked, hmax, hcap⟩ := h
    refine ⟨?_, fun c p => ?_, ?_, ?_⟩
    · rw [hnew]
      exact ⟨⟨hb.running_eq, hb.running_le, hb.held_eq, hb.held_le⟩, ⟨hq.nodup, hq.mem_iff⟩,
        ⟨hs.parent_lt, hs.mem_children, hs.nodup, hs.byTask⟩, ⟨hw.count, hw.waiting⟩⟩
    · rw [hparentOf, hold]
      have hmem : (c, p) ∈ (s.adopt task parent).linkage ↔
          (c, p) ∈ s.linkage ∨ c = task ∧ p = parent := by simp [hnew]
      rw [hmem, hlinked]
      by_cases hc : c = task
      · subst hc
        simp [hold, eq_comm]
      · simp [hc]
    · rw [hnew]
      exact hmax
    · rw [hnew]
      exact hcap

/-- All that a call can do to the state. -/
inductive Effect (s : Scheduler) : Op → Scheduler → Prop
  | submits {parent : Option NodeId} {task : TaskId} {answer : AnswerSelection} {grantId : String}
      {units : ℕ} {node : Node} {s' : Scheduler} (hf : Fresh s node) (hg : Grows node s s') :
      Effect s (.submit parent task answer grantId units) s'
  | answers {task : TaskId} {answer : AnswerSelection} {grantId : String}
      {r : Scheduler × Except SchedulerError (Option NodeId)} (h : Answers task s r) :
      Effect s (.submitAnswered task answer grantId) r.1
  | adopts (task parent : TaskId) : Effect s (.adopt task parent) (s.adopt task parent)
  | drains {task : TaskId} {s' : Scheduler} (h : Drains (s.LinkedUnder · task) s s') :
      Effect s (.cancelTaskTree task) s'
  | moves {op : Op} {s' : Scheduler} (hop : ∀ t, op ≠ .cancelTaskTree t) (h : Moves s s') :
      Effect s op s'

theorem effect_within (h : Good maxSlots cap s) (op : Op) :
    Within s.Loops (Effect s op) (s.after op) := by
  have hinv := h.inv
  cases op with
  | submit parent task answer grantId units =>
    rcases submit_cases s parent task answer grantId units with ⟨e, he⟩ |
      ⟨node, s', hok, -, -, hf, hg⟩
    · simpa [after, he] using Effect.moves (by simp) (Shifts.refl hinv).toMoves
    · simpa [after, hok] using Effect.submits hf hg
  | submitAnswered task answer grantId =>
    apply Within.bind (submitAnswered_within hinv task answer grantId)
    intro r hr
    exact .answers hr
  | adopt task parent => exact .adopts task parent
  | admitNext =>
    apply Within.bind (admitNextBounded_within hinv fun _ _ => true)
    intro r hr
    exact .moves (by simp) hr.toMoves
  | admitNextBounded reserve =>
    apply Within.bind (admitNextBounded_within hinv reserve)
    intro r hr
    exact .moves (by simp) hr.toMoves
  | beginWait node =>
    apply Within.bind (beginWait_within hinv node)
    intro r hr
    exact .moves (by simp) hr.toMoves
  | complete node =>
    apply Within.bind (complete_within hinv node)
    intro r hr
    exact .moves (by simp) hr.moves
  | settle node =>
    apply Within.bind (settle_within hinv node)
    intro r hr
    exact .moves (by simp) hr.moves
  | cancelTree root =>
    apply Within.bind (cancelTree_within hinv root)
    intro r hr
    exact .moves (by simp) hr.1.moves
  | cancelTaskTree task =>
    apply Within.bind (cancelTaskTree_within hinv h.linked task)
    intro r hr
    exact .drains hr.1
  | deliver event =>
    apply Within.bind (deliver_within hinv event)
    intro r hr
    exact .moves (by simp) hr.toMoves

theorem Effect.good (h : Good maxSlots cap s) {op : Op} (he : Effect s op s') :
    Good maxSlots cap s' := by
  cases he with
  | submits hf hg => exact h.grows hf hg
  | answers ha =>
    cases ha with
    | refused => exact h
    | settled _ hr => exact h.keeps hr.inv hr.keeps
    | grown _ hr _ hf hg => exact (h.keeps hr.inv hr.keeps).grows hf hg
  | adopts task parent => exact adopt_good h task parent
  | drains hd => exact h.keeps hd.inv hd.keeps
  | moves _ hm => exact h.keeps hm.inv hm.keeps

theorem after_within (h : Good maxSlots cap s) (op : Op) :
    Within s.Loops (Good maxSlots cap) (s.after op) :=
  (effect_within h op).imp fun _ he => he.good h

theorem good_of_run {ops : List Op} (hrun : Run Calls (new maxSlots cap) ops s) :
    Good maxSlots cap s :=
  hrun.invariant (fun _ op _ h hcall => (after_within h op).of_ok hcall) (good_new maxSlots cap)

/-- The counters and the queue agree with the nodes in every reached state, and from there
the next call answers unless it walks up a cycle of recorded parents. -/
theorem accounting {ops : List Op} (hrun : Run Calls (new maxSlots cap) ops s) :
    s.running = s.nodes.countP (fun n => n.state = .running) ∧ s.running ≤ maxSlots ∧
      s.heldUnits =
        ((s.nodes.filter fun n => n.state = .running).map Node.resourceUnits).sum ∧
      s.heldUnits ≤ cap ∧
      (∀ i : NodeId, s.ready.count i =
        if (s.nodes[i]?).any fun n => n.state = .ready then 1 else 0) ∧
      ∀ op fault, s.after op = .error fault → fault = .diverges ∧ ¬ s.Acyclic := by
  have h := good_of_run hrun
  obtain ⟨hb, hq, -, -⟩ := h.inv
  refine ⟨?_, h.maxSlots_eq ▸ hb.running_le, hb.held_eq, h.resourceCap_eq ▸ hb.held_le, ?_, ?_⟩
  · rw [hb.running_eq, tally_one]
    rfl
  · intro i
    have hmem : i ∈ s.ready ↔ (s.nodes[i]?).any (fun n => n.state = .ready) := by
      simp [hq.mem_iff, Option.any_eq_true]
    simp only [hq.nodup.count, hmem]
  · intro op fault herror
    exact (after_within h op).of_error herror

theorem run_of_foldlM {ops : List Op} (h : ops.foldlM after s = .ok s') : Run Calls s ops s' :=
  Run.of_foldlM h

/-- The parent of a one-slot pair runs, waits and lets its child run. -/
theorem accounting_pair : ∃ s : Scheduler,
    Run Calls (new 1 4) [.submit none ⟨"parent"⟩ (.custom "go") "grant" 2, .admitNext,
      .submit (some 0) ⟨"child"⟩ (.custom "go") "grant" 3, .beginWait 0, .admitNext] s ∧
    s.heldUnits = 3 ∧ s.running = s.nodes.countP (fun n => n.state = .running) ∧
    s.ready.count 0 = 0 := by
  have hrun : Run Calls (new 1 4) [.submit none ⟨"parent"⟩ (.custom "go") "grant" 2, .admitNext,
      .submit (some 0) ⟨"child"⟩ (.custom "go") "grant" 3, .beginWait 0, .admitNext] _ :=
    run_of_foldlM rfl
  have h := accounting hrun
  exact ⟨_, hrun, rfl, h.1, h.2.2.2.2.1 0⟩

end Rivect.Scheduler
