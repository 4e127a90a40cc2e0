import Rivect.Scheduler.Model
import Rivect.Lib.Fallible
import Rivect.Lib.Tally

/-! # What every call keeps

Four invariants: the counters agree with the nodes (`Books`), the queue lists the ready nodes
(`Queue`), parents and children name each other (`Shape`) and every live node counts its
live children (`Waits`). A call ends nodes before it settles a parent, so `Waits` carries
the one settlement that is still owed.
-/

namespace Rivect

open Lib

namespace Node

def isRunning (n : Node) : Bool := n.state = .running

def isLive (n : Node) : Bool := !n.state.isTerminal

/-- All of a node but its state and its count of unfinished children. -/
def fixed (n : Node) : TaskId × AnswerSelection × String × Option NodeId × List NodeId × ℕ :=
  (n.task, n.answer, n.grantId, n.parent, n.children, n.resourceUnits)

def setState (n : Node) (state : NodeState) : Node := { n with state := state }

@[simp] theorem setState_state (n : Node) (state : NodeState) : (n.setState state).state = state :=
  rfl

@[simp] theorem setState_fixed (n : Node) (state : NodeState) :
    (n.setState state).fixed = n.fixed := rfl

@[simp] theorem setState_unfinishedChildren (n : Node) (state : NodeState) :
    (n.setState state).unfinishedChildren = n.unfinishedChildren := rfl

theorem fixed_eq {n n' : Node} (h : n'.fixed = n.fixed) :
    n'.task = n.task ∧ n'.parent = n.parent ∧ n'.children = n.children ∧
      n'.resourceUnits = n.resourceUnits := by
  simp only [fixed, Prod.mk.injEq] at h
  exact ⟨h.1, h.2.2.2.1, h.2.2.2.2.1, h.2.2.2.2.2⟩

end Node

namespace Scheduler

def isLive (s : Scheduler) (i : NodeId) : Bool := (s.nodes[i]?).any Node.isLive

def liveChildren (s : Scheduler) (n : Node) : ℕ := n.children.countP s.isLive

theorem isLive_iff {s : Scheduler} {i : NodeId} :
    s.isLive i ↔ ∃ n : Node, s.nodes[i]? = some n ∧ n.isLive := by
  simp [isLive, Option.any_eq_true]

/-- The slots and the reserved units that the running nodes hold. -/
structure Books (s : Scheduler) : Prop where
  running_eq : s.running = tally Node.isRunning (fun _ => 1) s.nodes
  running_le : s.running ≤ s.maxSlots
  held_eq : s.heldUnits = tally Node.isRunning Node.resourceUnits s.nodes
  held_le : s.heldUnits ≤ s.resourceCap

structure Queue (s : Scheduler) : Prop where
  nodup : s.ready.Nodup
  mem_iff : ∀ i : NodeId, i ∈ s.ready ↔ ∃ n : Node, s.nodes[i]? = some n ∧ n.state = .ready

structure Shape (s : Scheduler) : Prop where
  parent_lt : ∀ (i : NodeId) (n : Node) (p : NodeId), s.nodes[i]? = some n → n.parent = some p → p < i
  mem_children : ∀ (p : NodeId) (m : Node), s.nodes[p]? = some m →
    ∀ c, c ∈ m.children ↔ ∃ n : Node, s.nodes[c]? = some n ∧ n.parent = some p
  nodup : ∀ (p : NodeId) (m : Node), s.nodes[p]? = some m → m.children.Nodup
  byTask : ∀ t i, s.byTask.lookup t = some i → ∃ n : Node, s.nodes[i]? = some n ∧ n.task = t

/-- Every live node counts its live children, and one more if its settlement is owed. -/
structure Waits (s : Scheduler) (owed : Option NodeId) : Prop where
  count : ∀ (p : NodeId) (m : Node), s.nodes[p]? = some m → m.isLive →
    m.unfinishedChildren = s.liveChildren m + if owed = some p then 1 else 0
  waiting : ∀ (p : NodeId) (m : Node), s.nodes[p]? = some m → m.state = .waiting → 0 < m.unfinishedChildren

structure Inv (s : Scheduler) : Prop where
  books : Books s
  queue : Queue s
  shape : Shape s
  waits : Waits s none

/-- How a settling call moves a state: nodes of `l` end, and a waiting node may wake. -/
def Settles (l : NodeId → Prop) (ended : NodeState) (i : NodeId) (a b : NodeState) : Prop :=
  a = b ∨ (l i ∧ a.isTerminal = false ∧ b = ended) ∨ (a = .waiting ∧ b = .ready)

theorem Settles.trans {l : NodeId → Prop} {ended : NodeState} (hended : ended.isTerminal)
    {i : NodeId} {a b c : NodeState} (h : Settles l ended i a b) (h' : Settles l ended i b c) :
    Settles l ended i a c := by
  rcases h with rfl | h | h
  · exact h'
  · rcases h' with rfl | h' | h'
    · exact .inr (.inl h)
    · simp [h.2.2, hended] at h'
    · simp [h.2.2.symm.trans h'.1, NodeState.isTerminal] at hended
  · rcases h' with rfl | h' | h'
    · exact .inr (.inr h)
    · exact .inr (.inl ⟨h'.1, by simp [h.1, NodeState.isTerminal], h'.2.2⟩)
    · exact .inr (.inr ⟨h.1, h'.2⟩)

/-- All of a node is kept but its state, which moves within `R`, and its count. -/
structure Keeps (R : NodeId → NodeState → NodeState → Prop) (s s' : Scheduler) : Prop where
  fixed : ∀ i : NodeId, (s'.nodes[i]?).map Node.fixed = (s.nodes[i]?).map Node.fixed
  state : ∀ (i : NodeId) (n n' : Node), s.nodes[i]? = some n → s'.nodes[i]? = some n' →
    R i n.state n'.state
  parents : s'.parents = s.parents
  linkage : s'.linkage = s.linkage
  byTask : s'.byTask = s.byTask
  maxSlots : s'.maxSlots = s.maxSlots
  resourceCap : s'.resourceCap = s.resourceCap

variable {R : NodeId → NodeState → NodeState → Prop}

theorem Keeps.node {s s' : Scheduler} (h : Keeps R s s') {i : NodeId} {n : Node}
    (hn : s.nodes[i]? = some n) : ∃ n', s'.nodes[i]? = some n' ∧ n'.fixed = n.fixed := by
  have := h.fixed i
  rw [hn] at this
  simpa using this

theorem Keeps.node_before {s s' : Scheduler} (h : Keeps R s s') {i : NodeId} {n' : Node}
    (hn : s'.nodes[i]? = some n') : ∃ n, s.nodes[i]? = some n ∧ n'.fixed = n.fixed := by
  have := h.fixed i
  rw [hn] at this
  obtain ⟨n, hn, he⟩ := Option.map_eq_some_iff.mp this.symm
  exact ⟨n, hn, he.symm⟩

theorem Keeps.refl (hR : ∀ i a, R i a a) (s : Scheduler) : Keeps R s s where
  fixed _ := rfl
  state i n n' hn hn' := by
    obtain rfl : n = n' := Option.mem_unique hn hn'
    exact hR i n.state
  parents := rfl
  linkage := rfl
  byTask := rfl
  maxSlots := rfl
  resourceCap := rfl

theorem Keeps.trans (hR : ∀ i a b c, R i a b → R i b c → R i a c) {s s' s'' : Scheduler}
    (h : Keeps R s s') (h' : Keeps R s' s'') : Keeps R s s'' where
  fixed i := (h'.fixed i).trans (h.fixed i)
  state i n n'' hn hn'' := by
    obtain ⟨n', hn', -⟩ := h.node hn
    exact hR i _ _ _ (h.state i n n' hn hn') (h'.state i n' n'' hn' hn'')
  parents := h'.parents.trans h.parents
  linkage := h'.linkage.trans h.linkage
  byTask := h'.byTask.trans h.byTask
  maxSlots := h'.maxSlots.trans h.maxSlots
  resourceCap := h'.resourceCap.trans h.resourceCap

theorem Keeps.mono {R' : NodeId → NodeState → NodeState → Prop}
    (hR : ∀ i a b, R i a b → R' i a b) {s s' : Scheduler} (h : Keeps R s s') : Keeps R' s s' :=
  { h with state := fun i n n' hn hn' => hR i _ _ (h.state i n n' hn hn') }

theorem Keeps.settle_trans {l : NodeId → Prop} {ended : NodeState} (hended : ended.isTerminal)
    {s s' s'' : Scheduler} (h : Keeps (Settles l ended) s s')
    (h' : Keeps (Settles l ended) s' s'') : Keeps (Settles l ended) s s'' :=
  Keeps.trans (R := Settles l ended) (fun _ _ _ _ hab hbc => hab.trans hended hbc) h h'

/-- A terminal state is final. -/
def Frozen (_ : NodeId) (a b : NodeState) : Prop := a.isTerminal → b = a

theorem Settles.frozen {l : NodeId → Prop} {ended : NodeState} {i : NodeId} {a b : NodeState}
    (h : Settles l ended i a b) : Frozen i a b := by
  intro ha
  rcases h with rfl | h | h
  · rfl
  · simp [h.2.1] at ha
  · simp [h.1, NodeState.isTerminal] at ha

theorem Keeps.isLive {s s' : Scheduler} (hk : Keeps Frozen s s') {i : NodeId}
    (hi : s'.isLive i) : s.isLive i := by
  obtain ⟨n', hn', hlive⟩ := isLive_iff.mp hi
  obtain ⟨n, hn, -⟩ := hk.node_before hn'
  refine isLive_iff.mpr ⟨n, hn, ?_⟩
  by_contra hdead
  have hterminal : n.state.isTerminal := by simpa [Node.isLive] using hdead
  have := hk.state i n n' hn hn' hterminal
  simp [Node.isLive, this, hterminal] at hlive

theorem Shape.keeps {s s' : Scheduler} (h : Shape s) (hk : Keeps R s s') : Shape s' where
  parent_lt i n' p hn' hp := by
    obtain ⟨n, hn, he⟩ := hk.node_before hn'
    exact h.parent_lt i n p hn ((Node.fixed_eq he).2.1 ▸ hp)
  mem_children p m' hm' c := by
    obtain ⟨m, hm, he⟩ := hk.node_before hm'
    rw [(Node.fixed_eq he).2.2.1, h.mem_children p m hm c]
    constructor
    · intro hc
      obtain ⟨n, hn, hp⟩ := hc
      obtain ⟨n', hn', hn⟩ := hk.node hn
      exact ⟨n', hn', (Node.fixed_eq hn).2.1.trans hp⟩
    · intro hc
      obtain ⟨n', hn', hp⟩ := hc
      obtain ⟨n, hn, hn'⟩ := hk.node_before hn'
      exact ⟨n, hn, (Node.fixed_eq hn').2.1 ▸ hp⟩
  nodup p m' hm' := by
    obtain ⟨m, hm, he⟩ := hk.node_before hm'
    rw [(Node.fixed_eq he).2.2.1]
    exact h.nodup p m hm
  byTask t i hi := by
    rw [hk.byTask] at hi
    obtain ⟨n, hn, ht⟩ := h.byTask t i hi
    obtain ⟨n', hn', he⟩ := hk.node hn
    exact ⟨n', hn', (Node.fixed_eq he).1.trans ht⟩

section Requeue

/-! The queue aside, the invariants do not see the queue. -/

variable {s s' : Scheduler} (ready : List NodeId)

theorem Books.requeue (h : Books s) : Books { s with ready := ready } :=
  ⟨h.running_eq, h.running_le, h.held_eq, h.held_le⟩

theorem Shape.requeue (h : Shape s) : Shape { s with ready := ready } :=
  ⟨h.parent_lt, h.mem_children, h.nodup, h.byTask⟩

theorem Waits.requeue {owed : Option NodeId} (h : Waits s owed) :
    Waits { s with ready := ready } owed :=
  ⟨h.count, h.waiting⟩

theorem Keeps.requeue (h : Keeps R s s') : Keeps R s { s' with ready := ready } :=
  ⟨h.fixed, h.state, h.parents, h.linkage, h.byTask, h.maxSlots, h.resourceCap⟩

end Requeue

theorem inv_new (maxSlots resourceCap : ℕ) : Inv (new maxSlots resourceCap) where
  books := by constructor <;> simp [new]
  queue := by constructor <;> simp [new]
  shape := by constructor <;> simp [new]
  waits := by constructor <;> simp [new]

end Scheduler

end Rivect
