import Rivect.Scheduler.Settlement

/-! # Growing the tree and moving its live nodes

`submit` is the only way a node appears; admission, waiting and delivery move live nodes.
-/

namespace Rivect.Scheduler

open Lib List Option

variable {E : Fault → Prop} {s s' : Scheduler}

/-- A fresh ready node, hung under its parent if it names one. -/
structure Grows (node : Node) (s s' : Scheduler) : Prop where
  nodes : ∀ i : NodeId, s'.nodes[i]? =
    if i = s.nodes.length then some node
    else (s.nodes[i]?).map fun n =>
      if node.parent = some i then
        { n with
          children := n.children ++ [s.nodes.length]
          unfinishedChildren := n.unfinishedChildren + 1 }
      else n
  ready : s'.ready = s.ready ++ [s.nodes.length]
  byTask : s'.byTask = (node.task, s.nodes.length) :: s.byTask
  parents : s'.parents = s.parents
  linkage : s'.linkage = s.linkage
  cancelledTasks : s'.cancelledTasks = s.cancelledTasks
  maxSlots : s'.maxSlots = s.maxSlots
  resourceCap : s'.resourceCap = s.resourceCap
  books : Books s → Books s'

/-- What `submit` builds: no children yet, ready, and a parent that is still alive. -/
structure Fresh (s : Scheduler) (node : Node) : Prop where
  children : node.children = []
  unfinished : node.unfinishedChildren = 0
  state : node.state = .ready
  parent : ∀ p, node.parent = some p → s.isLive p

theorem pushNode_books (hb : Books s) {node : Node} (hstate : node.state = .ready) :
    Books (s.pushNode node) := by
  have htally : ∀ w : Node → ℕ,
      tally Node.isRunning w (s.nodes ++ [node]) = tally Node.isRunning w s.nodes := by
    intro w
    rw [tally_append, tally_cons, tally_nil, share_neg (by simp [Node.isRunning, hstate])]
    simp
  exact ⟨hb.running_eq.trans (htally _).symm, hb.running_le, hb.held_eq.trans (htally _).symm,
    hb.held_le⟩

theorem attachChild_books (hb : Books s) (parent : NodeId) : Books (s.attachChild parent) := by
  have htally : ∀ w : Node → ℕ, (∀ n : Node, ∀ c u,
      w { n with children := c, unfinishedChildren := u } = w n) →
      tally Node.isRunning w (s.attachChild parent).nodes = tally Node.isRunning w s.nodes := by
    intro w hw
    apply tally_modify_of_share
    intro n
    unfold share
    rw [hw]
    rfl
  exact ⟨hb.running_eq.trans (htally _ fun _ _ _ => rfl).symm, hb.running_le,
    hb.held_eq.trans (htally _ fun _ _ _ => rfl).symm, hb.held_le⟩

theorem getElem?_pushed (l : List Node) (node : Node) (i : NodeId) :
    (l ++ [node])[i]? = if i = l.length then some node else l[i]? := by
  by_cases hi : i = l.length
  · simp [hi]
  · rw [if_neg hi]
    rcases Nat.lt_or_gt_of_ne hi with h | h
    · exact getElem?_append_left h
    · rw [getElem?_eq_none (by simp; omega), getElem?_eq_none (by omega)]

theorem submit_cases (s : Scheduler) (parent : Option NodeId) (task : TaskId)
    (answer : AnswerSelection) (grantId : String) (units : ℕ) :
    (∃ e, s.submit parent task answer grantId units = (s, .error e)) ∨
      ∃ node s', s.submit parent task answer grantId units = (s', .ok s.nodes.length) ∧
        node.task = task ∧ node.parent = parent ∧ Fresh s node ∧ Grows node s s' := by
  let node : Node :=
    { task := task, answer := answer, grantId := grantId, parent := parent, children := [],
      unfinishedChildren := 0, resourceUnits := units, state := .ready }
  unfold submit
  split
  · exact .inl ⟨_, rfl⟩
  · cases parent with
    | none =>
      refine .inr ⟨node, _, rfl, rfl, rfl, ⟨rfl, rfl, rfl, by simp [node]⟩, ?_, rfl, rfl, rfl, rfl, rfl,
        rfl, rfl, ?_⟩
      · intro i
        simp only [node, pushNode, getElem?_pushed, reduceCtorEq, if_false, Option.map_id_fun',
          id_eq]
      · intro hb
        exact pushNode_books hb rfl
    | some p =>
      cases hn : s.nodes[p]? with
      | none => exact .inl ⟨.unknownNode p, by simp [nodeState, hn]⟩
      | some n =>
        by_cases hterminal : n.state.isTerminal
        · exact .inl ⟨.parentSettled p, by simp [nodeState, hn, hterminal]⟩
        · simp only [nodeState, hn, hterminal, Bool.false_eq_true, if_false]
          have hlen : (s.attachChild p).nodes.length = s.nodes.length := by simp [attachChild]
          refine .inr ⟨node, _, rfl, rfl, rfl, ⟨rfl, rfl, rfl, ?_⟩, ?_, ?_, ?_, rfl, rfl, rfl, rfl,
            rfl, ?_⟩
          · intro q hq
            obtain rfl : p = q := some.inj hq
            simp [isLive, hn, Node.isLive, hterminal]
          · intro i
            rw [pushNode, getElem?_pushed, hlen]
            by_cases hi : i = s.nodes.length
            · simp [hi, node]
            · simp only [node, hi, if_false, attachChild, getElem?_modify,
                some.injEq]
              rfl
          · change s.ready ++ [(s.attachChild p).nodes.length] = _
            rw [hlen]
          · change (task, (s.attachChild p).nodes.length) :: s.byTask = _
            rw [hlen]
          · intro hb
            exact pushNode_books (attachChild_books hb p) rfl

namespace Grows

variable {node : Node} (h : Grows node s s') (hf : Fresh s node)

include h

theorem self : s'.nodes[s.nodes.length]? = some node := by simp [h.nodes]

theorem old {i : NodeId} {n : Node} (hn : s.nodes[i]? = some n) : s'.nodes[i]? =
    some (if node.parent = some i then
        { n with
          children := n.children ++ [s.nodes.length]
          unfinishedChildren := n.unfinishedChildren + 1 }
      else n) := by
  have hne : i ≠ s.nodes.length := (List.getElem?_eq_some_iff.mp hn).1.ne
  simp [h.nodes, hne, hn]

/-- A node of the grown tree is the fresh one or has the state of an old one. -/
theorem cases {i : NodeId} {n' : Node} (hn' : s'.nodes[i]? = some n') :
    i = s.nodes.length ∧ n' = node ∨
      i ≠ s.nodes.length ∧ ∃ n, s.nodes[i]? = some n ∧ n'.state = n.state ∧
        n'.task = n.task ∧ n'.parent = n.parent ∧
        (if node.parent = some i then
          n'.children = n.children ++ [s.nodes.length] ∧
            n'.unfinishedChildren = n.unfinishedChildren + 1
        else n'.children = n.children ∧ n'.unfinishedChildren = n.unfinishedChildren) := by
  rw [h.nodes] at hn'
  by_cases hi : i = s.nodes.length
  · exact .inl ⟨hi, by simpa [hi, eq_comm] using hn'⟩
  · rw [if_neg hi] at hn'
    obtain ⟨n, hn, rfl⟩ := map_eq_some_iff.mp hn'
    refine .inr ⟨hi, n, hn, ?_⟩
    by_cases hp : node.parent = some i <;> simp [hp]

theorem isLive_old {i : NodeId} (hi : i ≠ s.nodes.length) : s'.isLive i = s.isLive i := by
  simp only [Scheduler.isLive, h.nodes, if_neg hi]
  cases s.nodes[i]? with
  | none => rfl
  | some n => by_cases hp : node.parent = some i <;> simp [hp, Node.isLive]

include hf

theorem isLive_self : s'.isLive s.nodes.length := by
  simp [Scheduler.isLive, h.self, Node.isLive, hf.state, NodeState.isTerminal]

theorem queue (hq : Queue s) : Queue s' := by
  have hnot : s.nodes.length ∉ s.ready := by
    intro hmem
    obtain ⟨n, hn, -⟩ := (hq.mem_iff _).mp hmem
    simp at hn
  constructor
  · rw [h.ready]
    refine nodup_append.mpr ⟨hq.nodup, by simp, ?_⟩
    rintro a ha b hb rfl
    exact hnot (mem_singleton.mp hb ▸ ha)
  · intro i
    rw [h.ready, mem_append, hq.mem_iff, mem_singleton]
    by_cases hi : i = s.nodes.length
    · subst hi
      simp [h.self, hf.state]
    · simp only [hi, or_false]
      constructor
      · rintro ⟨n, hn, hready⟩
        exact ⟨_, h.old hn, by split <;> exact hready⟩
      · rintro ⟨n', hn', hready⟩
        rcases h.cases hn' with ⟨he, -⟩ | ⟨-, n, hn, hstate, -⟩
        · exact absurd he hi
        · exact ⟨n, hn, hstate ▸ hready⟩

omit h in
theorem parent_lt {p : NodeId} (hp : node.parent = some p) : p < s.nodes.length := by
  obtain ⟨n, hn, -⟩ := isLive_iff.mp (hf.parent p hp)
  exact (List.getElem?_eq_some_iff.mp hn).1

theorem shape (hs : Shape s) : Shape s' := by
  constructor
  · intro i n' p hn' hp
    rcases h.cases hn' with ⟨rfl, rfl⟩ | ⟨-, n, hn, -, -, hparent, -⟩
    · exact parent_lt hf hp
    · exact hs.parent_lt i n p hn (hparent ▸ hp)
  · intro p m' hm' c
    have hiff : (∃ n', s'.nodes[c]? = some n' ∧ n'.parent = some p) ↔
        if c = s.nodes.length then node.parent = some p
        else ∃ n, s.nodes[c]? = some n ∧ n.parent = some p := by
      by_cases hc : c = s.nodes.length
      · simp [hc, h.self]
      · rw [if_neg hc]
        constructor
        · rintro ⟨n', hn', hp⟩
          rcases h.cases hn' with ⟨he, -⟩ | ⟨-, n, hn, -, -, hparent, -⟩
          · exact absurd he hc
          · exact ⟨n, hn, hparent ▸ hp⟩
        · rintro ⟨n, hn, hp⟩
          exact ⟨_, h.old hn, by split <;> exact hp⟩
    rw [hiff]
    rcases h.cases hm' with ⟨rfl, rfl⟩ | ⟨hne, m, hm, -, -, -, hchildren⟩
    · simp only [hf.children, not_mem_nil, false_iff]
      split
      · exact fun hp => (parent_lt hf hp).ne rfl
      · rintro ⟨n, hn, hp⟩
        have := hs.parent_lt c n _ hn hp
        exact Nat.lt_asymm this (List.getElem?_eq_some_iff.mp hn).1
    · have hold := hs.mem_children p m hm c
      have hfresh : c = s.nodes.length → c ∉ m.children := by
        rintro rfl hc
        obtain ⟨n, hn, -⟩ := (hs.mem_children p m hm _).mp hc
        simp at hn
      by_cases hp : node.parent = some p
      · rw [if_pos hp] at hchildren
        by_cases hc : c = s.nodes.length <;> simp [hchildren.1, hc, hp, hold]
      · rw [if_neg hp] at hchildren
        by_cases hc : c = s.nodes.length
        · simp only [hchildren.1, hc, if_true, hp, iff_false]
          exact hc ▸ hfresh hc
        · simp [hchildren.1, hc, hold]
  · intro p m' hm'
    rcases h.cases hm' with ⟨rfl, rfl⟩ | ⟨hne, m, hm, -, -, -, hchildren⟩
    · simp [hf.children]
    · have hnodup := hs.nodup p m hm
      by_cases hp : node.parent = some p
      · rw [if_pos hp] at hchildren
        rw [hchildren.1]
        refine nodup_append.mpr ⟨hnodup, by simp, ?_⟩
        rintro a ha b hb rfl
        obtain ⟨n, hn, -⟩ := (hs.mem_children p m hm a).mp ha
        simp [mem_singleton.mp hb] at hn
      · rw [if_neg hp] at hchildren
        rwa [hchildren.1]
  · intro t i hi
    rw [h.byTask, lookup_cons] at hi
    split at hi
    · rename_i ht
      obtain rfl := some.inj hi
      exact ⟨node, h.self, (by simpa using ht : t = node.task).symm⟩
    · obtain ⟨n, hn, htask⟩ := hs.byTask t i hi
      exact ⟨_, h.old hn, by split <;> exact htask⟩

theorem waits (hs : Shape s) (hw : Waits s none) : Waits s' none := by
  constructor
  · intro p m' hm' hlive
    rcases h.cases hm' with ⟨rfl, rfl⟩ | ⟨hne, m, hm, hstate, -, -, hchildren⟩
    · simp [hf.unfinished, liveChildren, hf.children]
    · have hold := hw.count p m hm (by simpa [Node.isLive, hstate] using hlive)
      have hcount : m.children.countP s'.isLive = s.liveChildren m := by
        apply countP_congr
        intro c hc
        obtain ⟨n, hn, -⟩ := (hs.mem_children p m hm c).mp hc
        rw [h.isLive_old (List.getElem?_eq_some_iff.mp hn).1.ne]
      by_cases hp : node.parent = some p
      · rw [if_pos hp] at hchildren
        simp [hchildren, hold, liveChildren, hcount, h.isLive_self hf]
      · rw [if_neg hp] at hchildren
        simp [hchildren, hold, liveChildren, hcount]
  · intro p m' hm' hwaiting
    rcases h.cases hm' with ⟨rfl, rfl⟩ | ⟨hne, m, hm, hstate, -, -, hchildren⟩
    · simp [hf.state] at hwaiting
    · have hpos := hw.waiting p m hm (hstate ▸ hwaiting)
      split at hchildren <;> omega

theorem inv (hinv : Inv s) : Inv s' :=
  ⟨h.books hinv.books, h.queue hf hinv.queue, h.shape hf hinv.shape,
    h.waits hf hinv.shape hinv.waits⟩

end Grows

section Live

/-! A live node moves between two live states. -/

variable {i : NodeId} {n : Node} (hn : s.nodes[i]? = some n) (hlive : n.isLive)

include hn hlive

theorem setState_keeps (state : NodeState) : Keeps Frozen s (s.setState i state) where
  fixed j := by
    rw [setState_nodes, Option.map_map]
    congr 1
    funext m
    by_cases hj : j = i <;> simp [hj]
  state j m m' hm hm' hterminal := by
    rw [setState_nodes, hm] at hm'
    obtain rfl := some.inj hm'
    by_cases hj : j = i
    · subst hj
      obtain rfl : n = m := mem_unique hn hm
      simp [Node.isLive, hterminal] at hlive
    · simp [hj]
  parents := rfl
  linkage := rfl
  byTask := rfl
  maxSlots := rfl
  resourceCap := rfl

variable (state : NodeState) (hstate : state.isTerminal = false)

include hstate

theorem setState_isLive (j : NodeId) : (s.setState i state).isLive j = s.isLive j := by
  unfold isLive
  rw [setState_nodes]
  by_cases hj : j = i
  · subst hj
    simpa [hn, Node.isLive, hstate] using hlive
  · simp [hj]

theorem setState_waits (hw : Waits s none)
    (hpos : state = .waiting → 0 < n.unfinishedChildren) : Waits (s.setState i state) none := by
  have hcases : ∀ (p : NodeId) (m' : Node), (s.setState i state).nodes[p]? = some m' →
      ∃ m : Node, s.nodes[p]? = some m ∧ m'.children = m.children ∧
        m'.unfinishedChildren = m.unfinishedChildren ∧ (m'.isLive → m.isLive) ∧
        (m'.state = .waiting → m.state = .waiting ∨ p = i ∧ state = .waiting) := by
    intro p m' hm'
    rw [setState_nodes] at hm'
    obtain ⟨m, hm, rfl⟩ := map_eq_some_iff.mp hm'
    refine ⟨m, hm, ?_⟩
    by_cases hp : p = i
    · subst hp
      obtain rfl : n = m := mem_unique hn hm
      simp only [mem_singleton, if_true, Node.setState_state]
      exact ⟨rfl, rfl, fun _ => hlive, fun h => .inr ⟨trivial, h⟩⟩
    · simp [hp]
  constructor
  · intro p m' hm' hml
    obtain ⟨m, hm, hchildren, hunf, hlive', -⟩ := hcases p m' hm'
    rw [hunf, hw.count p m hm (hlive' hml)]
    unfold liveChildren
    rw [hchildren, funext (setState_isLive hn hlive state hstate)]
  · intro p m' hm' hwaiting
    obtain ⟨m, hm, -, hunf, -, hw'⟩ := hcases p m' hm'
    rw [hunf]
    rcases hw' hwaiting with hmw | ⟨rfl, hst⟩
    · exact hw.waiting p m hm hmw
    · obtain rfl : n = m := mem_unique hn hm
      exact hpos hst

end Live

/-- A call that grows no node and leaves the invariants in place. -/
structure Moves (s s' : Scheduler) : Prop where
  inv : Inv s'
  keeps : Keeps Frozen s s'
  cancelledTasks : s'.cancelledTasks = s.cancelledTasks

theorem EndsNode.moves {i : NodeId} {ended : NodeState} (h : EndsNode i ended s s') : Moves s s' :=
  ⟨h.inv, h.keeps.mono fun _ _ _ => Settles.frozen, h.cancelledTasks⟩

theorem Cancels.moves (h : Cancels s s') : Moves s s' :=
  ⟨h.inv, h.keeps.mono fun _ _ _ => Settles.frozen, h.cancelledTasks⟩

/-- A call that ends no node either. -/
structure Shifts (s s' : Scheduler) : Prop extends Moves s s' where
  isLive : ∀ i, s'.isLive i = s.isLive i

theorem Shifts.refl (hinv : Inv s) : Shifts s s :=
  ⟨⟨hinv, Keeps.refl (R := Frozen) (fun _ _ _ => rfl) s, rfl⟩, fun _ => rfl⟩

/-- Parents have smaller ids, so the walk to the root never runs out. -/
theorem scopeChain_returns (hs : Shape s) {node : NodeId} (hnode : node < s.nodes.length) :
    ∃ chain, s.scopeChain node = .ok chain := by
  have hwalk : ∀ n id chain, id < n → id < s.nodes.length →
      ∃ scopes, scopeChain.walk s n (some id) chain = .ok scopes := by
    intro n
    induction n with
    | zero => intro id chain hid; omega
    | succ n ih =>
      intro id chain hid hlen
      have hm : s.nodes[id]? = some s.nodes[id] := getElem?_eq_getElem hlen
      simp only [scopeChain.walk, nodeAt, hm, ok_bind]
      cases hp : (s.nodes[id]).parent with
      | none => exact ⟨_, by simp [scopeChain.walk]; rfl⟩
      | some p =>
        have hlt := hs.parent_lt id _ p hm hp
        exact ih p _ (Nat.lt_of_lt_of_le hlt (Nat.lt_succ_iff.mp hid)) (hlt.trans hlen)
  exact hwalk _ node [] (Nat.lt_succ_of_lt hnode) hnode

theorem admitNextBounded_within (hinv : Inv s) (reserve : List TaskId → ℕ → Bool) :
    Within E (fun r => Shifts s r.1) (s.admitNextBounded reserve) := by
  unfold admitNextBounded
  cases hready : s.ready with
  | nil => exact Shifts.refl hinv
  | cons node rest =>
    obtain ⟨n, hn, hstate⟩ := (hinv.queue.mem_iff node).mp (by simp [hready])
    have hlive : n.isLive := by simp [Node.isLive, hstate, NodeState.isTerminal]
    simp only [nodeAt, hn, ok_bind]
    split
    · exact Shifts.refl hinv
    split
    · exact Shifts.refl hinv
    obtain ⟨chain, hchain⟩ :=
      scopeChain_returns hinv.shape (List.getElem?_eq_some_iff.mp hn).1
    rw [hchain, ok_bind]
    split
    · rename_i hslots hcap _
      have hkeeps := setState_keeps hn hlive .running
      have hrun := tally_setState (w := fun _ => 1) (fun _ _ => rfl) hn .running
      have hheld := tally_setState (w := Node.resourceUnits) (fun _ _ => rfl) hn .running
      simp only [hstate, reduceCtorEq, if_false, if_true] at hrun hheld
      obtain ⟨⟨hr, hrl, hh, hhl⟩, hq, hs, hw⟩ := hinv
      refine ⟨⟨⟨⟨?_, ?_, ?_, ?_⟩, ?_, ?_, ?_⟩, ?_, rfl⟩, setState_isLive hn hlive .running rfl⟩
      · change s.running + 1 = tally _ _ (s.setState node .running).nodes
        omega
      · change s.running + 1 ≤ s.maxSlots
        omega
      · change s.heldUnits + n.resourceUnits = tally _ _ (s.setState node .running).nodes
        omega
      · change s.heldUnits + n.resourceUnits ≤ s.resourceCap
        omega
      · have hnodup := hready ▸ hq.nodup
        refine hq.without .running (by simp) (fun j => setState_nodes s node j .running) ?_ ?_
        · exact (nodup_cons.mp hnodup).2
        · intro j
          rw [hready, mem_cons]
          constructor
          · intro hj
            refine ⟨.inr hj, ?_⟩
            rintro rfl
            exact (nodup_cons.mp hnodup).1 hj
          · rintro ⟨hj, hne⟩
            exact hj.resolve_left hne
      · have h := hs.keeps hkeeps
        exact ⟨h.parent_lt, h.mem_children, h.nodup, h.byTask⟩
      · have h := setState_waits hn hlive .running rfl hw (by simp)
        exact ⟨h.count, h.waiting⟩
      · exact ⟨hkeeps.fixed, hkeeps.state, rfl, rfl, rfl, rfl, rfl⟩
    · exact Shifts.refl hinv

theorem beginWait_within (hinv : Inv s) (node : NodeId) :
    Within E (fun r => Shifts s r.1) (s.beginWait node) := by
  unfold beginWait
  cases hn : s.nodes[node]? with
  | none => exact Shifts.refl hinv
  | some n =>
    by_cases hstate : n.state = .running
    · have hlive := isLive_of_running hstate
      by_cases hunf : n.unfinishedChildren = 0
      · simpa [hstate, hunf] using Shifts.refl hinv
      · have hkeeps := setState_keeps hn hlive .waiting
        have hrun := tally_setState (w := fun _ => 1) (fun _ _ => rfl) hn .waiting
        have hheld := tally_setState (w := Node.resourceUnits) (fun _ _ => rfl) hn .waiting
        simp only [hstate, reduceCtorEq, if_false, if_true] at hrun hheld
        have hready := hinv.queue.mem_of_not_ready hn (by simp [hstate])
        obtain ⟨⟨hr, hrl, hh, hhl⟩, hq, hs, hw⟩ := hinv
        have hok : (s.setState node .waiting).release n.resourceUnits =
            .ok { s.setState node .waiting with
              running := s.running - 1, heldUnits := s.heldUnits - n.resourceUnits } := by
          apply if_neg
          change ¬ (s.running = 0 ∨ s.heldUnits < n.resourceUnits)
          omega
        simp only [hstate, ne_eq, not_true_eq_false, if_false, hunf, hok, ok_bind, Within.ok_iff]
        refine ⟨⟨⟨⟨?_, ?_, ?_, ?_⟩, ?_, ?_, ?_⟩, ?_, rfl⟩, setState_isLive hn hlive .waiting rfl⟩
        · change s.running - 1 = tally _ _ (s.setState node .waiting).nodes
          omega
        · change s.running - 1 ≤ s.maxSlots
          omega
        · change s.heldUnits - n.resourceUnits = tally _ _ (s.setState node .waiting).nodes
          omega
        · change s.heldUnits - n.resourceUnits ≤ s.resourceCap
          omega
        · exact hq.without .waiting (by simp) (fun j => setState_nodes s node j .waiting)
            hq.nodup hready
        · have h := hs.keeps hkeeps
          exact ⟨h.parent_lt, h.mem_children, h.nodup, h.byTask⟩
        · have h := setState_waits hn hlive .waiting rfl hw
            (fun _ => Nat.pos_of_ne_zero hunf)
          exact ⟨h.count, h.waiting⟩
        · exact ⟨hkeeps.fixed, hkeeps.state, rfl, rfl, rfl, rfl, rfl⟩
    · simpa [hstate] using Shifts.refl hinv

theorem deliver_within (hinv : Inv s) (event : Event) :
    Within E (fun r => Shifts s r.1) (s.deliver event) := by
  unfold deliver
  cases event.taskId with
  | none => exact Shifts.refl hinv
  | some task =>
    cases hnode : s.byTask.lookup task with
    | none => simpa [hnode] using Shifts.refl hinv
    | some node =>
      obtain ⟨n, hn, -⟩ := hinv.shape.byTask task node hnode
      simp only [hnode, nodeAt, hn, ok_bind]
      split
      · exact ⟨(EndsNode.late hinv node .cancelled _).moves, fun _ => rfl⟩
      · exact Shifts.refl hinv

end Rivect.Scheduler
