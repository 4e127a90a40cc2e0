import Rivect.Scheduler.Invariant

/-! # Ending nodes and settling their parents

The four ways a node ends (`complete`, `settle`, `retire`, `cancelTree`) share two steps: a
set of nodes turns terminal, giving back what the running ones held, and the root of that
set settles its parent.
-/

namespace Rivect.Scheduler

open Lib List

variable {E : Fault → Prop} {s s' : Scheduler}

/-- The nodes of `l` have ended and, the counters and the queue aside, nothing else moved. -/
structure Ended (l : List NodeId) (ended : NodeState) (s s' : Scheduler) : Prop where
  nodes : ∀ i : NodeId,
    s'.nodes[i]? = (s.nodes[i]?).map fun n => if i ∈ l then n.setState ended else n
  parents : s'.parents = s.parents
  linkage : s'.linkage = s.linkage
  byTask : s'.byTask = s.byTask
  cancelledTasks : s'.cancelledTasks = s.cancelledTasks
  maxSlots : s'.maxSlots = s.maxSlots
  resourceCap : s'.resourceCap = s.resourceCap

theorem setState_nodes (s : Scheduler) (i j : NodeId) (state : NodeState) :
    (s.setState i state).nodes[j]? =
      (s.nodes[j]?).map fun n => if j ∈ [i] then n.setState state else n := by
  simp only [setState, getElem?_modify, mem_singleton, eq_comm (a := i)]
  rfl

theorem Ended.append {l l' : List NodeId} {ended : NodeState} {s'' : Scheduler}
    (h : Ended l ended s s') (h' : Ended l' ended s' s'') : Ended (l ++ l') ended s s'' where
  nodes i := by
    rw [h'.nodes, h.nodes, Option.map_map]
    congr 1
    funext n
    by_cases hl : i ∈ l <;> by_cases hl' : i ∈ l' <;> simp [hl, hl', Node.setState]
  parents := h'.parents.trans h.parents
  linkage := h'.linkage.trans h.linkage
  byTask := h'.byTask.trans h.byTask
  cancelledTasks := h'.cancelledTasks.trans h.cancelledTasks
  maxSlots := h'.maxSlots.trans h.maxSlots
  resourceCap := h'.resourceCap.trans h.resourceCap

theorem tally_setState {w : Node → ℕ} (hw : ∀ n state, w (n.setState state) = w n)
    {i : NodeId} {n : Node} (hn : s.nodes[i]? = some n) (state : NodeState) :
    tally Node.isRunning w (s.setState i state).nodes + (if n.state = .running then w n else 0) =
      tally Node.isRunning w s.nodes + (if state = .running then w n else 0) := by
  have hshare : ∀ m : Node,
      share Node.isRunning w m = if m.state = .running then w m else 0 := by
    intro m
    by_cases hm : m.state = .running <;> simp [share, Node.isRunning, hm]
  have h := tally_modify (p := Node.isRunning) (w := w) (fun n => n.setState state) hn
  rw [hshare, hshare, hw] at h
  exact h

theorem endNode_within {i : NodeId} {n : Node} (hb : Books s) (hn : s.nodes[i]? = some n)
    {ended : NodeState} (hended : ended.isTerminal) :
    Within E (fun s' => Books s' ∧ Ended [i] ended s s' ∧ s'.ready = s.ready) (s.endNode i ended) := by
  have hne : ended ≠ .running := by
    intro h
    simp [h, NodeState.isTerminal] at hended
  have hrun := tally_setState (w := fun _ => 1) (fun _ _ => rfl) hn ended
  have hheld := tally_setState (w := Node.resourceUnits) (fun _ _ => rfl) hn ended
  simp only [if_neg hne] at hrun hheld
  obtain ⟨hr, hrl, hh, hhl⟩ := hb
  simp only [endNode, nodeAt, hn, ok_bind]
  by_cases hst : n.state = .running
  · simp only [hst, if_true] at hrun hheld ⊢
    have hok : s.release n.resourceUnits =
        .ok { s with running := s.running - 1, heldUnits := s.heldUnits - n.resourceUnits } :=
      if_neg (by omega)
    rw [hok, ok_bind]
    refine ⟨⟨?_, ?_, ?_, ?_⟩, ⟨fun j => setState_nodes s i j ended, rfl, rfl, rfl, rfl, rfl, rfl⟩, rfl⟩
    · change s.running - 1 = tally _ _ (s.setState i ended).nodes
      omega
    · change s.running - 1 ≤ s.maxSlots
      omega
    · change s.heldUnits - n.resourceUnits = tally _ _ (s.setState i ended).nodes
      omega
    · change s.heldUnits - n.resourceUnits ≤ s.resourceCap
      omega
  · simp only [hst, if_false] at hrun hheld ⊢
    refine ⟨⟨?_, hrl, ?_, hhl⟩, ⟨fun j => setState_nodes s i j ended, rfl, rfl, rfl, rfl, rfl, rfl⟩, rfl⟩
    · change s.running = _
      omega
    · change s.heldUnits = _
      omega

theorem drain_within {l : List NodeId} (hb : Books s) (hl : ∀ i ∈ l, i < s.nodes.length)
    {ended : NodeState} (hended : ended.isTerminal) :
    Within E (fun s' => Books s' ∧ Ended l ended s s' ∧ s'.ready = s.ready)
      (l.foldlM (fun s node => s.endNode node ended) s) := by
  apply Within.foldlM fun seen s' => Books s' ∧ Ended seen ended s s' ∧ s'.ready = s.ready
  · intro seen i s' hi h
    have hlen : i < s'.nodes.length := by
      have := h.2.1.nodes i
      rw [getElem?_eq_getElem (hl i hi)] at this
      exact (List.getElem?_eq_some_iff.mp this).1
    apply (endNode_within h.1 (getElem?_eq_getElem hlen) hended).imp
    intro s'' h'
    exact ⟨h'.1, h.2.1.append h'.2.1, h'.2.2.trans h.2.2⟩
  · exact ⟨hb, ⟨fun i => by simp, rfl, rfl, rfl, rfl, rfl, rfl⟩, rfl⟩

namespace Ended

variable {l : List NodeId} {ended : NodeState} (h : Ended l ended s s')

include h

theorem isLive (hended : ended.isTerminal) (i : NodeId) :
    s'.isLive i = (s.isLive i && i ∉ l) := by
  simp only [Scheduler.isLive, h.nodes i]
  cases s.nodes[i]? with
  | none => rfl
  | some n => by_cases hi : i ∈ l <;> simp [hi, Node.isLive, hended]

theorem keeps (hlive : ∀ i ∈ l, s.isLive i) : Keeps (Settles (· ∈ l) ended) s s' where
  fixed i := by
    rw [h.nodes, Option.map_map]
    congr 1
    funext n
    by_cases hi : i ∈ l <;> simp [hi]
  state i n n' hn hn' := by
    rw [h.nodes, hn] at hn'
    obtain rfl := Option.some.inj hn'
    by_cases hi : i ∈ l
    · have := hlive i hi
      simp only [Scheduler.isLive, hn, Option.any_some, Node.isLive, Bool.not_eq_true'] at this
      simp [hi, Settles, this]
    · simp [hi, Settles]
  parents := h.parents
  linkage := h.linkage
  byTask := h.byTask
  maxSlots := h.maxSlots
  resourceCap := h.resourceCap

theorem waits (hw : Waits s none) (hs : Shape s) (hended : ended.isTerminal)
    (hlive : ∀ i ∈ l, s.isLive i) {root : NodeId} {n : Node} (hn : s.nodes[root]? = some n)
    (hclosed : ∀ i ∈ l, i ≠ root → ∀ (m : Node) (p : NodeId), s.nodes[i]? = some m →
      m.parent = some p → s.isLive p → p ∈ l) :
    Waits s' (if root ∈ l then n.parent else none) := by
  have hback : ∀ (p : NodeId) (m' : Node), s'.nodes[p]? = some m' → m'.isLive →
      s.nodes[p]? = some m' ∧ p ∉ l := by
    intro p m' hm' hlive'
    have hlp : s'.isLive p := by simp [Scheduler.isLive, hm', hlive']
    rw [h.isLive hended] at hlp
    have hp : p ∉ l := by simpa using (Bool.and_eq_true_iff.mp hlp).2
    have := h.nodes p
    rw [hm'] at this
    simp only [hp, if_false, Option.map_id_fun', id_eq] at this
    exact ⟨this.symm, hp⟩
  constructor
  · intro p m hm hml
    obtain ⟨hm, hp⟩ := hback p m hm hml
    rw [hw.count p m hm hml]
    have hpl : s.isLive p := by simp [Scheduler.isLive, hm, hml]
    -- a child in `l` of the live `p` outside `l` can only be the root
    have hroot : ∀ c ∈ m.children, c ∈ l → c = root := by
      intro c hc hcl
      obtain ⟨k, hk, hkp⟩ := (hs.mem_children p m hm c).mp hc
      by_contra hne
      exact hp (hclosed c hcl hne k p hk hkp hpl)
    have hcount : s'.liveChildren m =
        m.children.countP fun c => s.isLive c && (root ∉ l ∨ c ≠ root) := by
      apply countP_congr
      intro c hc
      rw [h.isLive hended]
      by_cases hcl : c ∈ l
      · have := hroot c hc hcl
        subst this
        simp [hcl]
      · by_cases hcr : c = root
        · subst hcr
          simp [hcl]
        · simp [hcl, hcr]
    rw [hcount]
    by_cases hrl : root ∈ l
    · have hmem : root ∈ m.children ↔ n.parent = some p := by
        rw [hs.mem_children p m hm root, hn]
        simp
      simp only [hrl, not_true_eq_false, false_or, if_true]
      by_cases hrp : n.parent = some p
      · simp only [hrp, if_true, reduceCtorEq, if_false, add_zero]
        exact countP_except (hs.nodup p m hm) (hmem.mpr hrp) (hlive root hrl)
      · simp only [hrp, if_false, reduceCtorEq, add_zero]
        apply countP_congr
        intro c hc
        have : c ≠ root := fun he => hrp (hmem.mp (he ▸ hc))
        simp [this]
    · simp [hrl, liveChildren]
  · intro p m hm hmw
    have hml : m.isLive := by simp [Node.isLive, hmw, NodeState.isTerminal]
    exact hw.waiting p m (hback p m hm hml).1 hmw

end Ended

/-- The parent's node after a settlement, and the queue with it. -/
def writeParent (s : Scheduler) (parent : NodeId) (n : Node) (ready : List NodeId) : Scheduler :=
  { s with nodes := s.nodes.set parent n, ready := ready }

section WriteParent

variable {parent : NodeId} {n n' : Node} {ready : List NodeId} (hn : s.nodes[parent]? = some n)
  (hstate : n'.state = n.state ∨ n.state = .waiting ∧ n'.state = .ready)

include hn

theorem writeParent_nodes (j : NodeId) : (s.writeParent parent n' ready).nodes[j]? =
    if j = parent then some n' else s.nodes[j]? := by
  have hlt : parent < s.nodes.length := (List.getElem?_eq_some_iff.mp hn).1
  by_cases hj : j = parent
  · simp [writeParent, hj, hlt]
  · simp [writeParent, hj, Ne.symm hj]

include hstate

theorem writeParent_isLive (j : NodeId) :
    (s.writeParent parent n' ready).isLive j = s.isLive j := by
  unfold Scheduler.isLive
  rw [writeParent_nodes hn]
  by_cases hj : j = parent
  · rcases hstate with h | h <;> simp [hj, hn, Node.isLive, h, NodeState.isTerminal]
  · simp [hj]

theorem writeParent_keeps (hfixed : n'.fixed = n.fixed) (l : NodeId → Prop) (ended : NodeState) :
    Keeps (Settles l ended) s (s.writeParent parent n' ready) where
  fixed j := by
    rw [writeParent_nodes hn]
    by_cases hj : j = parent
    · simp [hj, hn, hfixed]
    · simp [hj]
  state j m m' hm hm' := by
    rw [writeParent_nodes hn] at hm'
    by_cases hj : j = parent
    · subst hj
      obtain rfl : n = m := Option.mem_unique hn hm
      obtain rfl : n' = m' := by simpa using hm'
      rcases hstate with h | h
      · exact .inl h.symm
      · exact .inr (.inr h)
    · obtain rfl : m = m' := by simpa [hj, hm] using hm'
      exact .inl rfl
  parents := rfl
  linkage := rfl
  byTask := rfl
  maxSlots := rfl
  resourceCap := rfl

theorem writeParent_books (hb : Books s) (hfixed : n'.fixed = n.fixed) :
    Books (s.writeParent parent n' ready) := by
  have hrun : n'.isRunning = n.isRunning := by
    rcases hstate with h | h <;> simp [Node.isRunning, h]
  have htally : ∀ w : Node → ℕ, w n' = w n →
      tally Node.isRunning w (s.nodes.set parent n') = tally Node.isRunning w s.nodes := by
    intro w hw
    have h := tally_modify (p := Node.isRunning) (w := w) (fun _ => n') hn
    rw [show share Node.isRunning w n' = share Node.isRunning w n by simp [share, hrun, hw]] at h
    rw [set_eq_modify]
    exact Nat.add_right_cancel h
  refine ⟨?_, hb.running_le, ?_, hb.held_le⟩
  · exact hb.running_eq.trans (htally _ rfl).symm
  · exact hb.held_eq.trans (htally _ (Node.fixed_eq hfixed).2.2.2).symm

theorem writeParent_waits (hw : Waits s (some parent)) (hfixed : n'.fixed = n.fixed)
    (hcount : n'.isLive → n'.unfinishedChildren = s.liveChildren n)
    (hpos : n'.state = .waiting → 0 < n'.unfinishedChildren) :
    Waits (s.writeParent parent n' ready) none := by
  have hchildren : ∀ m : Node, (s.writeParent parent n' ready).liveChildren m = s.liveChildren m := by
    intro m
    unfold liveChildren
    rw [funext (writeParent_isLive hn hstate)]
  constructor
  · intro q m hm hml
    rw [writeParent_nodes hn] at hm
    rw [hchildren]
    by_cases hq : q = parent
    · obtain rfl : n' = m := by simpa [hq] using hm
      have : s.liveChildren n' = s.liveChildren n := by
        simp [liveChildren, (Node.fixed_eq hfixed).2.2.1]
      simp [hcount hml, this]
    · have := hw.count q m (by simpa [hq] using hm) hml
      simpa [Ne.symm hq] using this
  · intro q m hm hmw
    rw [writeParent_nodes hn] at hm
    by_cases hq : q = parent
    · obtain rfl : n' = m := by simpa [hq] using hm
      exact hpos hmw
    · exact hw.waiting q m (by simpa [hq] using hm) hmw

end WriteParent

theorem writeParent_settles {parent : NodeId} {n : Node} (hn : s.nodes[parent]? = some n)
    (n' : Node) (hstate : n'.state = n.state ∨ n.state = .waiting ∧ n'.state = .ready)
    (ready : List NodeId) (hb : Books s) (hs : Shape s)
    (hw : Waits s (some parent)) (hfixed : n'.fixed = n.fixed)
    (hcount : n'.isLive → n'.unfinishedChildren = s.liveChildren n)
    (hpos : n'.state = .waiting → 0 < n'.unfinishedChildren)
    (hnodup : ready.Nodup) (hready : ∀ i, i ∈ ready ↔
      if i = parent then n'.state = .ready else ∃ m, s.nodes[i]? = some m ∧ m.state = .ready)
    (l : NodeId → Prop) (ended : NodeState) :
    Inv (s.writeParent parent n' ready) ∧
      Keeps (Settles l ended) s (s.writeParent parent n' ready) ∧
      (s.writeParent parent n' ready).cancelledTasks = s.cancelledTasks ∧
      ∀ i, (s.writeParent parent n' ready).isLive i = s.isLive i := by
  have hk : Keeps (Settles l ended) s (s.writeParent parent n' ready) :=
    writeParent_keeps hn hstate hfixed l ended
  refine ⟨⟨writeParent_books hn hstate hb hfixed, ⟨hnodup, fun i => ?_⟩, hs.keeps hk,
    writeParent_waits hn hstate hw hfixed hcount hpos⟩, hk, rfl, writeParent_isLive hn hstate⟩
  rw [writeParent_nodes hn]
  change i ∈ ready ↔ _
  rw [hready i]
  by_cases hi : i = parent <;> simp [hi]

/-- The debt that an ended node leaves is paid, and a parent that it wakes is queued. -/
theorem settleParent_within (hb : Books s) (hq : Queue s) (hs : Shape s) {child : NodeId} {c : Node}
    (hc : s.nodes[child]? = some c) (hw : Waits s c.parent) (l : NodeId → Prop)
    (ended : NodeState) :
    Within E (fun r => Inv r.1 ∧ Keeps (Settles l ended) s r.1 ∧
        r.1.cancelledTasks = s.cancelledTasks ∧ ∀ i, r.1.isLive i = s.isLive i)
      (s.settleParent child) := by
  simp only [settleParent, nodeAt, hc, ok_bind]
  cases hp : c.parent with
  | none =>
    rw [hp] at hw
    exact ⟨⟨hb, hq, hs, hw⟩, Keeps.refl (fun _ _ => .inl rfl) s, rfl, fun _ => rfl⟩
  | some parent =>
    rw [hp] at hw
    have hlt : parent < s.nodes.length :=
      (hs.parent_lt child c parent hc hp).trans (List.getElem?_eq_some_iff.mp hc).1
    obtain ⟨n, hn⟩ : ∃ n, s.nodes[parent]? = some n := ⟨_, getElem?_eq_getElem hlt⟩
    have hcount : n.isLive → n.unfinishedChildren = s.liveChildren n + 1 := fun h => by
      simpa using hw.count parent n hn h
    have hunf : (if 0 < n.unfinishedChildren then n.unfinishedChildren - 1 else 0) =
        n.unfinishedChildren - 1 := by
      split <;> omega
    simp only [hn, ok_bind, hunf]
    by_cases hwake : n.state = .waiting ∧ n.unfinishedChildren - 1 = 0
    · rw [if_pos hwake]
      have hlive : n.isLive := by simp [Node.isLive, hwake.1, NodeState.isTerminal]
      have hnot : parent ∉ s.ready := by
        intro h
        obtain ⟨m, hm, hmr⟩ := (hq.mem_iff parent).mp h
        obtain rfl : n = m := Option.mem_unique hn hm
        simp [hwake.1] at hmr
      apply writeParent_settles hn { n with unfinishedChildren := 0, state := .ready }
        (.inr ⟨hwake.1, rfl⟩) (s.ready ++ [parent]) hb hs hw rfl
      · intro _
        have := hcount hlive
        change 0 = s.liveChildren n
        omega
      · intro h
        simp at h
      · refine nodup_append.mpr ⟨hq.nodup, by simp, ?_⟩
        rintro a ha b hb rfl
        exact hnot (mem_singleton.mp hb ▸ ha)
      · intro i
        by_cases hi : i = parent <;> simp [hi, hq.mem_iff i]
    · rw [if_neg hwake]
      apply writeParent_settles hn { n with unfinishedChildren := n.unfinishedChildren - 1 }
        (.inl rfl) s.ready hb hs hw rfl
      · intro hlive
        have := hcount hlive
        change n.unfinishedChildren - 1 = s.liveChildren n
        omega
      · intro hwait
        change 0 < n.unfinishedChildren - 1
        have : n.unfinishedChildren - 1 ≠ 0 := fun h => hwake ⟨hwait, h⟩
        omega
      · exact hq.nodup
      · intro i
        rw [hq.mem_iff i]
        by_cases hi : i = parent <;> simp [hi, hn]

/-- A call that may end node `i` and that leaves the invariants in place. -/
structure EndsNode (i : NodeId) (ended : NodeState) (s s' : Scheduler) : Prop where
  inv : Inv s'
  keeps : Keeps (Settles (· ∈ [i]) ended) s s'
  cancelledTasks : s'.cancelledTasks = s.cancelledTasks

theorem EndsNode.refl (hinv : Inv s) (i : NodeId) (ended : NodeState) : EndsNode i ended s s :=
  ⟨hinv, Keeps.refl (fun _ _ => .inl rfl) s, rfl⟩

theorem Queue.without (hq : Queue s) {i : NodeId} (state : NodeState) (hstate : state ≠ .ready)
    (hnodes : ∀ j : NodeId, s'.nodes[j]? =
      (s.nodes[j]?).map fun n => if j ∈ [i] then n.setState state else n)
    (hnodup : s'.ready.Nodup) (hready : ∀ j, j ∈ s'.ready ↔ j ∈ s.ready ∧ j ≠ i) : Queue s' := by
  refine ⟨hnodup, fun j => ?_⟩
  rw [hnodes, hready j, hq.mem_iff j]
  by_cases hj : j = i
  · cases s.nodes[j]? <;> simp [hj, hstate]
  · simp [hj]

/-- One node ends, leaves the queue if it stood there, and settles its parent. -/
theorem endAndSettle_within (hinv : Inv s) {i : NodeId} {n : Node} (hn : s.nodes[i]? = some n)
    (hlive : n.isLive) {ended : NodeState} (hended : ended.isTerminal) {ready : List NodeId}
    (hnodup : ready.Nodup) (hready : ∀ j, j ∈ ready ↔ j ∈ s.ready ∧ j ≠ i)
    {α : Type} {Q : α → Prop} {k : Scheduler × Option NodeId → Except Fault α}
    (hk : ∀ r, EndsNode i ended s r.1 → r.1.isLive i = false → Within E Q (k r)) :
    Within E Q (do
      let s' ← { s with ready := ready }.endNode i ended
      let r ← s'.settleParent i
      k r) := by
  have hlive' : ∀ j ∈ [i], s.isLive j := by
    intro j hj
    obtain rfl : j = i := by simpa using hj
    simp [isLive, hn, hlive]
  apply Within.bind (endNode_within (hinv.books.requeue ready) hn hended)
  rintro s' ⟨hb', he, hr⟩
  have he : Ended [i] ended s s' :=
    ⟨he.nodes, he.parents, he.linkage, he.byTask, he.cancelledTasks, he.maxSlots, he.resourceCap⟩
  have hkeeps : Keeps (Settles (· ∈ [i]) ended) s s' := he.keeps hlive'
  have hn' : s'.nodes[i]? = some (n.setState ended) := by simp [he.nodes, hn]
  have hq : Queue s' := by
    apply hinv.queue.without ended _ he.nodes (hr ▸ hnodup)
    · rw [hr]
      exact hready
    · intro h
      simp [h, NodeState.isTerminal] at hended
  have hw : Waits s' n.parent := by
    have := he.waits hinv.waits hinv.shape hended hlive' hn (by simp)
    simpa using this
  apply Within.bind (settleParent_within hb' hq (hinv.shape.keeps hkeeps) hn' hw (· ∈ [i]) ended)
  rintro r ⟨hinv', hkeeps', hc, hl⟩
  apply hk r ⟨hinv', hkeeps.settle_trans hended hkeeps', hc.trans he.cancelledTasks⟩
  simp [hl, he.isLive hended]

/-- The queue of a node that is not ready does not change when the node ends. -/
theorem Queue.mem_of_not_ready (hq : Queue s) {i : NodeId} {n : Node} (hn : s.nodes[i]? = some n)
    (hstate : n.state ≠ .ready) (j : NodeId) : j ∈ s.ready ↔ j ∈ s.ready ∧ j ≠ i := by
  constructor
  · intro hj
    refine ⟨hj, ?_⟩
    rintro rfl
    obtain ⟨m, hm, hmr⟩ := (hq.mem_iff j).mp hj
    obtain rfl : n = m := Option.mem_unique hn hm
    exact hstate hmr
  · exact And.left

theorem EndsNode.late (hinv : Inv s) (i : NodeId) (ended : NodeState) (n : ℕ) :
    EndsNode i ended s { s with ignoredLateDeliveries := n } where
  inv :=
    { books := ⟨hinv.books.running_eq, hinv.books.running_le, hinv.books.held_eq,
        hinv.books.held_le⟩
      queue := ⟨hinv.queue.nodup, hinv.queue.mem_iff⟩
      shape := ⟨hinv.shape.parent_lt, hinv.shape.mem_children, hinv.shape.nodup,
        hinv.shape.byTask⟩
      waits := ⟨hinv.waits.count, hinv.waits.waiting⟩ }
  keeps := by
    have h := Keeps.refl (R := Settles (· ∈ [i]) ended) (fun _ _ => .inl rfl) s
    exact ⟨h.fixed, h.state, rfl, rfl, rfl, rfl, rfl⟩
  cancelledTasks := rfl

theorem isLive_of_running {n : Node} (h : n.state = .running) : n.isLive := by
  simp [Node.isLive, h, NodeState.isTerminal]

theorem complete_within (hinv : Inv s) (node : NodeId) :
    Within E (fun r => EndsNode node .completed s r.1) (s.complete node) := by
  have hsame := EndsNode.refl hinv node .completed
  cases hn : s.nodes[node]? with
  | none => simpa [complete, nodeState, hn] using hsame
  | some n =>
    cases hstate : n.state with
    | running =>
      simp only [complete, nodeState, hn, hstate]
      apply endAndSettle_within hinv hn (isLive_of_running hstate) rfl hinv.queue.nodup
        (hinv.queue.mem_of_not_ready hn (by simp [hstate]))
      intro r hr _
      exact hr
    | cancelled => simpa [complete, nodeState, hn, hstate] using EndsNode.late hinv node .completed _
    | ready | waiting | completed | settled =>
      simpa [complete, nodeState, hn, hstate] using hsame

theorem settle_within (hinv : Inv s) (node : NodeId) :
    Within E (fun r => EndsNode node .settled s r.1) (s.settle node) := by
  have hsame := EndsNode.refl hinv node .settled
  cases hn : s.nodes[node]? with
  | none => simpa [settle, nodeState, hn] using hsame
  | some n =>
    cases hstate : n.state with
    | running =>
      simp only [settle, nodeState, hn, hstate]
      apply endAndSettle_within hinv hn (isLive_of_running hstate) rfl hinv.queue.nodup
        (hinv.queue.mem_of_not_ready hn (by simp [hstate]))
      intro r hr _
      exact hr
    | ready | waiting | completed | settled | cancelled =>
      simpa [settle, nodeState, hn, hstate] using hsame

theorem retire_within (hinv : Inv s) {node : NodeId} {n : Node} (hn : s.nodes[node]? = some n) :
    Within E (fun s' => EndsNode node .settled s s' ∧ s'.isLive node = false)
      (s.retire node) := by
  simp only [retire, nodeAt, hn, ok_bind]
  by_cases hterminal : n.state.isTerminal
  · rw [if_pos hterminal]
    exact ⟨EndsNode.refl hinv node .settled, by simp [isLive, hn, Node.isLive, hterminal]⟩
  · rw [if_neg hterminal]
    have hlive : n.isLive := by simpa [Node.isLive] using hterminal
    have hready : ∀ j, j ∈ (if n.state = .ready then s.ready.filter (· ≠ node) else s.ready) ↔
        j ∈ s.ready ∧ j ≠ node := by
      by_cases hstate : n.state = .ready
      · simp [hstate]
      · simpa [hstate] using hinv.queue.mem_of_not_ready hn hstate
    apply endAndSettle_within hinv hn hlive rfl _ hready
    · intro r hr hdead
      exact ⟨hr, hdead⟩
    · split
      · exact hinv.queue.nodup.filter _
      · exact hinv.queue.nodup

/-- The nodes hung below `root`. -/
abbrev Below (s : Scheduler) (root i : NodeId) : Prop :=
  Descends (fun id => ((s.nodes[id]?).map Node.children).getD []) root i

theorem Shape.forest (hs : Shape s) {root : NodeId} (hroot : root < s.nodes.length) :
    ForestBelow (fun id => ((s.nodes[id]?).map Node.children).getD []) root
      (List.range s.nodes.length) := by
  have hchild : ∀ p c, c ∈ ((s.nodes[p]?).map Node.children).getD [] →
      ∃ n : Node, s.nodes[c]? = some n ∧ n.parent = some p := by
    intro p c hc
    cases hp : s.nodes[p]? with
    | none => simp [hp] at hc
    | some m => exact (hs.mem_children p m hp c).mp (by simpa [hp] using hc)
  have hrange : ∀ c, s.Below root c → root ≤ c ∧ c < s.nodes.length := by
    intro c hc
    induction hc with
    | refl => exact ⟨le_rfl, hroot⟩
    | tail _ hbc ih =>
      obtain ⟨n, hn, hp⟩ := hchild _ _ hbc
      exact ⟨ih.1.trans (hs.parent_lt _ n _ hn hp).le, (List.getElem?_eq_some_iff.mp hn).1⟩
  refine ⟨?_, ?_, ?_, ?_⟩
  · intro p
    cases hp : s.nodes[p]? with
    | none => simp
    | some m => simpa using hs.nodup p m hp
  · intro p q c hp hq
    obtain ⟨n, hn, hnp⟩ := hchild p c hp
    obtain ⟨m, hm, hmq⟩ := hchild q c hq
    obtain rfl : n = m := Option.mem_unique hn hm
    exact Option.mem_unique hnp hmq
  · intro p hp hc
    obtain ⟨n, hn, hnp⟩ := hchild p root hc
    exact Nat.not_lt.mpr (hrange p hp).1 (hs.parent_lt root n p hn hnp)
  · intro c hc
    exact mem_range.mpr (hrange c hc).2

/-- The drain lists every live node below the root, once, and never leaves the tree. -/
theorem drained_spec (hs : Shape s) {root : NodeId} (hroot : root < s.nodes.length) :
    ∃ l, s.drained root = .ok l ∧ ∀ i, i ∈ l ↔ s.Below root i ∧ s.isLive i := by
  have hf := hs.forest hroot
  obtain ⟨popped, hpopped, -, hmem⟩ := depthFirst_spec hf
  rw [length_range] at hpopped
  refine ⟨popped.filter s.isLive, ?_, fun i => by simp [hmem]⟩
  have hall : popped.all (· < s.nodes.length) := by
    rw [all_eq_true]
    intro i hi
    simpa using mem_range.mp (hf.finite i ((hmem i).mp hi))
  simp only [drained, hpopped, hall, if_true]
  rfl

/-- A call that cancels nodes and leaves the invariants in place. -/
structure Cancels (s s' : Scheduler) : Prop where
  inv : Inv s'
  keeps : Keeps (Settles (fun _ => True) .cancelled) s s'
  cancelledTasks : s'.cancelledTasks = s.cancelledTasks

theorem Cancels.refl (hinv : Inv s) : Cancels s s :=
  ⟨hinv, Keeps.refl (fun _ _ => .inl rfl) s, rfl⟩

theorem cancelTree_within (hinv : Inv s) (root : NodeId) :
    Within E (fun r => Cancels s r.1 ∧ r.1.isLive root = false ∧
        (root < s.nodes.length → ∃ ids, r.2 = .ok ids))
      (s.cancelTree root) := by
  cases hn : s.nodes[root]? with
  | none =>
    have hlen : s.nodes.length ≤ root := getElem?_eq_none_iff.mp hn
    simp only [cancelTree, nodeState, hn, Within.ok_iff]
    exact ⟨Cancels.refl hinv, by simp [isLive, hn], fun h => absurd h (Nat.not_lt.mpr hlen)⟩
  | some n =>
    have hlt : root < s.nodes.length := (List.getElem?_eq_some_iff.mp hn).1
    obtain ⟨l, hl, hmem⟩ := drained_spec hinv.shape hlt
    have hlive : ∀ i ∈ l, s.isLive i := fun i hi => ((hmem i).mp hi).2
    have hlen : ∀ i ∈ l, i < s.nodes.length := fun i hi =>
      mem_range.mp ((hinv.shape.forest hlt).finite i ((hmem i).mp hi).1)
    -- below the root, the parent of a drained node is drained too unless it had ended
    have hclosed : ∀ i ∈ l, i ≠ root → ∀ (m : Node) (p : NodeId), s.nodes[i]? = some m →
        m.parent = some p → s.isLive p → p ∈ l := by
      intro i hi hne m p hm hp hpl
      rcases Relation.ReflTransGen.cases_tail ((hmem i).mp hi).1 with he | ⟨q, hq, hqi⟩
      · exact absurd he hne
      · obtain ⟨k, hk, hkp⟩ : ∃ k : Node, s.nodes[q]? = some k ∧ i ∈ k.children := by
          cases hk : s.nodes[q]? with
          | none => simp [hk] at hqi
          | some k => exact ⟨k, rfl, by simpa [hk] using hqi⟩
        obtain ⟨m', hm', hq'⟩ := (hinv.shape.mem_children q k hk i).mp hkp
        obtain rfl : m = m' := Option.mem_unique hm hm'
        obtain rfl : p = q := Option.mem_unique hp hq'
        exact (hmem p).mpr ⟨hq, hpl⟩
    simp only [cancelTree, nodeState, hn, hl, ok_bind]
    apply Within.bind (drain_within hinv.books hlen rfl)
    rintro s' ⟨hb, he, hr⟩
    have hkeeps : Keeps (Settles (fun _ => True) .cancelled) s s' :=
      (he.keeps hlive).mono fun _ _ _ h => by
        rcases h with h | h | h
        · exact .inl h
        · exact .inr (.inl ⟨trivial, h.2⟩)
        · exact .inr (.inr h)
    have hq : Queue { s' with
        ready := s'.ready.filter fun queued =>
          (s'.nodes[queued]?).any fun n => n.state = .ready } := by
      refine ⟨(hr ▸ hinv.queue.nodup).filter _, fun i => ?_⟩
      simp only [mem_filter, Option.any_eq_true, decide_eq_true_eq, and_iff_right_iff_imp]
      rintro ⟨m', hm', hready⟩
      rw [hr, hinv.queue.mem_iff]
      obtain ⟨m, hm, -⟩ := hkeeps.node_before hm'
      refine ⟨m, hm, ?_⟩
      have := he.nodes i
      rw [hm', hm] at this
      by_cases hi : i ∈ l
      · simp only [hi, if_true, Option.map_some, Option.some.injEq] at this
        simp [this] at hready
      · simp only [hi, if_false, Option.map_some, Option.some.injEq] at this
        exact this ▸ hready
    have hw := he.waits hinv.waits hinv.shape rfl hlive hn hclosed
    have hdead : s'.isLive root = false := by
      rw [he.isLive rfl]
      by_cases hroot : s.isLive root
      · simp [(hmem root).mpr ⟨.refl, hroot⟩]
      · simp [hroot]
    have hroot_mem : root ∈ l ↔ n.isLive := by
      rw [hmem root]
      simp [isLive, hn, Relation.ReflTransGen.refl]
    by_cases hterminal : n.state.isTerminal
    · simp only [hterminal, if_true, Within.ok_iff]
      have hnot : root ∉ l := by simp [hroot_mem, Node.isLive, hterminal]
      rw [if_neg hnot] at hw
      exact ⟨⟨⟨hb.requeue _, hq, (hinv.shape.keeps hkeeps).requeue _, hw.requeue _⟩,
        hkeeps.requeue _, he.cancelledTasks⟩, hdead, fun _ => ⟨l, rfl⟩⟩
    · simp only [hterminal]
      have hin : root ∈ l := by simp [hroot_mem, Node.isLive, hterminal]
      rw [if_pos hin] at hw
      have hn' : s'.nodes[root]? = some (n.setState .cancelled) := by simp [he.nodes, hn, hin]
      apply Within.bind (settleParent_within (hb.requeue _) hq
        ((hinv.shape.keeps hkeeps).requeue _) hn' (hw.requeue _) (fun _ => True) .cancelled)
      rintro r ⟨hinv', hkeeps', hc, hl'⟩
      refine ⟨⟨hinv', (hkeeps.requeue _).settle_trans rfl hkeeps', hc.trans he.cancelledTasks⟩, ?_,
        fun _ => ⟨l, rfl⟩⟩
      exact (hl' root).trans hdead

end Rivect.Scheduler
