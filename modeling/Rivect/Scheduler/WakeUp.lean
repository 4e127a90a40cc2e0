import Rivect.Scheduler.Accounting

/-! # No lost wake-up

A waiting node has a live child in every reached state, so the call that ends its last live
child cannot leave it waiting.
-/

namespace Rivect.Scheduler

open Lib List

variable {s s' : Scheduler}

theorem Inv.exists_live_child (hinv : Inv s) {p : NodeId} {n : Node} (hn : s.nodes[p]? = some n)
    (hwaiting : n.state = .waiting) : ∃ c ∈ n.children, s.isLive c := by
  have hlive : n.isLive := by simp [Node.isLive, hwaiting, NodeState.isTerminal]
  have hpos := hinv.waits.waiting p n hn hwaiting
  have hcount := hinv.waits.count p n hn hlive
  simp only [reduceCtorEq, if_false, add_zero] at hcount
  rw [hcount] at hpos
  exact countP_pos_iff.mp hpos

/-- Woken: ready, and once in the queue. -/
def Woken (s : Scheduler) (p : NodeId) : Prop :=
  (∃ n : Node, s.nodes[p]? = some n ∧ n.state = .ready) ∧ s.ready.count p = 1

theorem Inv.woken (hinv : Inv s) {p : NodeId} {n : Node} (hn : s.nodes[p]? = some n)
    (hready : n.state = .ready) : Woken s p :=
  ⟨⟨n, hn, hready⟩, count_eq_one_of_mem hinv.queue.nodup
    ((hinv.queue.mem_iff p).mpr ⟨n, hn, hready⟩)⟩

section

variable {p : NodeId} {n : Node} (hn : s.nodes[p]? = some n) (hwaiting : n.state = .waiting)
  (hends : ∀ c ∈ n.children, s'.isLive c = false)

include hn hwaiting hends

theorem not_shifts (hinv : Inv s) (hlive : ∀ c, s.isLive c → s'.isLive c) : False := by
  obtain ⟨c, hc, hcl⟩ := hinv.exists_live_child hn hwaiting
  simpa [hends c hc] using hlive c hcl

/-- A settling call that ends the last live child wakes the node or ends it. -/
theorem woken_of_settles {l : NodeId → Prop} {ended : NodeState} (hinv' : Inv s')
    (hk : Keeps (Settles l ended) s s') :
    Woken s' p ∨ l p ∧ ∃ n' : Node, s'.nodes[p]? = some n' ∧ n'.state = ended := by
  obtain ⟨n', hn', hfixed⟩ := hk.node hn
  rcases hk.state p n n' hn hn' with h | h | h
  · -- a node that still waits still has a live child
    obtain ⟨c, hc, hcl⟩ := hinv'.exists_live_child hn' (h ▸ hwaiting)
    rw [(Node.fixed_eq hfixed).2.2.1] at hc
    simp [hends c hc] at hcl
  · exact .inr ⟨h.1, n', hn', h.2.2⟩
  · exact .inl (hinv'.woken hn' h.2)

/-- A retirement that ends the last live child cannot be the one of the waiting node. -/
theorem woken_of_retires (hinv : Inv s) {task : TaskId} (hr : Retires task s s') : Woken s' p := by
  rcases woken_of_settles hn hwaiting hends hr.inv hr.keeps with hw | ⟨hp, -⟩
  · exact hw
  · obtain ⟨c, hc, hcl⟩ := hinv.exists_live_child hn hwaiting
    obtain ⟨m, hm, hml⟩ := isLive_iff.mp hcl
    obtain ⟨m1, hm1, hparent⟩ := (hinv.shape.mem_children p n hn c).mp hc
    have hne : c ≠ p := (hinv.shape.parent_lt c m1 p hm1 hparent).ne'
    obtain ⟨m', hm', -⟩ := hr.keeps.node hm
    have hdead : m'.isLive = false := by
      have := hends c hc
      rwa [isLive, hm', Option.any_some] at this
    rcases hr.keeps.state c m m' hm hm' with h | h | h
    · simp [Node.isLive, ← h] at hdead
      simp [Node.isLive, hdead] at hml
    · exact absurd (Option.mem_unique h.1 hp) hne
    · simp [Node.isLive, h.2, NodeState.isTerminal] at hdead

end

/-- The calls that cancel. -/
def Op.cancels : Op → Bool
  | .cancelTree _ | .cancelTaskTree _ => true
  | _ => false

/-- What a call does to the waiting node `p` whose children it leaves terminal. -/
def Wakes (op : Op) (p : NodeId) (n : Node) (s' : Scheduler) : Prop :=
  (∀ c ∈ n.children, s'.isLive c = false) →
    Woken s' p ∨ op.cancels ∧ ∃ n' : Node, s'.nodes[p]? = some n' ∧ n'.state = .cancelled

theorem wakes_within {maxSlots cap : ℕ} (h : Good maxSlots cap s) (op : Op) {p : NodeId} {n : Node}
    (hn : s.nodes[p]? = some n) (hwaiting : n.state = .waiting) :
    Within s.Loops (Wakes op p n) (s.after op) := by
  have hinv := h.inv
  have hshifts : ∀ {s'}, Shifts s s' → Wakes op p n s' := fun hs hends =>
    (not_shifts hn hwaiting hends hinv fun c hc => (hs.isLive c).trans hc).elim
  have hsame : Wakes op p n s := hshifts (.refl hinv)
  -- a running node may end, but `p` waits
  have hends_node : ∀ {s'} {node : NodeId} {ended : NodeState}, node ≠ p →
      EndsNode node ended s s' → Wakes op p n s' := by
    intro s' node ended hne he hends
    rcases woken_of_settles hn hwaiting hends he.inv he.keeps with hw | ⟨hp, -⟩
    · exact .inl hw
    · exact absurd (mem_singleton.mp hp).symm hne
  cases op with
  | submit parent task answer grantId units =>
    rcases submit_cases s parent task answer grantId units with ⟨e, he⟩ |
      ⟨node, s', hok, -, -, hf, hg⟩
    · simpa [after, he] using hsame
    · simp only [after, hok, Within.ok_iff]
      intro hends
      refine (not_shifts hn hwaiting hends hinv fun c hc => ?_).elim
      obtain ⟨m, hm, -⟩ := isLive_iff.mp hc
      rwa [hg.isLive_old (List.getElem?_eq_some_iff.mp hm).1.ne]
  | submitAnswered task answer grantId =>
    apply Within.bind (submitAnswered_within hinv task answer grantId)
    rintro r (_ | ⟨-, hr⟩ | ⟨-, hr, -, hf, hg⟩)
    · exact hsame
    · exact fun hends => .inl (woken_of_retires hn hwaiting hends hinv hr)
    · intro hends
      rename_i s1 s2 node
      have hends1 : ∀ c ∈ n.children, s1.isLive c = false := by
        intro c hc
        obtain ⟨m, hm, -⟩ := (hinv.shape.mem_children p n hn c).mp hc
        obtain ⟨m', hm', -⟩ := hr.keeps.node hm
        rw [← hg.isLive_old (List.getElem?_eq_some_iff.mp hm').1.ne]
        exact hends c hc
      obtain ⟨⟨m, hm, hready⟩, -⟩ := woken_of_retires hn hwaiting hends1 hinv hr
      exact .inl ((hg.inv hf hr.inv).woken (hg.old hm) (by split <;> exact hready))
  | adopt task parent =>
    intro hends
    refine (not_shifts hn hwaiting hends hinv fun c hc => ?_).elim
    unfold adopt
    split <;> exact hc
  | admitNext =>
    apply Within.bind (admitNextBounded_within hinv fun _ _ => true)
    intro r hr
    exact hshifts hr
  | admitNextBounded reserve =>
    apply Within.bind (admitNextBounded_within hinv reserve)
    intro r hr
    exact hshifts hr
  | beginWait node =>
    apply Within.bind (beginWait_within hinv node)
    intro r hr
    exact hshifts hr
  | complete node =>
    by_cases hne : node = p
    · subst hne
      simpa [after, complete, nodeState, hn, hwaiting] using hsame
    · apply Within.bind (complete_within hinv node)
      intro r hr
      exact hends_node hne hr
  | settle node =>
    by_cases hne : node = p
    · subst hne
      simpa [after, settle, nodeState, hn, hwaiting] using hsame
    · apply Within.bind (settle_within hinv node)
      intro r hr
      exact hends_node hne hr
  | cancelTree root =>
    apply Within.bind (cancelTree_within hinv root)
    rintro r ⟨hr, -⟩ hends
    exact (woken_of_settles hn hwaiting hends hr.inv hr.keeps).imp_right fun hp => ⟨rfl, hp.2⟩
  | cancelTaskTree task =>
    apply Within.bind (cancelTaskTree_within hinv h.linked task)
    rintro r ⟨hr, -⟩ hends
    exact (woken_of_settles hn hwaiting hends hr.inv hr.keeps).imp_right fun hp => ⟨rfl, hp.2⟩
  | deliver event =>
    apply Within.bind (deliver_within hinv event)
    intro r hr
    exact hshifts hr

/-- Every live node of a reached state counts its live children, so a waiting node has one;
and the call that ends the last of them wakes the node, or cancels it too. -/
theorem no_lost_wakeup {maxSlots cap : ℕ} {ops : List Op}
    (hrun : Run Calls (new maxSlots cap) ops s) :
    (∀ (p : NodeId) (n : Node), s.nodes[p]? = some n → n.state.isTerminal = false →
      n.unfinishedChildren = n.children.countP fun c =>
        (s.nodes[c]?).any fun m => !m.state.isTerminal) ∧
    (∀ (p : NodeId) (n : Node), s.nodes[p]? = some n → n.state = .waiting →
      ∃ c ∈ n.children, ∃ m : Node, s.nodes[c]? = some m ∧ m.state.isTerminal = false) ∧
    ∀ (op : Op) (s' : Scheduler) (p : NodeId) (n : Node), Calls s op s' →
      s.nodes[p]? = some n → n.state = .waiting →
      (∀ c ∈ n.children, ∀ m : Node, s'.nodes[c]? = some m → m.state.isTerminal) →
      Woken s' p ∨ op.cancels ∧ ∃ n' : Node, s'.nodes[p]? = some n' ∧ n'.state = .cancelled := by
  have h := good_of_run hrun
  refine ⟨?_, ?_, ?_⟩
  · intro p n hn hlive
    have hcount := h.inv.waits.count p n hn (by simp [Node.isLive, hlive])
    rw [if_neg (by simp), add_zero] at hcount
    exact hcount
  · intro p n hn hwaiting
    obtain ⟨c, hc, hcl⟩ := h.inv.exists_live_child hn hwaiting
    obtain ⟨m, hm, hml⟩ := isLive_iff.mp hcl
    exact ⟨c, hc, m, hm, by simpa [Node.isLive] using hml⟩
  · intro op s' p n hcall hn hwaiting hends
    apply (wakes_within h op hn hwaiting).of_ok hcall
    intro c hc
    by_contra hlive
    obtain ⟨m, hm, hml⟩ := isLive_iff.mp (by simpa using hlive)
    simp [Node.isLive, hends c hc m hm] at hml

/-- A cancelled tree takes the waiting parent with it: its last child ends and it never wakes. -/
theorem not_woken_of_cancelled_parent : ¬ ∀ (maxSlots cap : ℕ) (ops : List Op) (s s' : Scheduler)
    (op : Op) (p : NodeId) (n : Node), Run Calls (new maxSlots cap) ops s → Calls s op s' →
      s.nodes[p]? = some n → n.state = .waiting →
      (∀ c ∈ n.children, ∀ m : Node, s'.nodes[c]? = some m → m.state.isTerminal) →
      Woken s' p := by
  intro hclaim
  have hrun : Run Calls (new 1 4) [.submit none ⟨"parent"⟩ (.custom "go") "grant" 2, .admitNext,
      .submit (some 0) ⟨"child"⟩ (.custom "go") "grant" 3, .beginWait 0] _ :=
    run_of_foldlM rfl
  have hwoken := hclaim 1 4 _ _ _ (.cancelTree 0) 0 _ hrun rfl rfl rfl (by
    intro c hc m hm
    obtain rfl : c = 1 := mem_singleton.mp hc
    obtain rfl := Option.some.inj hm
    rfl)
  exact absurd hwoken.2 (by decide)

/-- A child that completes wakes the parent that waits for it. -/
theorem no_lost_wakeup_pair : ∃ s s' : Scheduler,
    Run Calls (new 1 4) [.submit none ⟨"parent"⟩ (.custom "go") "grant" 2, .admitNext,
      .submit (some 0) ⟨"child"⟩ (.custom "go") "grant" 3, .beginWait 0, .admitNext] s ∧
    Calls s (.complete 1) s' ∧ Woken s' 0 := by
  have hrun : Run Calls (new 1 4) [.submit none ⟨"parent"⟩ (.custom "go") "grant" 2, .admitNext,
      .submit (some 0) ⟨"child"⟩ (.custom "go") "grant" 3, .beginWait 0, .admitNext] _ :=
    run_of_foldlM rfl
  refine ⟨_, _, hrun, rfl, ?_⟩
  rcases (no_lost_wakeup hrun).2.2 (.complete 1) _ 0 _ rfl rfl rfl (by decide) with h | h
  · exact h
  · exact absurd h.1 (by decide)

end Rivect.Scheduler
