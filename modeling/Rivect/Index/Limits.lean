import Mathlib.Data.List.Destutter
import Rivect.Index.Slices

/-! # What a stopped walk has cut

The walk tests the depth of a document before it knows whether anything depends on it, and its
node budget only where something fresh does. So a stop by the node budget has always cut
something, and a stop by the depth may have cut nothing.
-/

namespace Rivect.Index

open List

open Relation

/-- The reached documents a test target depends on, sorted and each once. -/
def ImpactSlice.tests (slice : ImpactSlice) : List SourceRef :=
  (((slice.edges.filter fun edge => edge.kind = .test).map fun edge =>
    { edge.fromRef with line := none }).mergeSort fun a b => a.order ≤ b.order).destutter (· ≠ ·)

def ImpactSlice.testsStatus (slice : ImpactSlice) : String :=
  match slice.tests.isEmpty, slice.completeness.isComplete with
  | false, true => "tests found"
  | false, false => "tests found, coverage incomplete"
  | true, true => "no tests found"
  | true, false => "tests unknown: traversal incomplete"

theorem ImpactSlice.tests_eq_nil {slice : ImpactSlice} :
    slice.tests = [] ↔ ∀ edge ∈ slice.edges, edge.kind ≠ .test := by
  rw [tests, destutter_eq_nil, ← length_eq_zero_iff, length_mergeSort,
    length_eq_zero_iff, map_eq_nil_iff, filter_eq_nil_iff]
  simp

namespace ImpactWalk

variable {graph : ProjectGraph} {limits free : TraversalLimits} {walk walk' last : ImpactWalk}
  {node : TraversalNode} {rows : List IndexEdge} {rest : List TraversalNode} {depth : ℕ}

/-- A clock that never strikes. -/
def never : ℕ → Bool := fun _ => false

/-! ## Expansions without a budget -/

/-- One expansion of the first of the frontier, whatever it costs. -/
def Step (graph : ProjectGraph) (walk walk' : ImpactWalk) : Prop :=
  ∃ node rest, walk.frontier = node :: rest ∧
    walk' = (incoming graph node.document.path).foldl (follow (node.depth + 1))
      { walk with frontier := rest }

theorem step_unique : Relator.RightUnique (Step graph) := by
  rintro walk walk' walk'' ⟨node, rest, hfrontier, rfl⟩ ⟨node', rest', hfrontier', rfl⟩
  obtain ⟨rfl, rfl⟩ := List.cons.inj (hfrontier.symm.trans hfrontier')
  rfl

theorem step_ended (hended : walk.frontier = []) (h : ReflTransGen (Step graph) walk walk') :
    walk' = walk := by
  rcases h.cases_head with rfl | ⟨next, ⟨node, rest, hfrontier, -⟩, -⟩
  · rfl
  · rw [hended] at hfrontier
    cases hfrontier

/-- Two ends of the expansions of one walk, of which one is the last. -/
theorem step_last (h : ReflTransGen (Step graph) walk walk')
    (hlast : ReflTransGen (Step graph) walk last) (hended : last.frontier = []) :
    ReflTransGen (Step graph) walk' last := by
  rcases h.total_of_right_unique step_unique hlast with h | h
  · exact h
  · rw [step_ended hended h]

theorem Step.discovers (h : Step graph walk walk') :
    ∃ node rest new, walk.frontier = node :: rest ∧
      Discovers { walk with frontier := rest } walk' (node.depth + 1)
        ((incoming graph node.document.path).map fun edge => edge.fromRef.path) new ∧
      walk'.edges = walk.edges ++ incoming graph node.document.path ∧
      walk'.reached = walk.reached + new.length := by
  obtain ⟨node, rest, hfrontier, rfl⟩ := h
  obtain ⟨new, hnew, hedges, hreached⟩ := @discovers_rows { walk with frontier := rest }
    (node.depth + 1) (incoming graph node.document.path)
  exact ⟨node, rest, new, hfrontier, hnew, hedges, hreached⟩

theorem steps_report (h : ReflTransGen (Step graph) walk walk') :
    walk.nodes <+: walk'.nodes ∧ walk.edges <+: walk'.edges := by
  induction h with
  | refl => exact ⟨prefix_rfl, prefix_rfl⟩
  | tail _ hstep ih =>
    obtain ⟨node, rest, new, -, hnew, hedges, -⟩ := hstep.discovers
    rw [hedges, hnew.nodes]
    exact ⟨ih.1.trans (prefix_append _ _), ih.2.trans (prefix_append _ _)⟩

/-! ## A walk under limits -/

/-- What holds of a walk under some limits: it holds what it reports, its count is within the node
budget, and a document at the depth bound waits in its frontier. -/
structure Within (limits : TraversalLimits) (walk : ImpactWalk) : Prop where
  held : ∀ n ∈ walk.nodes, n.document.path ∈ walk.visited
  waiting : ∀ n ∈ walk.frontier, n ∈ walk.nodes
  reached : walk.reached ≤ limits.nodes
  shallow : ∀ n ∈ walk.nodes, n.depth ≤ limits.depth
  deep : ∀ n ∈ walk.nodes, limits.depth ≤ n.depth → n ∈ walk.frontier

theorem within_seeds (limits : TraversalLimits) (seeds : List SourceRef) :
    Within limits (seeds.foldl seed begin) := by
  obtain ⟨new, hnew, -, hreached⟩ := @discovers_seeds begin seeds
  have hnodes : (seeds.foldl seed begin).nodes = new.map fun document => ⟨document, 0⟩ := hnew.nodes
  have hfrontier : (seeds.foldl seed begin).frontier = new.map fun document => ⟨document, 0⟩ :=
    hnew.frontier
  constructor
  · intro n hn
    rw [hnodes] at hn
    obtain ⟨document, hdocument, rfl⟩ := mem_map.mp hn
    rw [hnew.visited]
    exact mem_append_right _ (mem_map_of_mem hdocument)
  · rw [hnodes, hfrontier]
    exact fun n hn => hn
  · rw [hreached]
    exact Nat.zero_le _
  · intro n hn
    rw [hnodes] at hn
    obtain ⟨document, -, rfl⟩ := mem_map.mp hn
    exact Nat.zero_le _
  · rw [hnodes, hfrontier]
    exact fun n hn _ => hn

theorem Within.expand (h : Within limits walk) (hfrontier : walk.frontier = node :: rest)
    (hdepth : node.depth < limits.depth)
    (hexpand : ImpactWalk.expand graph limits { walk with frontier := rest } node = .ok walk') :
    Within limits walk' := by
  obtain ⟨hwalk, hbudget⟩ := expand_eq_ok hexpand
  obtain ⟨new, hnew, -, hreached⟩ := @discovers_rows { walk with frontier := rest }
    (node.depth + 1) (incoming graph node.document.path)
  rw [← hwalk] at hnew hreached
  constructor
  · intro n hn
    rw [hnew.nodes] at hn
    rw [hnew.visited]
    rcases mem_append.mp hn with hn | hn
    · exact mem_append_left _ (h.held n hn)
    · obtain ⟨document, hdocument, rfl⟩ := mem_map.mp hn
      exact mem_append_right _ (mem_map_of_mem hdocument)
  · intro n hn
    rw [hnew.frontier] at hn
    rw [hnew.nodes]
    rcases mem_append.mp hn with hn | hn
    · exact mem_append_left _ (h.waiting n (hfrontier ▸ mem_cons_of_mem _ hn))
    · exact mem_append_right _ hn
  · rw [hreached, ← hnew.length_fresh]
    rcases hbudget with hnone | hfits
    · rw [hnone]
      exact h.reached
    · exact hfits
  · intro n hn
    rw [hnew.nodes] at hn
    rcases mem_append.mp hn with hn | hn
    · exact h.shallow n hn
    · obtain ⟨document, -, rfl⟩ := mem_map.mp hn
      exact hdepth
  · intro n hn hdeep
    rw [hnew.nodes] at hn
    rw [hnew.frontier]
    rcases mem_append.mp hn with hn | hn
    · have hwaits := h.deep n hn hdeep
      rw [hfrontier] at hwaits
      rcases mem_cons.mp hwaits with rfl | hwaits
      · omega
      · exact mem_append_left _ hwaits
    · exact mem_append_right _ hn

/-- How a loop ends that no clock stops. -/
inductive Ended (graph : ProjectGraph) (limits : TraversalLimits) (walk : ImpactWalk) :
    Option TraversalLimit → Prop
  | done : walk.frontier = [] → Ended graph limits walk none
  | depth {node : TraversalNode} {rest : List TraversalNode} :
      walk.frontier = node :: rest → limits.depth ≤ node.depth →
      Ended graph limits walk (some .depth)
  | nodes {node : TraversalNode} {rest : List TraversalNode} :
      walk.frontier = node :: rest →
      limits.nodes < walk.reached + (fresh { walk with frontier := rest }
        (incoming graph node.document.path)).length →
      Ended graph limits walk (some .nodes)

theorem expand_eq_error {stop : TraversalLimit}
    (h : ImpactWalk.expand graph limits walk node = .error stop) :
    stop = .nodes ∧
      limits.nodes < walk.reached + (walk.fresh (incoming graph node.document.path)).length := by
  unfold ImpactWalk.expand at h
  dsimp only at h
  split at h
  · cases h
  · split at h
    · rename_i hover
      cases h
      exact ⟨rfl, hover⟩
    · cases h

/-- A loop that no clock stops makes the expansions its limits allow, up to one they do not. -/
theorem loop_ends (h : Within limits walk) (count : ℕ) :
    ReflTransGen (Step graph) walk (loop graph limits never count walk).1 ∧
      Within limits (loop graph limits never count walk).1 ∧
      Ended graph limits (loop graph limits never count walk).1
        (loop graph limits never count walk).2.1 := by
  induction hleft : walk.left graph using Nat.strong_induction_on generalizing walk count with
  | _ left ih =>
    unfold loop
    split
    · rename_i hempty
      exact ⟨.refl, h, .done hempty⟩
    · rename_i node rest hfrontier
      rw [if_neg (by simp [never])]
      split
      · rename_i hdeep
        exact ⟨.refl, h, .depth hfrontier hdeep⟩
      · rename_i hdepth
        split
        · rename_i stop hexpand
          obtain ⟨rfl, hover⟩ := expand_eq_error hexpand
          exact ⟨.refl, h, .nodes hfrontier hover⟩
        · rename_i next hexpand
          have hstep : Step graph walk next := ⟨node, rest, hfrontier, (expand_eq_ok hexpand).1⟩
          obtain ⟨hsteps, hrest⟩ := ih _ (hleft ▸ left_loop hfrontier hexpand)
            (h.expand hfrontier (Nat.not_le.mp hdepth) hexpand) (count + 1) rfl
          exact ⟨.head hstep hsteps, hrest⟩

theorem impactTraversal_of_loop {seeds : List SourceRef} {stop : Option TraversalLimit} {count : ℕ}
    (h : loop graph limits never 0 (seeds.foldl seed begin) = (walk, stop, count)) :
    impactTraversal graph seeds ⟨limits, never⟩ = finish graph limits false walk stop count := by
  change ImpactWalk.run graph ⟨limits, never⟩ false (seeds.foldl seed begin) = _
  rw [ImpactWalk.run, h]

theorem loop_done (hfrontier : walk.frontier = []) (count : ℕ) :
    loop graph limits never count walk = (walk, none, count) := by
  unfold loop
  split
  · rfl
  · rename_i hcons
    rw [hfrontier] at hcons
    cases hcons

theorem loop_deep (hfrontier : walk.frontier = node :: rest) (hdeep : limits.depth ≤ node.depth)
    (count : ℕ) : loop graph limits never count walk = (walk, some .depth, count) := by
  unfold loop
  split
  · rename_i hnil
    rw [hfrontier] at hnil
    cases hnil
  · rename_i hcons
    obtain ⟨rfl, rfl⟩ := List.cons.inj (hfrontier.symm.trans hcons)
    rw [if_neg (by simp [never]), if_pos hdeep]

theorem loop_expand (hfrontier : walk.frontier = node :: rest) (hdepth : node.depth < limits.depth)
    (hexpand : ImpactWalk.expand graph limits { walk with frontier := rest } node = .ok walk')
    (count : ℕ) :
    loop graph limits never count walk = loop graph limits never (count + 1) walk' := by
  rw [loop]
  split
  · rename_i hnil
    rw [hfrontier] at hnil
    cases hnil
  · rename_i hcons
    obtain ⟨rfl, rfl⟩ := List.cons.inj (hfrontier.symm.trans hcons)
    rw [if_neg (by simp [never]), if_neg (Nat.not_le.mpr hdepth)]
    split
    · rename_i hstop
      cases hexpand.symm.trans hstop
    · rename_i hnext
      cases hexpand.symm.trans hnext
      rfl

/-! ## A walk without limits -/

/-- The count and the rows not held yet never exceed the rows of the graph, and no document waits
deeper than the count. -/
structure Roomy (graph : ProjectGraph) (walk : ImpactWalk) : Prop where
  room : walk.reached + (walk.unheld graph).length ≤ graph.edges.length
  depth : ∀ n ∈ walk.frontier, n.depth ≤ walk.reached

theorem roomy_seeds (graph : ProjectGraph) (seeds : List SourceRef) :
    Roomy graph (seeds.foldl seed begin) := by
  obtain ⟨hzero, hshallow⟩ := @begin_seeds seeds
  constructor
  · rw [hzero, Nat.zero_add]
    exact length_filter_le _ _
  · intro n hn
    rw [hshallow n hn]
    exact Nat.zero_le _

theorem room_follow {edge : IndexEdge} (hedge : edge ∈ graph.edges) :
    (walk.follow depth edge).reached + ((walk.follow depth edge).unheld graph).length ≤
      walk.reached + (walk.unheld graph).length := by
  by_cases hheld : edge.fromRef.path ∈ walk.visited
  · have hsame : (walk.follow depth edge) = { walk with edges := walk.edges ++ [edge] } := by
      simp only [follow, discover, if_pos hheld]
    rw [hsame]
    exact Nat.le_refl _
  · have hcount : (walk.follow depth edge).reached = walk.reached + 1 := by
      rw [follow, (discover_rest _ _ _).2, if_neg hheld]
    have hfewer := @unheld_discover graph
      { walk with
        reached := if edge.fromRef.path ∈ walk.visited then walk.reached else walk.reached + 1
        edges := walk.edges ++ [edge] }
      { edge.fromRef with line := none } depth ⟨edge, hedge, rfl⟩ hheld
    have hheldBy : (walk.follow depth edge).unheld graph = unheld graph
        (discover { walk with
          reached := if edge.fromRef.path ∈ walk.visited then walk.reached else walk.reached + 1
          edges := walk.edges ++ [edge] } { edge.fromRef with line := none } depth) := rfl
    rw [hcount, hheldBy]
    change _ < (walk.unheld graph).length at hfewer
    omega

theorem room_foldl (hrows : ∀ edge ∈ rows, edge ∈ graph.edges) :
    (rows.foldl (follow depth) walk).reached +
        ((rows.foldl (follow depth) walk).unheld graph).length ≤
      walk.reached + (walk.unheld graph).length := by
  induction rows generalizing walk with
  | nil => exact Nat.le_refl _
  | cons edge rows ih =>
    exact (ih fun e he => hrows e (mem_cons_of_mem _ he)).trans
      (room_follow (hrows edge mem_cons_self))

theorem Roomy.step (h : Roomy graph walk) (hstep : Step graph walk walk') : Roomy graph walk' := by
  obtain ⟨node, rest, new, hfrontier, hnew, -, hreached⟩ := hstep.discovers
  constructor
  · obtain ⟨node, rest, -, rfl⟩ := hstep
    exact (room_foldl fun edge hedge => (mem_filter.mp hedge).1).trans h.room
  · intro n hn
    rw [hnew.frontier] at hn
    rcases mem_append.mp hn with hn | hn
    · have := h.depth n (hfrontier ▸ mem_cons_of_mem _ hn)
      omega
    · obtain ⟨document, hdocument, rfl⟩ := mem_map.mp hn
      have hnode := h.depth node (hfrontier ▸ mem_cons_self)
      have hsome := length_pos_of_mem hdocument
      dsimp only
      omega

theorem Roomy.steps (h : Roomy graph walk) (hsteps : ReflTransGen (Step graph) walk walk') :
    Roomy graph walk' := by
  induction hsteps with
  | refl => exact h
  | tail _ hstep ih => exact ih.step hstep

/-- Whatever an expansion discovers takes a row that is not held yet. -/
theorem fresh_le_unheld (walk : ImpactWalk) (path : Path) :
    (walk.fresh (incoming graph path)).length ≤ (walk.unheld graph).length := by
  refine (dedup_sublist _).length_le.trans ?_
  rw [filter_map, length_map]
  exact ((filter_sublist.filter _).length_le).trans_eq (by rfl)

theorem loop_free (hdepth : graph.edges.length < free.depth)
    (hnodes : graph.edges.length ≤ free.nodes) (hwithin : Within free walk)
    (hroomy : Roomy graph walk) (count : ℕ) :
    (loop graph free never count walk).1.frontier = [] := by
  obtain ⟨hsteps, -, hended⟩ := @loop_ends graph _ _ hwithin count
  have hend := hroomy.steps hsteps
  generalize (loop graph free never count walk).1 = last at hend hended ⊢
  generalize (loop graph free never count walk).2.1 = stop at hended
  cases hended with
  | done hempty => exact hempty
  | @depth node rest hfrontier hdeep =>
    have := hend.depth node (hfrontier ▸ mem_cons_self)
    have := hend.room
    omega
  | @nodes node rest hfrontier hover =>
    have := @fresh_le_unheld graph { last with frontier := rest } node.document.path
    have hroom := hend.room
    change _ ≤ (last.unheld graph).length at this
    omega

theorem cut_of_nodes (h : Within limits walk) (hfrontier : walk.frontier = node :: rest)
    (hover : limits.nodes < walk.reached + (fresh { walk with frontier := rest }
      (incoming graph node.document.path)).length)
    (hlast : ReflTransGen (Step graph) walk last) (hended : last.frontier = []) :
    ∃ n ∈ last.nodes, n ∉ walk.nodes := by
  rcases hlast.cases_head with rfl | ⟨next, hstep, hlast⟩
  · rw [hended] at hfrontier
    cases hfrontier
  · obtain ⟨node', rest', new, hfrontier', hnew, -, -⟩ := hstep.discovers
    obtain ⟨rfl, rfl⟩ := List.cons.inj (hfrontier.symm.trans hfrontier')
    rw [hnew.length_fresh] at hover
    have hreached := h.reached
    obtain ⟨document, hdocument⟩ := exists_mem_of_length_pos (show 0 < new.length by omega)
    refine ⟨⟨document, node.depth + 1⟩, (steps_report hlast).1.subset ?_, fun hheld => ?_⟩
    · rw [hnew.nodes]
      exact mem_append_right _ (mem_map_of_mem hdocument)
    · exact ((hnew.mem _).mp (mem_map_of_mem hdocument)).2 (h.held _ hheld)

end ImpactWalk

open ImpactWalk

/-- A walk reports a document or a row that a slice does not. -/
def ImpactSlice.Misses (slice whole : ImpactSlice) : Prop :=
  (∃ node ∈ whole.nodes, node ∉ slice.nodes) ∨ ∃ edge ∈ whole.edges, edge ∉ slice.edges

/-- A limit of the traversal stands beside the graph's own reasons. -/
def ImpactSlice.Stopped (graph : ProjectGraph) (slice : ImpactSlice) : Prop :=
  ∃ limit, slice.completeness.reasons =
    graph.completeness.reasons ++ [.traversalLimit limit]

/-- A limit is reported exactly where the walk without limits reports more, or where a document
was reached at the depth bound; what is left is the graph's own coverage. -/
theorem stopped_iff {graph : ProjectGraph} {free : TraversalLimits}
    (hdepth : graph.edges.length < free.depth) (hnodes : graph.edges.length ≤ free.nodes)
    (seeds : List SourceRef) (limits : TraversalLimits) :
    let slice := impactTraversal graph seeds ⟨limits, never⟩
    let whole := impactTraversal graph seeds ⟨free, never⟩
    (slice.Stopped graph ↔
        slice.Misses whole ∨ ∃ node ∈ slice.nodes, node.depth = limits.depth) ∧
      (graph.completeness = .complete → ¬ slice.Misses whole →
        (∀ node ∈ slice.nodes, node.depth ≠ limits.depth) →
        (∀ edge ∈ slice.edges, edge.kind ≠ .test) → slice.testsStatus = "no tests found") := by
  intro slice whole
  obtain ⟨hsteps, hwithin, hended⟩ := @loop_ends graph _ _ (within_seeds limits seeds) 0
  obtain ⟨hfree, -, -⟩ := @loop_ends graph _ _ (within_seeds free seeds) 0
  have hempty := loop_free hdepth hnodes (within_seeds free seeds) (roomy_seeds graph seeds) 0
  have hrest := step_last hsteps hfree hempty
  have hslice : slice.nodes = (loop graph limits never 0 (seeds.foldl seed begin)).1.nodes ∧
      slice.edges = (loop graph limits never 0 (seeds.foldl seed begin)).1.edges ∧
      slice.completeness = .fromReasons (graph.completeness.reasons ++
        ((loop graph limits never 0 (seeds.foldl seed begin)).2.1.map
          PartialReason.traversalLimit).toList) := ⟨rfl, rfl, rfl⟩
  have hwhole : whole.nodes = (loop graph free never 0 (seeds.foldl seed begin)).1.nodes ∧
      whole.edges = (loop graph free never 0 (seeds.foldl seed begin)).1.edges := ⟨rfl, rfl⟩
  generalize (loop graph limits never 0 (seeds.foldl seed begin)).1 = walk at *
  generalize (loop graph limits never 0 (seeds.foldl seed begin)).2.1 = stop at *
  generalize (loop graph free never 0 (seeds.foldl seed begin)).1 = last at *
  have hstopped : slice.Stopped graph ↔ stop ≠ none := by
    rw [ImpactSlice.Stopped, hslice.2.2, Completeness.reasons_fromReasons]
    cases stop <;> simp
  have hcut : stop ≠ none ↔
      slice.Misses whole ∨ ∃ node ∈ slice.nodes, node.depth = limits.depth := by
    cases hended with
    | done hfinished =>
      have hsame := step_ended hfinished hrest
      refine iff_of_false (not_not.mpr rfl) ?_
      rintro ((⟨node, hnode, hnew⟩ | ⟨edge, hedge, hnew⟩) | ⟨node, hnode, hdeep⟩)
      · rw [hwhole.1, hsame, ← hslice.1] at hnode
        exact hnew hnode
      · rw [hwhole.2, hsame, ← hslice.2.1] at hedge
        exact hnew hedge
      · rw [hslice.1] at hnode
        have hwaits := hwithin.deep node hnode hdeep.ge
        rw [hfinished] at hwaits
        cases hwaits
    | @depth node rest hfrontier hdeep =>
      have hnode := hwithin.waiting node (hfrontier ▸ mem_cons_self)
      refine iff_of_true (by simp) (.inr ⟨node, hslice.1 ▸ hnode, ?_⟩)
      exact le_antisymm (hwithin.shallow node hnode) hdeep
    | @nodes node rest hfrontier hover =>
      obtain ⟨n, hn, hnew⟩ := cut_of_nodes hwithin hfrontier hover hrest hempty
      refine iff_of_true (by simp) (.inl (.inl ⟨n, hwhole.1 ▸ hn, ?_⟩))
      rwa [hslice.1]
  refine ⟨hstopped.trans hcut, fun hcovered hnone hshallow hfree => ?_⟩
  have hdone : stop = none := by
    by_contra hstop
    rcases hcut.mp hstop with hmissed | ⟨node, hnode, hdeep⟩
    · exact hnone hmissed
    · exact hshallow node hnode hdeep
  have hcomplete : slice.completeness = .complete := by
    rw [hslice.2.2, hdone, hcovered]
    rfl
  rw [ImpactSlice.testsStatus, ImpactSlice.tests_eq_nil.mpr hfree, hcomplete]
  rfl

/-- One document that nothing depends on, at the bound. -/
theorem leaf_at_the_bound :
    let graph : ProjectGraph := ⟨[⟨⟨["b.rs"], some 1, false⟩, ⟨["a.rs"], none, false⟩, .import,
      .observed, 1, .certain⟩], .complete, [], [], [["a.rs"], ["b.rs"]]⟩
    let slice := impactTraversal graph [⟨["a.rs"], none, false⟩] ⟨⟨1, 64, 60⟩, never⟩
    let whole := impactTraversal graph [⟨["a.rs"], none, false⟩] ⟨⟨64, 64, 60⟩, never⟩
    slice.Stopped graph ∧ ¬ slice.Misses whole ∧
      slice.testsStatus = "tests unknown: traversal incomplete" := by
  intro graph slice whole
  let nodes : List TraversalNode := [⟨⟨["a.rs"], none, false⟩, 0⟩, ⟨⟨["b.rs"], none, false⟩, 1⟩]
  let walk : ImpactWalk := ⟨[⟨⟨["b.rs"], none, false⟩, 1⟩], [["a.rs"], ["b.rs"]], nodes,
    graph.edges, 1, 1⟩
  have hwalk : ∀ depth, 0 < depth →
      loop graph ⟨depth, 64, 60⟩ never 0 (seed begin ⟨["a.rs"], none, false⟩) =
        loop graph ⟨depth, 64, 60⟩ never 1 walk := fun depth hdepth =>
    @loop_expand graph ⟨depth, 64, 60⟩ (seed begin ⟨["a.rs"], none, false⟩) walk
      ⟨⟨["a.rs"], none, false⟩, 0⟩ [] rfl hdepth rfl 0
  have hstop : loop graph ⟨1, 64, 60⟩ never 0 (seed begin ⟨["a.rs"], none, false⟩) =
      (walk, some .depth, 1) :=
    (hwalk 1 (by decide)).trans (loop_deep rfl (Nat.le_refl 1) 1)
  have hlast : loop graph ⟨64, 64, 60⟩ never 0 (seed begin ⟨["a.rs"], none, false⟩) =
      ({ walk with frontier := [] }, none, 2) := by
    rw [hwalk 64 (by decide), @loop_expand graph ⟨64, 64, 60⟩ walk { walk with frontier := [] }
      ⟨⟨["b.rs"], none, false⟩, 1⟩ [] rfl (by decide) rfl 1]
    exact loop_done rfl 2
  have hslice : slice = _ := impactTraversal_of_loop hstop
  have hwhole : whole = _ := impactTraversal_of_loop hlast
  rw [hslice, hwhole]
  refine ⟨⟨.depth, rfl⟩, ?_, ?_⟩
  · rintro (⟨node, hnode, hnew⟩ | ⟨edge, hedge, hnew⟩)
    · exact hnew hnode
    · exact hnew hedge
  · rw [ImpactSlice.testsStatus, ImpactSlice.tests_eq_nil.mpr]
    · rfl
    · intro edge hedge
      rw [mem_singleton.mp hedge]
      decide

/-- One document depends on another that depends on the seed; the bound cuts between them. -/
theorem stopped_iff_chain :
    let graph : ProjectGraph := ⟨[⟨⟨["b.rs"], some 1, false⟩, ⟨["a.rs"], none, false⟩, .import,
      .observed, 1, .certain⟩, ⟨⟨["c.rs"], some 1, false⟩, ⟨["b.rs"], none, false⟩, .import,
      .observed, 1, .certain⟩], .complete, [], [], [["a.rs"], ["b.rs"], ["c.rs"]]⟩
    (impactTraversal graph [⟨["a.rs"], none, false⟩] ⟨⟨1, 64, 60⟩, never⟩).Stopped graph := by
  intro graph
  let nodes : List TraversalNode := [⟨⟨["a.rs"], none, false⟩, 0⟩, ⟨⟨["b.rs"], none, false⟩, 1⟩]
  let walk : ImpactWalk := ⟨[⟨⟨["b.rs"], none, false⟩, 1⟩], [["a.rs"], ["b.rs"]], nodes,
    graph.edges.take 1, 1, 1⟩
  let deeper : ImpactWalk := ⟨[⟨⟨["c.rs"], none, false⟩, 2⟩], graph.documents,
    nodes ++ [⟨⟨["c.rs"], none, false⟩, 2⟩], graph.edges, 2, 2⟩
  have hwalk : ∀ depth, 0 < depth →
      loop graph ⟨depth, 64, 60⟩ never 0 (seed begin ⟨["a.rs"], none, false⟩) =
        loop graph ⟨depth, 64, 60⟩ never 1 walk := fun depth hdepth =>
    @loop_expand graph ⟨depth, 64, 60⟩ (seed begin ⟨["a.rs"], none, false⟩) walk
      ⟨⟨["a.rs"], none, false⟩, 0⟩ [] rfl hdepth rfl 0
  have hstop : loop graph ⟨1, 64, 60⟩ never 0 (seed begin ⟨["a.rs"], none, false⟩) =
      (walk, some .depth, 1) :=
    (hwalk 1 (by decide)).trans (loop_deep rfl (Nat.le_refl 1) 1)
  have hlast : loop graph ⟨64, 64, 60⟩ never 0 (seed begin ⟨["a.rs"], none, false⟩) =
      ({ deeper with frontier := [] }, none, 3) := by
    rw [hwalk 64 (by decide), @loop_expand graph ⟨64, 64, 60⟩ walk deeper
      ⟨⟨["b.rs"], none, false⟩, 1⟩ [] rfl (by decide) rfl 1,
      @loop_expand graph ⟨64, 64, 60⟩ deeper { deeper with frontier := [] }
      ⟨⟨["c.rs"], none, false⟩, 2⟩ [] rfl (by decide) rfl 2]
    exact loop_done rfl 3
  refine (@stopped_iff graph ⟨64, 64, 60⟩ (by decide) (by decide) _ _).1.mpr (.inl ?_)
  rw [impactTraversal_of_loop hstop, impactTraversal_of_loop hlast]
  exact .inl ⟨⟨⟨["c.rs"], none, false⟩, 2⟩, by decide, by decide⟩

end Rivect.Index
