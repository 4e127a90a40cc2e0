import Mathlib.Data.List.Perm.Basic
import Mathlib.Data.List.Flatten
import Rivect.Index.Impact

/-! # A walk in slices

However the grants cut it, the slices of one walk are the pieces of one breadth-first walk.
-/

namespace Rivect.Index

open Lib List

/-- The documents that depend on one, in the order of the rows. -/
def dependents (graph : ProjectGraph) (path : Path) : List Path :=
  (incoming graph path).map fun edge => edge.fromRef.path

def TraversalNode.key (node : TraversalNode) : Path × ℕ := (node.document.path, node.depth)

namespace ImpactWalk

variable {graph : ProjectGraph} {limits : TraversalLimits} {walk walk' walk'' : ImpactWalk}
  {document : SourceRef} {node : TraversalNode} {depth : ℕ} {rows : List IndexEdge}
  {seeds new new' : List SourceRef} {paths paths' : List Path}
  {nodes0 expanded : List TraversalNode} {edges0 : List IndexEdge}

/-! ## What one discovery adds -/

/-- `new` are those of `paths` that the walk did not hold; they join it in one order everywhere. -/
structure Discovers (walk walk' : ImpactWalk) (depth : ℕ) (paths : List Path)
    (new : List SourceRef) : Prop where
  nodup : (new.map SourceRef.path).Nodup
  mem : ∀ k, k ∈ new.map SourceRef.path ↔ k ∈ paths ∧ k ∉ walk.visited
  visited : walk'.visited = walk.visited ++ new.map SourceRef.path
  nodes : walk'.nodes = walk.nodes ++ new.map fun document => ⟨document, depth⟩
  frontier : walk'.frontier = walk.frontier ++ new.map fun document => ⟨document, depth⟩

theorem Discovers.nothing : Discovers walk walk depth [] [] := by
  constructor <;> simp

theorem Discovers.trans (h : Discovers walk walk' depth paths new)
    (h' : Discovers walk' walk'' depth paths' new') :
    Discovers walk walk'' depth (paths ++ paths') (new ++ new') := by
  constructor
  · rw [map_append, nodup_append]
    refine ⟨h.nodup, h'.nodup, ?_⟩
    rintro k hk l hl rfl
    have hfresh := ((h'.mem k).mp hl).2
    rw [h.visited] at hfresh
    exact hfresh (mem_append_right _ hk)
  · intro k
    rw [map_append, mem_append, h.mem, h'.mem, h.visited, mem_append, h.mem,
      mem_append]
    tauto
  · rw [h'.visited, h.visited, map_append, append_assoc]
  · rw [h'.nodes, h.nodes, map_append, append_assoc]
  · rw [h'.frontier, h.frontier, map_append, append_assoc]

theorem discovers_discover :
    ∃ new, Discovers walk (walk.discover document depth) depth [document.path] new ∧
      new.length = if document.path ∈ walk.visited then 0 else 1 := by
  unfold discover
  split
  · rename_i hheld
    refine ⟨[], ⟨nodup_nil, fun k => ?_, by simp, by simp, by simp⟩, rfl⟩
    constructor
    · nofun
    · rintro ⟨hk, hnew⟩
      obtain rfl : k = document.path := by simpa using hk
      exact absurd hheld hnew
  · rename_i hnew
    refine ⟨[document], ⟨nodup_singleton _, fun k => ?_, rfl, rfl, rfl⟩, rfl⟩
    constructor
    · intro hk
      obtain rfl : k = document.path := by simpa using hk
      exact ⟨mem_singleton.mpr rfl, hnew⟩
    · exact fun hk => by simpa using hk.1

/-- Discovery reads and writes neither the rows nor the count. -/
theorem discover_rest (walk : ImpactWalk) (document : SourceRef) (depth : ℕ) :
    (walk.discover document depth).edges = walk.edges ∧
      (walk.discover document depth).reached = walk.reached := by
  unfold discover
  split <;> exact ⟨rfl, rfl⟩

theorem discovers_seeds :
    ∃ new, Discovers walk (seeds.foldl seed walk) 0 (seeds.map SourceRef.path) new ∧
      (seeds.foldl seed walk).edges = walk.edges ∧
      (seeds.foldl seed walk).reached = walk.reached := by
  induction seeds generalizing walk with
  | nil => exact ⟨[], .nothing, rfl, rfl⟩
  | cons document seeds ih =>
    obtain ⟨first, hfirst, -⟩ := @discovers_discover walk { document with line := none } 0
    obtain ⟨rest, hrest, hedges, hreached⟩ := @ih (walk.seed document)
    have hkept := discover_rest walk { document with line := none } 0
    exact ⟨first ++ rest, hfirst.trans hrest, hedges.trans hkept.1, hreached.trans hkept.2⟩

theorem discovers_rows :
    ∃ new, Discovers walk (rows.foldl (follow depth) walk) depth
        (rows.map fun edge => edge.fromRef.path) new ∧
      (rows.foldl (follow depth) walk).edges = walk.edges ++ rows ∧
      (rows.foldl (follow depth) walk).reached = walk.reached + new.length := by
  induction rows generalizing walk with
  | nil => exact ⟨[], .nothing, (append_nil _).symm, rfl⟩
  | cons edge rows ih =>
    obtain ⟨first, hfirst, hone⟩ := @discovers_discover { walk with
      reached := if edge.fromRef.path ∈ walk.visited then walk.reached else walk.reached + 1
      edges := walk.edges ++ [edge] } { edge.fromRef with line := none } depth
    obtain ⟨rest, hrest, hedges, hreached⟩ := @ih (walk.follow depth edge)
    have hkept := discover_rest { walk with
      reached := if edge.fromRef.path ∈ walk.visited then walk.reached else walk.reached + 1
      edges := walk.edges ++ [edge] } { edge.fromRef with line := none } depth
    have hstep : Discovers walk (walk.follow depth edge) depth [edge.fromRef.path] first :=
      ⟨hfirst.nodup, hfirst.mem, hfirst.visited, hfirst.nodes, hfirst.frontier⟩
    refine ⟨first ++ rest, hstep.trans hrest, ?_, ?_⟩
    · rw [foldl_cons, hedges]
      simp only [follow, hkept.1, append_assoc, singleton_append]
    · rw [foldl_cons, hreached, length_append]
      simp only [follow, hkept.2]
      rw [hone]
      split <;> omega

/-- The node budget counts exactly what an expansion discovers. -/
theorem Discovers.length_fresh
    (h : Discovers walk walk' depth (rows.map fun edge => edge.fromRef.path) new) :
    (walk.fresh rows).length = new.length := by
  rw [← length_map (f := SourceRef.path)]
  apply Perm.length_eq
  refine (perm_ext_iff_of_nodup (nodup_dedup _) h.nodup).mpr fun k => ?_
  rw [h.mem, mem_dedup, mem_filter, decide_eq_true_iff]

/-! ## What holds between two expansions -/

/-- A walk as it stands after whole expansions: `nodes0` and `edges0` are what earlier slices
reported. -/
structure Holds (graph : ProjectGraph) (seeds : List SourceRef) (nodes0 : List TraversalNode)
    (edges0 : List IndexEdge) (expanded : List TraversalNode) (walk : ImpactWalk) : Prop where
  breadth : Breadth (dependents graph) (seeds.map SourceRef.path)
    (expanded.map TraversalNode.key) (walk.frontier.map TraversalNode.key)
  nodes : nodes0 ++ walk.nodes = expanded ++ walk.frontier
  visited : ∀ k, k ∈ walk.visited ↔ k ∈ (expanded ++ walk.frontier).map fun n => n.document.path
  edges : edges0 ++ walk.edges = expanded.flatMap fun n => incoming graph n.document.path
  reached : walk.reached =
    (expanded ++ walk.frontier).countP fun n => n.document.path ∉ seeds.map SourceRef.path

theorem map_key_fst (nodes : List TraversalNode) :
    (nodes.map TraversalNode.key).map Prod.fst = nodes.map fun n => n.document.path := by
  rw [map_map]
  rfl

theorem holds_begin :
    Holds graph seeds [] [] [] (seeds.foldl seed begin) := by
  obtain ⟨new, hnew, hedges, hreached⟩ := @discovers_seeds begin seeds
  have hmem : ∀ k, k ∈ new.map SourceRef.path ↔ k ∈ seeds.map SourceRef.path := fun k => by
    rw [hnew.mem]
    exact and_iff_left (by simp [begin])
  have hfrontier : (seeds.foldl seed begin).frontier = new.map fun document => ⟨document, 0⟩ :=
    hnew.frontier
  have hpaths : ((seeds.foldl seed begin).frontier.map fun n => n.document.path) =
      new.map SourceRef.path := by
    rw [hfrontier, map_map]
    rfl
  constructor
  · have hstart : Breadth (dependents graph) _ [] _ := Breadth.start hnew.nodup hmem
    rw [hfrontier, map_map]
    rw [map_map] at hstart
    exact hstart
  · rw [hfrontier]
    exact hnew.nodes
  · intro k
    rw [nil_append, hpaths, hnew.visited]
    rfl
  · exact hedges
  · rw [hreached, nil_append, hfrontier]
    refine (countP_eq_zero.mpr fun n hn => ?_).symm
    obtain ⟨document, hdocument, rfl⟩ := mem_map.mp hn
    simpa using (hmem document.path).mp (mem_map_of_mem hdocument)

/-- One expansion keeps what holds; it adds documents one row deeper, and counts each. -/
theorem Holds.expand {rest : List TraversalNode} (h : Holds graph seeds nodes0 edges0 expanded walk)
    (hfrontier : walk.frontier = node :: rest)
    (hexpand : ImpactWalk.expand graph limits { walk with frontier := rest } node = .ok walk') :
    Holds graph seeds nodes0 edges0 (expanded ++ [node]) walk' ∧
      (walk'.reached = walk.reached ∨ walk'.reached ≤ limits.nodes) ∧
      ∀ n ∈ walk'.frontier, n ∈ walk.frontier ∨ n.depth = node.depth + 1 := by
  obtain ⟨hwalk, hbudget⟩ := expand_eq_ok hexpand
  obtain ⟨new, hnew, hedges, hreached⟩ := @discovers_rows { walk with frontier := rest }
    (node.depth + 1) (incoming graph node.document.path)
  rw [← hwalk] at hnew hedges hreached
  have hbreadth := h.breadth
  rw [hfrontier, map_cons] at hbreadth
  -- what is visited is what was expanded or waits, which is how the search over keys has it
  have hvisited : ∀ k, k ∈ walk.visited ↔
      k ∈ (expanded.map TraversalNode.key ++
        node.key :: rest.map TraversalNode.key).map Prod.fst := by
    intro k
    rw [h.visited, hfrontier, ← map_cons, ← map_append, map_key_fst]
  have hmem : ∀ k, k ∈ new.map SourceRef.path ↔ k ∈ dependents graph node.document.path ∧
      k ∉ (expanded.map TraversalNode.key ++
        node.key :: rest.map TraversalNode.key).map Prod.fst := by
    intro k
    rw [hnew.mem, ← hvisited]
    rfl
  have hnext := hbreadth.expand hnew.nodup hmem
  have hunseeded : ∀ document ∈ new, document.path ∉ seeds.map SourceRef.path := by
    intro document hdocument hseed
    have hheld := h.breadth.seeded _ hseed
    have hfresh := ((hnew.mem _).mp (mem_map_of_mem hdocument)).2
    apply hfresh
    rw [h.visited, ← map_key_fst, map_append]
    exact mem_map.mpr ⟨_, hheld, rfl⟩
  have hcut : expanded ++ [node] ++ walk'.frontier =
      expanded ++ walk.frontier ++ new.map fun document => ⟨document, node.depth + 1⟩ := by
    rw [hnew.frontier, hfrontier]
    simp
  refine ⟨⟨?_, ?_, ?_, ?_, ?_⟩, ?_, ?_⟩
  · rw [hnew.frontier, map_append, map_append, map_map]
    rw [map_map] at hnext
    exact hnext
  · rw [hcut, ← h.nodes, hnew.nodes, append_assoc]
  · intro k
    rw [hcut, hnew.visited, map_append, mem_append, mem_append, h.visited,
      map_map]
    rfl
  · rw [hedges, flatMap_append, ← h.edges, append_assoc]
    simp
  · rw [hcut, hreached, countP_append, ← h.reached, countP_map]
    congr 1
    refine (countP_eq_length.mpr fun document hdocument => ?_).symm
    simpa using hunseeded document hdocument
  · have hfresh := hnew.length_fresh
    rcases hbudget with hnone | hfits
    · left
      have hzero : new = [] := by
        refine eq_nil_iff_forall_not_mem.mpr fun document hdocument => ?_
        have hin := ((hnew.mem _).mp (mem_map_of_mem hdocument)).1
        rw [hnone] at hin
        cases hin
      rw [hreached, hzero]
      rfl
    · right
      rw [hreached, ← hfresh]
      exact hfits
  · intro n hn
    rw [hnew.frontier] at hn
    rcases mem_append.mp hn with hn | hn
    · left
      rw [hfrontier]
      exact mem_cons_of_mem _ hn
    · right
      obtain ⟨document, -, rfl⟩ := mem_map.mp hn
      rfl

/-! ## The loop and one slice -/

/-- What a slice's loop adds to a walk that holds: more expansions, within its own grant. -/
structure Advances (graph : ProjectGraph) (seeds : List SourceRef) (nodes0 : List TraversalNode)
    (edges0 : List IndexEdge) (limits : TraversalLimits) (expanded : List TraversalNode)
    (walk : ImpactWalk) (more : List TraversalNode) (walk' : ImpactWalk) : Prop where
  holds : Holds graph seeds nodes0 edges0 (expanded ++ more) walk'
  reached : walk'.reached = walk.reached ∨ walk'.reached ≤ limits.nodes
  depth : ∀ n ∈ more ++ walk'.frontier, n ∈ walk.frontier ∨ n.depth ≤ limits.depth

theorem advances_loop {struck : ℕ → Bool} (count : ℕ) (walk : ImpactWalk)
    (expanded : List TraversalNode) (h : Holds graph seeds nodes0 edges0 expanded walk) :
    ∃ more, Advances graph seeds nodes0 edges0 limits expanded walk more
        (loop graph limits struck count walk).1 ∧
      (loop graph limits struck count walk).2.2 = count + more.length ∧
      ((loop graph limits struck count walk).2.1 = none →
        (loop graph limits struck count walk).1.frontier = []) := by
  have hstay : Advances graph seeds nodes0 edges0 limits expanded walk [] walk :=
    ⟨by rwa [append_nil], .inl rfl, fun n hn => .inl hn⟩
  induction hleft : walk.left graph using Nat.strong_induction_on
    generalizing walk expanded count with
  | _ left ih =>
    unfold loop
    split
    · rename_i hempty
      exact ⟨[], hstay, rfl, fun _ => hempty⟩
    · rename_i node rest hfrontier
      split
      · exact ⟨[], hstay, rfl, fun h => by cases h⟩
      · split
        · exact ⟨[], hstay, rfl, fun h => by cases h⟩
        · rename_i hdepth
          split
          · exact ⟨[], hstay, rfl, fun h => by cases h⟩
          · rename_i next hexpand
            obtain ⟨hnext, hcount, hadded⟩ := h.expand hfrontier hexpand
            have hstayNext : Advances graph seeds nodes0 edges0 limits (expanded ++ [node]) next []
                next := ⟨by rwa [append_nil], .inl rfl, fun n hn => .inl hn⟩
            obtain ⟨more, hmore, hlength, hdone⟩ := ih _ (hleft ▸ left_loop hfrontier hexpand)
              (count + 1) next (expanded ++ [node]) hnext hstayNext rfl
            refine ⟨node :: more, ⟨?_, ?_, ?_⟩, ?_, hdone⟩
            · have := hmore.holds
              rwa [append_assoc, singleton_append] at this
            · rcases hmore.reached with heq | hle
              · rw [heq]
                exact hcount
              · exact .inr hle
            · intro n hn
              rcases mem_cons.mp hn with rfl | hn
              · exact .inl (hfrontier ▸ mem_cons_self)
              · rcases hmore.depth n hn with hold | hle
                · rcases hadded n hold with hold | hdeeper
                  · exact .inl hold
                  · exact .inr (by omega)
                · exact .inr hle
            · rw [hlength, length_cons]
              omega

end ImpactWalk

/-! ## A chain of slices -/

/-- The slices that follow a cursor, one for each grant, while there is one. -/
def resumed (graph : ProjectGraph) : Option TraversalContinuation → List Grant → List ImpactSlice
  | some continuation, grant :: grants =>
    let slice := resumeImpactTraversal graph continuation grant
    slice :: resumed graph slice.continuation grants
  | _, _ => []

/-- The slices of one walk under a sequence of grants. -/
def slices (graph : ProjectGraph) (seeds : List SourceRef) : List Grant → List ImpactSlice
  | [] => []
  | grant :: grants =>
    let slice := impactTraversal graph seeds grant
    slice :: resumed graph slice.continuation grants

/-- Every document that some slices report, in order. -/
def reported (slices : List ImpactSlice) : List TraversalNode := slices.flatMap (·.nodes)

/-- Every row that some slices report, in order. -/
def evidence (slices : List ImpactSlice) : List IndexEdge := slices.flatMap (·.edges)

/-- The walk that a cursor resumes. -/
def TraversalContinuation.walk (continuation : TraversalContinuation) : ImpactWalk :=
  { ImpactWalk.begin with
    frontier := continuation.frontier
    visited := continuation.visited
    reached := continuation.spent.nodes
    reachedDepth := continuation.spent.depth }

/-- No budget of the traversal is among the reasons of a slice. -/
def ImpactSlice.Unlimited (slice : ImpactSlice) : Prop :=
  ∀ limit, .traversalLimit limit ∉ slice.completeness.reasons

section chain

open ImpactWalk

variable {graph : ProjectGraph} {seeds : List SourceRef} {used grants : List Grant} {grant : Grant}
  {chain : List ImpactSlice} {slice : ImpactSlice} {nodes0 expanded : List TraversalNode}
  {edges0 : List IndexEdge} {walk : ImpactWalk} {again : Bool}

/-- One slice of a walk that holds leaves a walk that holds, and its cursor is that walk. -/
theorem advances_run (h : Holds graph seeds nodes0 edges0 expanded walk) :
    ∃ more walk', Holds graph seeds (nodes0 ++ (run graph grant again walk).nodes)
        (edges0 ++ (run graph grant again walk).edges) (expanded ++ more) walk' ∧
      (walk'.reached = walk.reached ∨ walk'.reached ≤ grant.limits.nodes) ∧
      (∀ n ∈ more ++ walk'.frontier, n ∈ walk.frontier ∨ n.depth ≤ grant.limits.depth) ∧
      (∀ c, (run graph grant again walk).continuation = some c → c.walk = walk' ∧
        (again = true → more ≠ [])) ∧
      ((run graph grant again walk).Unlimited → walk'.frontier = []) ∧
      walk'.nodes = [] ∧ walk'.edges = [] := by
  obtain ⟨more, hmore, hlength, hdone⟩ := @advances_loop graph grant.limits seeds nodes0 edges0
    grant.struck 0 walk expanded h
  unfold run
  generalize loop graph grant.limits grant.struck 0 walk = result at hmore hlength hdone ⊢
  obtain ⟨walk', stop, count⟩ := result
  dsimp only at hmore hlength hdone ⊢
  have hholds := hmore.holds
  refine ⟨more, { walk' with nodes := [], edges := [] },
    ⟨hholds.breadth, ?_, hholds.visited, ?_, hholds.reached⟩, hmore.reached, hmore.depth,
    fun c hc => ?_, fun hfree => ?_, rfl, rfl⟩
  · exact (append_nil _).trans hholds.nodes
  · exact (append_nil _).trans hholds.edges
  · obtain ⟨limit, hlimit, rfl⟩ := Option.map_eq_some_iff.mp hc
    refine ⟨rfl, fun hagain hnil => ?_⟩
    have hcount := (Option.filter_eq_some_iff.mp hlimit).2
    rw [hagain, hlength, hnil] at hcount
    simp at hcount
  · apply hdone
    cases stop with
    | none => rfl
    | some limit =>
      refine absurd ?_ (hfree limit)
      rw [finish, Completeness.reasons_fromReasons]
      exact mem_append_right _ (mem_singleton.mpr rfl)

/-- A chain of slices against the one walk behind it: `slice` is its last, `walk` what it left. -/
structure Traced (graph : ProjectGraph) (seeds : List SourceRef) (used : List Grant)
    (chain : List ImpactSlice) (slice : ImpactSlice) (expanded : List TraversalNode)
    (walk : ImpactWalk) : Prop where
  holds : Holds graph seeds (reported chain) (evidence chain) expanded walk
  idle : walk.nodes = [] ∧ walk.edges = []
  last : chain.getLast? = some slice
  cursor : ∀ c, slice.continuation = some c → c.walk = walk
  finished : slice.Unlimited → walk.frontier = []
  nodes : ∃ grant ∈ used, walk.reached ≤ grant.limits.nodes
  depth : ∀ n ∈ expanded ++ walk.frontier, ∃ grant ∈ used, n.depth ≤ grant.limits.depth
  count : chain.length ≤ expanded.length + 2
  moving : slice.continuation ≠ none → chain.length ≤ expanded.length + 1

theorem reported_append_singleton :
    reported (chain ++ [slice]) = reported chain ++ slice.nodes := by
  simp [reported]

theorem evidence_append_singleton :
    evidence (chain ++ [slice]) = evidence chain ++ slice.edges := by
  simp [evidence]

/-- Before the first expansion only the seeds are held, at depth zero and outside the count. -/
theorem begin_seeds : (seeds.foldl seed begin).reached = 0 ∧
    ∀ n ∈ (seeds.foldl seed begin).frontier, n.depth = 0 := by
  obtain ⟨new, hnew, -, hreached⟩ := @discovers_seeds begin seeds
  refine ⟨hreached, fun n hn => ?_⟩
  rw [hnew.frontier] at hn
  obtain ⟨document, -, rfl⟩ := mem_map.mp hn
  rfl

theorem traced_first : ∃ expanded walk, Traced graph seeds [grant]
    [impactTraversal graph seeds grant] (impactTraversal graph seeds grant) expanded walk := by
  obtain ⟨hzero, hshallow⟩ := @begin_seeds seeds
  obtain ⟨more, walk', hholds, hreached, hdepth, hcursor, hfinished, hidle⟩ :=
    @advances_run graph seeds grant [] [] [] _ false (@holds_begin graph seeds)
  refine ⟨more, walk', ⟨?_, hidle, rfl, fun c hc => (hcursor c hc).1, hfinished, ?_, ?_, ?_, ?_⟩⟩
  · simpa [reported, evidence, impactTraversal] using hholds
  · refine ⟨grant, mem_singleton.mpr rfl, ?_⟩
    rcases hreached with heq | hle
    · rw [heq, hzero]
      exact Nat.zero_le _
    · exact hle
  · intro n hn
    refine ⟨grant, mem_singleton.mpr rfl, ?_⟩
    rcases hdepth n hn with hold | hle
    · rw [hshallow n hold]
      exact Nat.zero_le _
    · exact hle
  · simp
  · simp

theorem Traced.resume {c : TraversalContinuation}
    (h : Traced graph seeds used chain slice expanded walk) (hc : slice.continuation = some c) :
    ∃ more walk', Traced graph seeds (used ++ [grant])
      (chain ++ [resumeImpactTraversal graph c grant]) (resumeImpactTraversal graph c grant)
      (expanded ++ more) walk' := by
  have hwalk : c.walk = walk := h.cursor c hc
  obtain ⟨more, walk', hholds, hreached, hdepth, hcursor, hfinished, hidle⟩ :=
    @advances_run graph seeds grant _ expanded _ walk true h.holds
  have hslice : resumeImpactTraversal graph c grant = run graph grant true walk := by
    rw [← hwalk]
    rfl
  have hlong := h.moving (by rw [hc]; nofun)
  rw [hslice]
  refine ⟨more, walk', ⟨?_, hidle, getLast?_concat, fun d hd => (hcursor d hd).1, hfinished,
    ?_, ?_, ?_, ?_⟩⟩
  · rw [reported_append_singleton, evidence_append_singleton]
    exact hholds
  · rcases hreached with heq | hle
    · obtain ⟨old, hold, hle⟩ := h.nodes
      exact ⟨old, mem_append_left _ hold, heq ▸ hle⟩
    · exact ⟨grant, mem_append_right _ (mem_singleton.mpr rfl), hle⟩
  · intro n hn
    rw [append_assoc] at hn
    have hold : n ∈ expanded ++ walk.frontier →
        ∃ g ∈ used ++ [grant], n.depth ≤ g.limits.depth := by
      intro hn
      obtain ⟨old, hold, hle⟩ := h.depth n hn
      exact ⟨old, mem_append_left _ hold, hle⟩
    rcases mem_append.mp hn with hn | hn
    · exact hold (mem_append_left _ hn)
    · rcases hdepth n hn with hkept | hle
      · exact hold (mem_append_right _ hkept)
      · exact ⟨grant, mem_append_right _ (mem_singleton.mpr rfl), hle⟩
  · simp only [length_append, length_singleton]
    omega
  · intro hmoving
    obtain ⟨d, hd⟩ := Option.ne_none_iff_exists'.mp hmoving
    have hmore := length_pos_iff.mpr ((hcursor d hd).2 rfl)
    simp only [length_append, length_singleton]
    omega

/-- The chain below a cursor, under every sequence of grants; it stops short only where the last
slice left no cursor. -/
theorem Traced.resumed (h : Traced graph seeds used chain slice expanded walk) :
    ∃ last expanded' walk', Traced graph seeds
        (used ++ grants.take (Index.resumed graph slice.continuation grants).length)
        (chain ++ Index.resumed graph slice.continuation grants) last expanded' walk' ∧
      ((Index.resumed graph slice.continuation grants).length = grants.length ∨
        last.continuation = none) := by
  induction grants generalizing used chain slice expanded walk with
  | nil =>
    have hnil : Index.resumed graph slice.continuation [] = [] := by
      cases slice.continuation <;> rfl
    rw [hnil]
    exact ⟨slice, expanded, walk, by simpa using h, .inl rfl⟩
  | cons grant grants ih =>
    cases hc : slice.continuation with
    | none => exact ⟨slice, expanded, walk, by simpa [Index.resumed] using h, .inr hc⟩
    | some c =>
      obtain ⟨more, walk', hnext⟩ := @Traced.resume _ _ _ grant _ _ _ _ c h hc
      obtain ⟨last, expanded', final, htraced, hstop⟩ := ih hnext
      refine ⟨last, expanded', final, ?_, ?_⟩
      · simpa [Index.resumed, append_assoc] using htraced
      · simpa [Index.resumed] using hstop

/-- The rows into distinct documents, document by document, are the rows into any of them. -/
theorem flatMap_incoming_perm {paths : List Path} (hnodup : paths.Nodup) :
    (paths.flatMap (incoming graph)).Perm
      (graph.edges.filter fun edge => edge.confidence = .certain ∧ edge.toRef.path ∈ paths) := by
  induction paths with
  | nil => simp
  | cons path paths ih =>
    obtain ⟨hnew, hnodup⟩ := nodup_cons.mp hnodup
    rw [flatMap_cons]
    refine ((ih hnodup).append_left (incoming graph path)).trans ?_
    refine Perm.trans ?_ (filter_append_perm (fun edge => edge.toRef.path = path) _)
    rw [filter_filter, filter_filter, incoming]
    refine Perm.of_eq (congrArg₂ _ (filter_congr ?_) (filter_congr ?_))
    · intro edge _
      by_cases hpath : edge.toRef.path = path <;> simp [hpath]
    · intro edge _
      by_cases hpath : edge.toRef.path = path <;> simp [hpath, hnew]

section

variable (h : Traced graph seeds used chain slice expanded walk)
include h

theorem Traced.paths :
    reported chain = expanded ++ walk.frontier := by
  have := h.holds.nodes
  rwa [h.idle.1, append_nil] at this

theorem Traced.rows :
    (evidence chain).Perm (graph.edges.filter fun edge =>
      edge.confidence = .certain ∧ edge.toRef.path ∈ expanded.map fun n => n.document.path) := by
  have hedges := h.holds.edges
  rw [h.idle.2, append_nil] at hedges
  have hnodup : (expanded.map fun n => n.document.path).Nodup := by
    rw [← map_key_fst]
    exact (nodup_append.mp (by simpa using h.holds.breadth.nodup)).1
  rw [hedges, show (expanded.flatMap fun n => incoming graph n.document.path) =
    (expanded.map fun n => n.document.path).flatMap (incoming graph) by rw [flatMap_map]]
  exact flatMap_incoming_perm hnodup

/-- Only seeds and documents that a row is read from are ever held. -/
theorem Traced.bounded :
    expanded.length ≤ seeds.length + graph.edges.length := by
  have hnodup := h.holds.breadth.nodup
  rw [map_append, nodup_append, map_key_fst] at hnodup
  have hsubset : (expanded.map fun n => n.document.path) ⊆
      seeds.map SourceRef.path ++ graph.edges.map fun edge => edge.fromRef.path := by
    intro path hpath
    obtain ⟨n, hn, rfl⟩ := mem_map.mp hpath
    have hreaches := h.holds.breadth.sound n.key
      (mem_append_left _ (mem_map_of_mem hn))
    generalize n.key.2 = d at hreaches
    cases hreaches with
    | seed hseed => exact mem_append_left _ hseed
    | row _ hrow =>
      obtain ⟨edge, hedge, hpath⟩ := mem_map.mp hrow
      exact mem_append_right _
        (mem_map.mpr ⟨edge, (mem_filter.mp hedge).1, hpath⟩)
  have hlength := (subperm_of_subset hnodup.1 hsubset).length_le
  simpa using hlength

end

end chain

/-- What the slices of one walk say, taken together: `used` are the grants they ran under. -/
structure SlicedWalk (graph : ProjectGraph) (seeds : List SourceRef) (used : List Grant)
    (chain : List ImpactSlice) : Prop where
  /-- No document is reported twice. -/
  once : ((reported chain).map fun n => n.document.path).Nodup
  /-- Each is reported at its least distance from the seeds. -/
  nearest : ∀ n ∈ reported chain,
    Distance (dependents graph) (seeds.map SourceRef.path) n.document.path n.depth
  /-- The rows served are exactly the `Certain` rows into the expanded documents, each once;
  what is not expanded is what the cursor holds. -/
  rows : ∃ expanded frontier, reported chain = expanded ++ frontier ∧
    (∀ slice c, chain.getLast? = some slice → slice.continuation = some c →
      c.frontier = frontier) ∧
    (evidence chain).Perm (graph.edges.filter fun edge =>
      edge.confidence = .certain ∧ edge.toRef.path ∈ expanded.map fun n => n.document.path)
  /-- The cursor counts the documents that are not seeds. -/
  spent : ∀ slice c, chain.getLast? = some slice → slice.continuation = some c →
    c.spent.nodes =
      (reported chain).countP fun n => n.document.path ∉ seeds.map SourceRef.path
  withinNodes : chain ≠ [] → ∃ grant ∈ used,
    ((reported chain).countP fun n => n.document.path ∉ seeds.map SourceRef.path) ≤
      grant.limits.nodes
  withinDepth : ∀ n ∈ reported chain, ∃ grant ∈ used, n.depth ≤ grant.limits.depth
  /-- A last slice without a limit closes the whole impact. -/
  whole : ∀ slice, chain.getLast? = some slice → slice.Unlimited →
    (∀ path, path ∈ (reported chain).map (fun n => n.document.path) ↔
      ∃ n, Reaches (dependents graph) (seeds.map SourceRef.path) n path) ∧
    (evidence chain).Perm (graph.edges.filter fun edge => edge.confidence = .certain ∧
      edge.toRef.path ∈ (reported chain).map fun n => n.document.path)
  /-- Chains are bounded by the graph, whatever the grants. -/
  short : chain.length ≤ seeds.length + graph.edges.length + 2

theorem Traced.slicedWalk {graph : ProjectGraph} {seeds : List SourceRef} {used : List Grant}
    {chain : List ImpactSlice} {slice : ImpactSlice} {expanded : List TraversalNode}
    {walk : ImpactWalk} (h : Traced graph seeds used chain slice expanded walk) :
    SlicedWalk graph seeds used chain := by
  have hpaths := h.paths
  have hcount : (reported chain).countP (fun n => n.document.path ∉ seeds.map SourceRef.path) =
      walk.reached := by
    rw [hpaths, h.holds.reached]
  have hlast : ∀ other, chain.getLast? = some other → other = slice := fun other hother =>
    Option.mem_unique hother h.last
  constructor
  · rw [hpaths, ← ImpactWalk.map_key_fst, map_append]
    exact h.holds.breadth.nodup
  · intro n hn
    rw [hpaths] at hn
    exact h.holds.breadth.distance (by rw [← map_append]; exact mem_map_of_mem hn)
  · refine ⟨expanded, walk.frontier, hpaths, fun other c hother hc => ?_, h.rows⟩
    rw [← h.cursor c (hlast other hother ▸ hc)]
    rfl
  · intro other c hother hc
    rw [hcount, ← h.cursor c (hlast other hother ▸ hc)]
    rfl
  · intro _
    rw [hcount]
    exact h.nodes
  · rw [hpaths]
    exact h.depth
  · intro other hother hfree
    have hnil := h.finished (hlast other hother ▸ hfree)
    have hbreadth := h.holds.breadth
    rw [hnil, append_nil] at hpaths
    rw [hnil] at hbreadth
    rw [hpaths]
    refine ⟨fun path => ?_, h.rows⟩
    rw [← ImpactWalk.map_key_fst]
    exact hbreadth.complete
  · have := h.count
    have := h.bounded
    omega

/-- For every graph, every seeds and every sequence of grants, with the clock striking at any
moment: the slices served so far are the pieces of one breadth-first walk, and a sequence of
grants longer than the graph ends with no cursor. -/
theorem sliced_traversal (graph : ProjectGraph) (seeds : List SourceRef) (grants : List Grant) :
    SlicedWalk graph seeds (grants.take (slices graph seeds grants).length)
        (slices graph seeds grants) ∧
      (seeds.length + graph.edges.length + 2 < grants.length →
        ∃ slice, (slices graph seeds grants).getLast? = some slice ∧
          slice.continuation = none) := by
  cases grants with
  | nil =>
    refine ⟨?_, nofun⟩
    constructor <;> simp [slices, reported, evidence]
  | cons grant grants =>
    obtain ⟨expanded, walk, hfirst⟩ := @traced_first graph seeds grant
    obtain ⟨last, expanded', walk', htraced, hstop⟩ := @Traced.resumed _ _ _ grants _ _ _ _ hfirst
    have hused : [grant] ++ grants.take
        (resumed graph (impactTraversal graph seeds grant).continuation grants).length =
          (grant :: grants).take (slices graph seeds (grant :: grants)).length := by
      simp [slices]
    rw [hused] at htraced
    refine ⟨htraced.slicedWalk, fun hlong => ⟨last, htraced.last, ?_⟩⟩
    rcases hstop with hall | hnone
    · have hshort := htraced.slicedWalk.short
      simp only [length_append, length_singleton, hall] at hshort
      simp only [length_cons] at hlong
      omega
    · exact hnone

end Rivect.Index
