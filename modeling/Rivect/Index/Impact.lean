import Mathlib.Data.List.Dedup
import Rivect.Index.Graph
import Rivect.Lib.Breadth

/-! # The impact walk

`impact_traversal` and `resume_impact_traversal`: a breadth-first walk against the rows, in
slices. The clock is asked once for each document of the frontier; what it answers is given.
-/

namespace Rivect.Index

open List

local instance lawfulPath : LawfulBEq Path := inferInstance

structure TraversalLimits where
  depth : ℕ
  nodes : ℕ
  time : ℕ
deriving DecidableEq

structure TraversalSpend where
  depth : ℕ
  nodes : ℕ
deriving DecidableEq

structure TraversalNode where
  document : SourceRef
  depth : ℕ
deriving DecidableEq

structure TraversalContinuation where
  frontier : List TraversalNode
  limits : TraversalLimits
  spent : TraversalSpend
  visited : List Path
deriving DecidableEq

structure ImpactSlice where
  nodes : List TraversalNode
  edges : List IndexEdge
  completeness : Completeness
  continuation : Option TraversalContinuation
deriving DecidableEq

/-- A grant as a caller gives it, and for each question to the clock whether the deadline has
struck. -/
structure Grant where
  limits : TraversalLimits
  struck : ℕ → Bool

/-- The rows naming a document as their target; only `Certain` rows are here. -/
def incoming (graph : ProjectGraph) (path : Path) : List IndexEdge :=
  graph.edges.filter fun edge => edge.confidence = .certain ∧ edge.toRef.path = path

/-- `ImpactWalk`, without what stays fixed while it runs. -/
structure ImpactWalk where
  frontier : List TraversalNode
  visited : List Path
  nodes : List TraversalNode
  edges : List IndexEdge
  reached : ℕ
  reachedDepth : ℕ
deriving DecidableEq

namespace ImpactWalk

def begin : ImpactWalk := ⟨[], [], [], [], 0, 0⟩

def discover (walk : ImpactWalk) (document : SourceRef) (depth : ℕ) : ImpactWalk :=
  if document.path ∈ walk.visited then walk
  else
    { walk with
      visited := walk.visited ++ [document.path]
      reachedDepth := max walk.reachedDepth depth
      nodes := walk.nodes ++ [⟨document, depth⟩]
      frontier := walk.frontier ++ [⟨document, depth⟩] }

def seed (walk : ImpactWalk) (document : SourceRef) : ImpactWalk :=
  walk.discover { document with line := none } 0

/-- One row of an expansion. -/
def follow (depth : ℕ) (walk : ImpactWalk) (edge : IndexEdge) : ImpactWalk :=
  let reached := if edge.fromRef.path ∈ walk.visited then walk.reached else walk.reached + 1
  { walk with reached := reached, edges := walk.edges ++ [edge] }.discover
    { edge.fromRef with line := none } depth

/-- The dependents of some rows that the walk does not hold yet. -/
def fresh (walk : ImpactWalk) (rows : List IndexEdge) : List Path :=
  ((rows.map fun edge => edge.fromRef.path).filter fun path => path ∉ walk.visited).dedup

/-- The expansion of one document: whole, or stopped by the node budget. -/
def expand (graph : ProjectGraph) (limits : TraversalLimits) (walk : ImpactWalk)
    (node : TraversalNode) : Except TraversalLimit ImpactWalk :=
  let rows := incoming graph node.document.path
  if rows.isEmpty then .ok walk
  else if limits.nodes < walk.reached + (walk.fresh rows).length then .error .nodes
  else .ok (rows.foldl (follow (node.depth + 1)) walk)

variable {graph : ProjectGraph} {limits : TraversalLimits} {walk walk' : ImpactWalk}
  {document : SourceRef} {node : TraversalNode} {depth : ℕ} {rows : List IndexEdge}

/-- What is left to a walk: the rows whose document it does not hold, and its frontier. -/
def left (graph : ProjectGraph) (walk : ImpactWalk) : ℕ :=
  (graph.edges.filter fun edge => edge.fromRef.path ∉ walk.visited).length + walk.frontier.length

/-- The rows whose document a walk does not hold. -/
def unheld (graph : ProjectGraph) (walk : ImpactWalk) : List IndexEdge :=
  graph.edges.filter fun edge => edge.fromRef.path ∉ walk.visited

/-- A document that some row is read from is held for it once it is discovered. -/
theorem unheld_discover (h : ∃ edge ∈ graph.edges, edge.fromRef.path = document.path)
    (hnew : document.path ∉ walk.visited) :
    ((walk.discover document depth).unheld graph).length < (walk.unheld graph).length := by
  obtain ⟨edge, hedge, hpath⟩ := h
  rw [discover, if_neg hnew]
  have hfewer : (graph.edges.filter fun e => e.fromRef.path ∉ walk.visited ++ [document.path])
      = (graph.edges.filter fun e => e.fromRef.path ∉ walk.visited).filter fun e =>
        e.fromRef.path ≠ document.path := by
    rw [filter_filter]
    apply filter_congr
    intro e _
    by_cases h1 : e.fromRef.path ∈ walk.visited <;>
      by_cases h2 : e.fromRef.path = document.path <;> simp [h1, h2]
  simp only [unheld]
  rw [hfewer]
  apply length_filter_lt_length_iff_exists.mpr
  refine ⟨edge, mem_filter.mpr ⟨hedge, ?_⟩, ?_⟩
  · simpa [hpath] using hnew
  · simpa using hpath

theorem left_discover (h : ∃ edge ∈ graph.edges, edge.fromRef.path = document.path) :
    (walk.discover document depth).left graph ≤ walk.left graph := by
  by_cases hheld : document.path ∈ walk.visited
  · rw [discover, if_pos hheld]
  · have hfewer := @unheld_discover graph walk document depth h hheld
    have hlonger : (walk.discover document depth).frontier.length = walk.frontier.length + 1 := by
      rw [discover, if_neg hheld, length_append, length_singleton]
    simp only [left, hlonger]
    simp only [unheld] at hfewer
    omega

theorem left_follow {edge : IndexEdge} (hedge : edge ∈ graph.edges) :
    (walk.follow depth edge).left graph ≤ walk.left graph :=
  left_discover ⟨edge, hedge, rfl⟩

theorem left_foldl (hrows : ∀ edge ∈ rows, edge ∈ graph.edges) :
    (rows.foldl (follow depth) walk).left graph ≤ walk.left graph := by
  induction rows generalizing walk with
  | nil => exact Nat.le_refl _
  | cons edge rows ih =>
    exact (ih fun e he => hrows e (mem_cons_of_mem _ he)).trans
      (left_follow (hrows edge mem_cons_self))

theorem expand_eq_ok (h : expand graph limits walk node = .ok walk') :
    walk' = (incoming graph node.document.path).foldl (follow (node.depth + 1)) walk ∧
      (incoming graph node.document.path = [] ∨
        walk.reached + (walk.fresh (incoming graph node.document.path)).length ≤ limits.nodes) := by
  unfold expand at h
  dsimp only at h
  split at h
  · rename_i hempty
    have hnil : incoming graph node.document.path = [] := by simpa using hempty
    cases h
    rw [hnil]
    exact ⟨rfl, .inl rfl⟩
  · split at h
    · cases h
    · rename_i hfits
      cases h
      exact ⟨rfl, .inr (Nat.le_of_not_lt hfits)⟩

theorem left_expand (h : expand graph limits walk node = .ok walk') :
    walk'.left graph ≤ walk.left graph := by
  obtain ⟨rfl, -⟩ := expand_eq_ok h
  exact left_foldl fun edge hedge => (mem_filter.mp hedge).1

theorem left_loop {rest : List TraversalNode} (hfrontier : walk.frontier = node :: rest)
    (h : expand graph limits { walk with frontier := rest } node = .ok walk') :
    walk'.left graph < walk.left graph := by
  have hshorter : ({ walk with frontier := rest } : ImpactWalk).left graph < walk.left graph := by
    simp only [left, hfrontier, length_cons]
    omega
  exact lt_of_le_of_lt (left_expand h) hshorter

/-- The loop of `run`: the walk it leaves, what stopped it, and how many documents it expanded. -/
def loop (graph : ProjectGraph) (limits : TraversalLimits) (struck : ℕ → Bool) (expanded : ℕ)
    (walk : ImpactWalk) : ImpactWalk × Option TraversalLimit × ℕ :=
  match _ : walk.frontier with
  | [] => (walk, none, expanded)
  | node :: rest =>
    if struck expanded then (walk, some .time, expanded)
    else if limits.depth ≤ node.depth then (walk, some .depth, expanded)
    else
      match hexpand : expand graph limits { walk with frontier := rest } node with
      | .error stop => (walk, some stop, expanded)
      | .ok next => loop graph limits struck (expanded + 1) next
  termination_by walk.left graph
  decreasing_by exact left_loop ‹walk.frontier = _› hexpand

/-- A resumed slice that expanded nothing reports no cursor. -/
def finish (graph : ProjectGraph) (limits : TraversalLimits) (resumed : Bool) (walk : ImpactWalk)
    (stop : Option TraversalLimit) (expanded : ℕ) : ImpactSlice :=
  { nodes := walk.nodes
    edges := walk.edges
    completeness := .fromReasons (graph.completeness.reasons ++
      (stop.map PartialReason.traversalLimit).toList)
    continuation :=
      (stop.filter fun _ => !resumed || 0 < expanded).map fun _ =>
        ⟨walk.frontier, limits, ⟨walk.reachedDepth, walk.reached⟩, walk.visited⟩ }

def run (graph : ProjectGraph) (grant : Grant) (resumed : Bool) (walk : ImpactWalk) : ImpactSlice :=
  let (walk, stop, expanded) := loop graph grant.limits grant.struck 0 walk
  finish graph grant.limits resumed walk stop expanded

end ImpactWalk

def impactTraversal (graph : ProjectGraph) (seeds : List SourceRef) (grant : Grant) : ImpactSlice :=
  (seeds.foldl ImpactWalk.seed ImpactWalk.begin).run graph grant false

def resumeImpactTraversal (graph : ProjectGraph) (continuation : TraversalContinuation)
    (grant : Grant) : ImpactSlice :=
  ImpactWalk.run graph grant true
    { ImpactWalk.begin with
      frontier := continuation.frontier
      visited := continuation.visited
      reached := continuation.spent.nodes
      reachedDepth := continuation.spent.depth }

end Rivect.Index
