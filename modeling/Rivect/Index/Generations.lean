import Mathlib.Algebra.Ring.Nat
import Rivect.Index.Graph

/-! # Stored generations

`index_generations`, `index_edges` and `index_documents` of `src/state.rs`: the newest row first. A
generation is reserved before its run and sealed after it.
-/

namespace Rivect.Index

open List

inductive StaleCause where
  | isolatedRun
  | workerRefused
  | watcherMissed
  | interrupted
  | sourceChanged
  | superseded
  | partialCoverage
deriving DecidableEq

inductive GenerationState where
  | fresh
  | stale (cause : StaleCause)
deriving DecidableEq

inductive CarryPolicy where
  | full
  | narrowed (replaced : List Path)
  | nothing
deriving DecidableEq

/-- A row of `index_edges`. -/
structure EdgeRow where
  fromPath : Path
  fromLine : ℕ
  fromIgnored : Bool
  toPath : Path
  kind : EdgeKind
  provenance : EdgeProvenance
  version : Int
  confidence : EdgeConfidence
deriving DecidableEq

def EdgeRow.key (row : EdgeRow) : Path × ℕ × Path × EdgeKind × EdgeProvenance :=
  (row.fromPath, row.fromLine, row.toPath, row.kind, row.provenance)

/-- An edge as its row; the column of the line holds a non-negative `i64`. -/
def writeEdge (edge : IndexEdge) : Option EdgeRow :=
  match edge.fromRef.line with
  | none => none
  | some line =>
    if line < 2 ^ 63 then
      some ⟨edge.fromRef.path, line, edge.fromRef.ignored, edge.toRef.path, edge.kind,
        edge.provenance, edge.version, edge.confidence⟩
    else none

def EdgeRow.decode (row : EdgeRow) : IndexEdge :=
  ⟨⟨row.fromPath, some row.fromLine, row.fromIgnored⟩, ⟨row.toPath, none, false⟩, row.kind,
    row.provenance, row.version, row.confidence⟩

/-- `INSERT OR REPLACE` by the primary key. -/
def insertEdge (rows : List EdgeRow) (row : EdgeRow) : List EdgeRow :=
  rows.filter (fun r => r.key ≠ row.key) ++ [row]

def insertDocument (documents : List Path) (document : Path) : List Path :=
  documents.filter (· ≠ document) ++ [document]

/-- One generation with its edges and documents. `closed` is the column `sealed`. -/
structure Generation where
  generation : ℕ
  state : GenerationState
  coverage : Completeness
  unresolved : List Path
  closed : Bool
  edges : List EdgeRow
  documents : List Path
deriving DecidableEq

/-- An unsealed row is a build that never finished, whatever it recorded. -/
def Generation.reads (row : Generation) : GenerationState :=
  if row.closed then row.state else .stale .interrupted

/-- The table by its primary key, the newest generation first. -/
structure Generations where
  rows : List Generation
  newestFirst : rows.Pairwise fun newer older => older.generation < newer.generation

def indexGenerationRetention : ℕ := 8

namespace Generations

def latest (table : Generations) : Option Generation := table.rows.head?

/-- The newest generation that is not the one being sealed. -/
def previous (table : Generations) (generation : ℕ) : Option Generation :=
  table.rows.find? fun row => row.generation ≠ generation

def next (table : Generations) : ℕ := table.latest.elim 1 fun row => row.generation + 1

/-- The row of a build that was begun and never sealed. -/
def reservation (generation : ℕ) : Generation :=
  ⟨generation, .stale .interrupted, .partialWith [.entriesFailed 1], [], false, [], []⟩

def reserve (table : Generations) : Generations where
  rows := reservation table.next :: table.rows
  newestFirst := by
    refine pairwise_cons.mpr ⟨fun row hrow => ?_, table.newestFirst⟩
    have horder := table.newestFirst
    unfold reservation next latest
    cases hrows : table.rows with
    | nil =>
      rw [hrows] at hrow
      cases hrow
    | cons head rows =>
      rw [hrows] at hrow horder
      rcases mem_cons.mp hrow with rfl | hrow
      · exact Nat.lt_succ_self _
      · exact Nat.lt_succ_of_lt ((pairwise_cons.mp horder).1 row hrow)

/-- Rows are rewritten in place. -/
def update (table : Generations) (f : Generation → Generation)
    (hf : ∀ row, (f row).generation = row.generation) : Generations where
  rows := table.rows.map f
  newestFirst := by
    rw [pairwise_map]
    refine table.newestFirst.imp ?_
    intro newer older h
    rwa [hf, hf]

def markStale (generation : ℕ) (cause : StaleCause) (row : Generation) : Generation :=
  if row.generation = generation then { row with state := .stale cause, closed := true } else row

def supersede (generation : ℕ) (row : Generation) : Generation :=
  if row.generation = generation ∧ row.state = .fresh then
    { row with state := .stale .superseded, closed := true }
  else row

theorem markStale_generation (generation : ℕ) (cause : StaleCause) (row : Generation) :
    (markStale generation cause row).generation = row.generation := by
  unfold markStale
  split <;> rfl

theorem supersede_generation (generation : ℕ) (row : Generation) :
    (supersede generation row).generation = row.generation := by
  unfold supersede
  split <;> rfl

def markIndexGenerationStale (table : Generations) (generation : ℕ) (cause : StaleCause) :
    Generations :=
  table.update (markStale generation cause) (markStale_generation generation cause)

/-- What a seal keeps of the generation it replaces. -/
def carried (table : Generations) (generation : ℕ) : CarryPolicy → List EdgeRow
  | .narrowed replaced =>
    ((table.previous generation).elim [] Generation.edges).filter fun row =>
      row.fromPath ∉ replaced
  | _ => []

def sealRow (generation : ℕ) (state : GenerationState) (graph : ProjectGraph)
    (edges : List EdgeRow) (row : Generation) : Generation :=
  if row.generation = generation then
    { row with
      state := state
      coverage := graph.completeness
      unresolved := graph.unresolved
      closed := true
      edges := edges.foldl insertEdge row.edges
      documents := graph.documents.foldl insertDocument row.documents }
  else row

theorem sealRow_generation (generation : ℕ) (state : GenerationState) (graph : ProjectGraph)
    (edges : List EdgeRow) (row : Generation) :
    (sealRow generation state graph edges row).generation = row.generation := by
  unfold sealRow
  split <;> rfl

def prune (table : Generations) : Generations where
  rows := table.rows.take indexGenerationRetention
  newestFirst := table.newestFirst.sublist (take_sublist _ _)

/-- The seal and the supersession in one transaction; an edge that names no line refuses it. -/
def sealIndexGeneration (table : Generations) (generation : ℕ) (policy : CarryPolicy)
    (state : GenerationState) (graph : ProjectGraph) : Option Generations := do
  let written ← graph.edges.mapM writeEdge
  let edges := table.carried generation policy ++ written
  let closed := table.update (sealRow generation state graph edges)
    (sealRow_generation generation state graph edges)
  let superseded := match table.previous generation with
    | some previous =>
      closed.update (supersede previous.generation) (supersede_generation previous.generation)
    | none => closed
  return superseded.prune

/-! ### The rows after a write -/

variable {table table' : Generations} {head row : Generation} {tail : List Generation}
  {generation : ℕ} {state : GenerationState} {graph : ProjectGraph} {policy : CarryPolicy}

section

variable (hrows : table.rows = head :: tail)
include hrows

theorem latest_eq : table.latest = some head := by
  rw [latest, hrows]
  rfl

theorem older_lt (hrow : row ∈ tail) :
    row.generation < head.generation := by
  have horder := table.newestFirst
  rw [hrows] at horder
  exact (pairwise_cons.mp horder).1 row hrow

theorem map_newest {f : Generation → Generation}
    (hf : ∀ row, row.generation ≠ head.generation → f row = row) :
    table.rows.map f = f head :: tail := by
  rw [hrows, map_cons]
  congr 1
  conv_rhs => rw [← map_id tail]
  exact map_congr_left fun row hrow => hf row (Nat.ne_of_lt (older_lt hrows hrow))

theorem markIndexGenerationStale_rows {cause : StaleCause} :
    (table.markIndexGenerationStale head.generation cause).rows =
      { head with state := .stale cause, closed := true } :: tail := by
  unfold markIndexGenerationStale update
  dsimp only
  rw [map_newest (f := markStale _ _) hrows fun row hne => if_neg hne, markStale, if_pos rfl]

end

theorem supersede_reads (row : Generation) : (supersede row.generation row).reads ≠ .fresh := by
  unfold supersede
  split
  · simp [Generation.reads]
  · rename_i hstate
    intro hreads
    refine hstate ⟨rfl, ?_⟩
    unfold Generation.reads at hreads
    split at hreads
    · exact hreads
    · cases hreads

theorem previous_eq (hrows : table.rows = head :: tail) :
    table.previous head.generation = tail.head? := by
  unfold previous
  rw [hrows, find?_cons_of_neg (by simp)]
  cases tail with
  | nil => rfl
  | cons second tail =>
    have hne := Nat.ne_of_lt (older_lt hrows mem_cons_self)
    rw [find?_cons_of_pos (by simpa using hne)]
    rfl

/-- What the seal of the newest generation leaves: its own row, and behind it no fresh row but
those that were there before and are not the one it replaces. -/
theorem sealIndexGeneration_rows (hrows : table.rows = head :: tail)
    (hseal : table.sealIndexGeneration head.generation policy state graph = some table') :
    ∃ tail', table'.rows =
        sealRow head.generation state graph
          (table.carried head.generation policy ++ (graph.edges.mapM writeEdge).getD []) head ::
          tail' ∧
      ∀ row ∈ tail', row.reads = .fresh → row ∈ tail.tail := by
  unfold sealIndexGeneration at hseal
  cases hwritten : graph.edges.mapM writeEdge with
  | none =>
    rw [hwritten] at hseal
    cases hseal
  | some written =>
    rw [hwritten] at hseal
    obtain rfl := Option.some.inj hseal
    rw [previous_eq hrows]
    have hsealed : (table.update (sealRow head.generation state graph
          (table.carried head.generation policy ++ written)) (sealRow_generation _ _ _ _)).rows =
        sealRow head.generation state graph
          (table.carried head.generation policy ++ written) head :: tail :=
      map_newest (f := sealRow _ _ _ _) hrows fun row hne => if_neg hne
    cases tail with
    | nil =>
      refine ⟨[], ?_, fun _ h => nomatch h⟩
      simp only [prune, head?_nil, hsealed]
      rfl
    | cons second older =>
      have hne := Nat.ne_of_gt (older_lt hrows mem_cons_self)
      have horder := table.newestFirst
      rw [hrows] at horder
      have holder : ∀ row ∈ older, supersede second.generation row = row := fun row hrow =>
        if_neg fun h => Nat.ne_of_lt
          ((pairwise_cons.mp (pairwise_cons.mp horder).2).1 row hrow) h.1
      refine ⟨(supersede second.generation second :: older).take 7, ?_, fun row hrow hfresh => ?_⟩
      · simp only [prune, head?_cons, update, indexGenerationRetention]
        rw [show table.rows.map (sealRow _ _ _ _) = _ from hsealed, map_cons, map_cons,
          take_succ_cons]
        congr 1
        · exact if_neg fun h => hne ((sealRow_generation _ _ _ _ _).symm.trans h.1)
        · congr 2
          conv_rhs => rw [← map_id older]
          exact map_congr_left holder
      · rcases mem_cons.mp (mem_of_mem_take hrow) with rfl | hrow
        · exact absurd hfresh (supersede_reads second)
        · exact hrow

theorem mapM_writeEdge_isSome (edges : List IndexEdge)
    (h : ∀ edge ∈ edges, (writeEdge edge).isSome = true) :
    (edges.mapM writeEdge).isSome = true := by
  induction edges with
  | nil => rfl
  | cons edge edges ih =>
    rw [mapM_cons]
    obtain ⟨row, hrow⟩ := Option.isSome_iff_exists.mp (h edge mem_cons_self)
    obtain ⟨rows, hrows⟩ := Option.isSome_iff_exists.mp
      (ih fun edge hedge => h edge (mem_cons_of_mem _ hedge))
    rw [hrow, hrows]
    rfl

theorem sealIndexGeneration_isSome (h : ∀ edge ∈ graph.edges, (writeEdge edge).isSome = true) :
    (table.sealIndexGeneration generation policy state graph).isSome = true := by
  obtain ⟨rows, hrows⟩ := Option.isSome_iff_exists.mp (mapM_writeEdge_isSome graph.edges h)
  unfold sealIndexGeneration
  rw [hrows]
  rfl

end Generations

end Rivect.Index
