import Rivect.Index.Derive
import Rivect.Lib.Rows

/-! # What a sealed generation reads back

The key of a stored row leaves out its confidence: of the rows that share one, the row written
last stands. A dynamic form beside the static one on a line is written last.
-/

namespace Rivect.Index

open Lib List

/-- The columns `index_graph` sorts by. -/
def EdgeRow.readOrder (row : EdgeRow) : String ×ₗ ℕ ×ₗ String :=
  toLex ("/".intercalate row.fromPath, toLex (row.fromLine, "/".intercalate row.toPath))

namespace Generations

/-- The edges of `index_graph`. -/
def indexEdges (table : Generations) (generation : ℕ) : Option (List IndexEdge) :=
  (table.rows.find? (·.generation = generation)).map fun row =>
    (row.edges.mergeSort fun a b => a.readOrder ≤ b.readOrder).map EdgeRow.decode

/-- The tables that the store's writes lead to. -/
inductive Reached : Generations → Prop
  | empty : Reached ⟨[], .nil⟩
  | reserve {table : Generations} : Reached table → Reached table.reserve
  | mark {table : Generations} (generation : ℕ) (cause : StaleCause) :
      Reached table → Reached (table.markIndexGenerationStale generation cause)
  | closed {table table' : Generations} {generation : ℕ} {policy : CarryPolicy}
      {state : GenerationState} {graph : ProjectGraph} : Reached table →
      table.sealIndexGeneration generation policy state graph = some table' → Reached table'

variable {table table' : Generations} {generation : ℕ} {policy : CarryPolicy}
  {state : GenerationState} {graph : ProjectGraph} {row : Generation}

/-! ## The rows of a table -/

/-- What the seal of one generation leaves of the table, up to states and retention. -/
theorem sealIndexGeneration_eq
    (h : table.sealIndexGeneration generation policy state graph = some table') :
    ∃ written, graph.edges.mapM writeEdge = some written ∧
      ∀ row' ∈ table'.rows, ∃ row ∈ table.rows, row'.generation = row.generation ∧
        row'.edges = if row.generation = generation then
          (table.carried generation policy ++ written).foldl insertEdge row.edges
        else row.edges := by
  obtain ⟨written, hwritten, h⟩ := Option.bind_eq_some_iff.mp h
  refine ⟨written, hwritten, fun row' hrow' => ?_⟩
  have hsealed : ∀ row, (sealRow generation state graph
      (table.carried generation policy ++ written) row).edges =
        if row.generation = generation then
          (table.carried generation policy ++ written).foldl insertEdge row.edges
        else row.edges := by
    intro row
    unfold sealRow
    split <;> rfl
  have hsuperseded : ∀ previous (row : Generation),
      (supersede previous row).edges = row.edges := by
    intro previous row
    unfold supersede
    split <;> rfl
  obtain rfl := Option.some.inj h
  have hrow' := mem_of_mem_take hrow'
  cases hprevious : table.previous generation with
  | none =>
    rw [hprevious] at hrow'
    obtain ⟨row, hrow, rfl⟩ := mem_map.mp hrow'
    exact ⟨row, hrow, sealRow_generation _ _ _ _ _, hsealed row⟩
  | some previous =>
    rw [hprevious] at hrow'
    obtain ⟨row'', hrow'', rfl⟩ := mem_map.mp hrow'
    obtain ⟨row, hrow, rfl⟩ := mem_map.mp hrow''
    refine ⟨row, hrow, ?_, ?_⟩
    · rw [supersede_generation, sealRow_generation]
    · rw [hsuperseded, hsealed]

/-- The primary key of `index_edges`, generation by generation. -/
theorem Reached.keyed (h : Reached table) :
    ∀ row ∈ table.rows, UniqueKeys EdgeRow.key row.edges := by
  induction h with
  | empty => exact fun row hrow => by cases hrow
  | reserve _ ih =>
    intro row hrow
    rcases mem_cons.mp hrow with rfl | hrow
    · exact .nil
    · exact ih row hrow
  | mark generation cause _ ih =>
    intro row hrow
    obtain ⟨marked, hmarked, rfl⟩ := mem_map.mp hrow
    have hedges : (markStale generation cause marked).edges = marked.edges := by
      unfold markStale
      split <;> rfl
    rw [hedges]
    exact ih marked hmarked
  | closed _ hseal ih =>
    intro row' hrow'
    obtain ⟨written, -, hrows⟩ := sealIndexGeneration_eq hseal
    obtain ⟨row, hrow, -, hedges⟩ := hrows row' hrow'
    rw [hedges]
    split
    · exact (ih row hrow).replaced _
    · exact ih row hrow

end Generations

/-! ## Slots -/

/-- What the key of a row reads of an edge. -/
def IndexEdge.slot (edge : IndexEdge) (provenance : EdgeProvenance) :
    Path × Option ℕ × Path × EdgeKind × EdgeProvenance :=
  (edge.fromRef.path, edge.fromRef.line, edge.toRef.path, edge.kind, provenance)

/-- Some row of the subject, line, target and kind of an edge stands as certain: there is a
provenance under which no derived row is `Unknown` and, where none is derived, the carried row is
certain. -/
def Unhidden (carried derived : List IndexEdge) (edge : IndexEdge) : Prop :=
  ∃ provenance,
    (∃ other ∈ derived, other.slot other.provenance = edge.slot provenance) ∧
        (∀ other ∈ derived, other.slot other.provenance = edge.slot provenance →
          other.confidence = .certain) ∨
      (∀ other ∈ derived, other.slot other.provenance ≠ edge.slot provenance) ∧
        ∃ other ∈ carried, other.slot other.provenance = edge.slot provenance ∧
          other.confidence = .certain

/-- The certain rows are read back, and nothing else is. -/
def ReadsBack (rows stored : List IndexEdge) : Prop :=
  (∀ edge ∈ rows, edge.confidence = .certain → ∃ found ∈ stored,
    found.confidence = .certain ∧ found.fromRef.path = edge.fromRef.path ∧
      found.fromRef.line = edge.fromRef.line ∧ found.toRef.path = edge.toRef.path ∧
      found.kind = edge.kind) ∧
    ∀ found ∈ stored, found ∈ rows

section
variable {C D : List EdgeRow} {row : EdgeRow} {k : Path × ℕ × Path × EdgeKind × EdgeProvenance}
  {stored : List IndexEdge}

/-- The row of a key that stands after some writes. -/
def standing (writes : List EdgeRow) (k : Path × ℕ × Path × EdgeKind × EdgeProvenance) :
    Option EdgeRow :=
  rowAt EdgeRow.key writes.reverse k

theorem mem_written {writes : List EdgeRow} :
    row ∈ writes.foldl insertEdge [] ↔ standing writes row.key = some row := by
  have hkeys : UniqueKeys EdgeRow.key (writes.foldl insertEdge []) := UniqueKeys.nil.replaced writes
  have hat : rowAt EdgeRow.key (writes.foldl insertEdge []) row.key =
      (standing writes row.key).or none := rowAt_replaced writes
  rw [Option.or_none] at hat
  rw [← hat]
  exact ⟨rowAt_of_mem hkeys, mem_of_rowAt⟩

/-- Among the writes of one key, `Unknown` rows are not followed by certain ones. -/
def Ordered (rows : List EdgeRow) : Prop :=
  rows.Pairwise fun a b => a.key = b.key → b.confidence = .certain → a.confidence = .certain

/-- Of the derived rows of a key the last is certain only where all of them are. -/
theorem certain_of_standing (hD : Ordered D) (h : standing D k = some row)
    (hcertain : row.confidence = .certain) : ∀ other ∈ D, other.key = k →
      other.confidence = .certain := by
  intro other hother hkey
  obtain ⟨hrow, later, earlier, hsplit, hlater⟩ := find?_eq_some_iff_append.mp h
  have hlist : D = earlier.reverse ++ row :: later.reverse := by
    rw [← reverse_reverse D, hsplit]
    simp
  rw [hlist] at hother
  rw [Ordered, hlist] at hD
  rcases mem_append.mp hother with hother | hother
  · refine (pairwise_append.mp hD).2.2 other hother row mem_cons_self ?_ hcertain
    rw [hkey]
    exact (of_decide_eq_true hrow).symm
  · rcases mem_cons.mp hother with rfl | hother
    · exact hcertain
    · have := hlater other (mem_reverse.mp hother)
      simp [hkey] at this

theorem standing_certain (hC : UniqueKeys EdgeRow.key C) (hD : Ordered D) :
    (∃ row, standing (C ++ D) k = some row ∧ row.confidence = .certain) ↔
      (∃ other ∈ D, other.key = k) ∧
          (∀ other ∈ D, other.key = k → other.confidence = .certain) ∨
        (∀ other ∈ D, other.key ≠ k) ∧
          ∃ other ∈ C, other.key = k ∧ other.confidence = .certain := by
  have hsplit : standing (C ++ D) k = (standing D k).or (standing C k) := by
    simp only [standing, rowAt, reverse_append, find?_append]
  rw [hsplit]
  cases hlast : standing D k with
  | some last =>
    have hmem : last ∈ D := mem_reverse.mp (mem_of_rowAt hlast)
    have hkey : last.key = k := key_of_rowAt hlast
    constructor
    · rintro ⟨row, hrow, hcertain⟩
      obtain rfl := Option.some.inj hrow
      exact .inl ⟨⟨_, hmem, hkey⟩, certain_of_standing hD hlast hcertain⟩
    · rintro (⟨-, hall⟩ | ⟨hnone, -⟩)
      · exact ⟨last, rfl, hall last hmem hkey⟩
      · exact absurd hkey (hnone last hmem)
  | none =>
    have hnone : ∀ other ∈ D, other.key ≠ k := fun other hother =>
      rowAt_eq_none.mp hlast other (mem_reverse.mpr hother)
    constructor
    · rintro ⟨row, hrow, hcertain⟩
      exact .inr ⟨hnone, row, mem_reverse.mp (mem_of_rowAt hrow), key_of_rowAt hrow, hcertain⟩
    · rintro (⟨⟨other, hother, hkey⟩, -⟩ | ⟨-, other, hother, hkey, hcertain⟩)
      · exact absurd hkey (hnone other hother)
      · have hreversed : UniqueKeys EdgeRow.key C.reverse := by
          unfold UniqueKeys
          rw [map_reverse]
          exact nodup_reverse.mpr hC
        exact ⟨other, hkey ▸ rowAt_of_mem hreversed (mem_reverse.mpr hother), hcertain⟩

theorem slot_decode (row other : EdgeRow) (provenance : EdgeProvenance) :
    other.decode.slot other.decode.provenance = row.decode.slot provenance ↔
      other.key = (row.fromPath, row.fromLine, row.toPath, row.kind, provenance) := by
  simp [IndexEdge.slot, EdgeRow.decode, EdgeRow.key]

theorem unhidden_decode (hC : UniqueKeys EdgeRow.key C) (hD : Ordered D) (row : EdgeRow) :
    Unhidden (C.map EdgeRow.decode) (D.map EdgeRow.decode) row.decode ↔
      ∃ provenance other, standing (C ++ D)
          (row.fromPath, row.fromLine, row.toPath, row.kind, provenance) = some other ∧
        other.confidence = .certain := by
  refine exists_congr fun provenance => ?_
  rw [standing_certain hC hD]
  simp only [mem_map, exists_exists_and_eq_and, forall_exists_index, and_imp,
    forall_apply_eq_imp_iff₂, slot_decode, ne_eq]
  rfl

/-- The rows read back after `C` and then `D` were written where nothing stood. -/
theorem readsBack_iff (hC : UniqueKeys EdgeRow.key C) (hD : Ordered D)
    (hstored : ∀ edge, edge ∈ stored ↔
      ∃ row ∈ (C ++ D).foldl insertEdge [], row.decode = edge) :
    ReadsBack ((C ++ D).map EdgeRow.decode) stored ↔
      ∀ edge ∈ (C ++ D).map EdgeRow.decode, edge.confidence = .certain →
        Unhidden (C.map EdgeRow.decode) (D.map EdgeRow.decode) edge := by
  have hback : ∀ found ∈ stored, found ∈ (C ++ D).map EdgeRow.decode := by
    intro found hfound
    obtain ⟨row, hrow, rfl⟩ := (hstored found).mp hfound
    exact mem_map_of_mem (mem_reverse.mp (mem_of_rowAt (mem_written.mp hrow)))
  rw [ReadsBack, and_iff_left hback]
  refine forall₂_congr fun edge hedge => imp_congr_right fun _ => ?_
  obtain ⟨row, -, rfl⟩ := mem_map.mp hedge
  rw [unhidden_decode hC hD]
  constructor
  · rintro ⟨found, hfound, hcertain, hpath, hline, hto, hkind⟩
    obtain ⟨other, hother, rfl⟩ := (hstored found).mp hfound
    have hline' : other.fromLine = row.fromLine := Option.some.inj hline
    refine ⟨other.provenance, other, ?_, hcertain⟩
    have hstands := mem_written.mp hother
    rw [EdgeRow.key, show other.fromPath = row.fromPath from hpath, hline',
      show other.toPath = row.toPath from hto, show other.kind = row.kind from hkind] at hstands
    exact hstands
  · rintro ⟨provenance, other, hstands, hcertain⟩
    have hkey := key_of_rowAt hstands
    have hother : other ∈ (C ++ D).foldl insertEdge [] := mem_written.mpr (hkey ▸ hstands)
    simp only [EdgeRow.key, Prod.mk.injEq] at hkey
    exact ⟨other.decode, (hstored _).mpr ⟨other, hother, rfl⟩, hcertain, hkey.1,
      congrArg some hkey.2.1, hkey.2.2.1, hkey.2.2.2.1⟩

end

/-! ## Rows that a derivation writes -/

section
variable {alphanumeric : Alphanumeric} {sources : List IndexedSource} {inputs : DerivationInputs}
  {edges : List IndexEdge} {written : List EdgeRow}

/-- The columns hold the whole of an edge whose target names no line. -/
theorem decode_writeEdge {edge : IndexEdge} {row : EdgeRow} (h : writeEdge edge = some row)
    (htarget : edge.toRef = ⟨edge.toRef.path, none, false⟩) : row.decode = edge := by
  unfold writeEdge at h
  split at h
  · cases h
  · rename_i line hline
    split at h
    · obtain rfl := Option.some.inj h
      simp only [EdgeRow.decode]
      rw [← htarget, ← hline]
    · cases h

theorem decode_written (hwritten : edges.mapM writeEdge = some written)
    (htarget : ∀ edge ∈ edges, edge.toRef = ⟨edge.toRef.path, none, false⟩) :
    written.map EdgeRow.decode = edges := by
  replace hwritten := forall₂_of_mapM hwritten
  induction hwritten with
  | nil => rfl
  | cons hrow _ ih =>
    rw [map_cons, decode_writeEdge hrow (htarget _ mem_cons_self),
      ih fun edge hedge => htarget edge (mem_cons_of_mem _ hedge)]

/-- Two rows of one document and one slot differ in their confidence alone. -/
theorem confidence_of_order {a b : IndexEdge} (hle : a.order ≤ b.order)
    (hslot : a.slot a.provenance = b.slot b.provenance)
    (hignored : a.fromRef.ignored = b.fromRef.ignored) (hversion : a.version = b.version)
    (ha : a.toRef = ⟨a.toRef.path, none, false⟩) (hb : b.toRef = ⟨b.toRef.path, none, false⟩)
    (hcertain : b.confidence = .certain) : a.confidence = .certain := by
  simp only [IndexEdge.slot, Prod.mk.injEq] at hslot
  obtain ⟨hpath, hline, hto, hkind, hprovenance⟩ := hslot
  have hfrom : a.fromRef.order = b.fromRef.order := by
    rw [SourceRef.order, SourceRef.order, hpath, hline, hignored]
  have htarget : a.toRef.order = b.toRef.order := by rw [ha, hb, hto]
  simp only [IndexEdge.order, Prod.Lex.toLex_le_toLex, hfrom, htarget, hkind, hprovenance, hversion,
    lt_self_iff_false, false_or, true_and, hcertain] at hle
  cases hconfidence : a.confidence with
  | certain => rfl
  | unknown =>
    rw [hconfidence] at hle
    exact absurd hle (by decide)

theorem ordered_written (hsources : (sources.map IndexedSource.relative).Nodup)
    (hderived : derivedRows alphanumeric sources inputs = some edges)
    (hwritten : written.map EdgeRow.decode = edges) : Ordered written := by
  have hsorted := sorted_derivedRows hderived
  rw [← hwritten, pairwise_map] at hsorted
  have hdrawn : ∀ row ∈ written, ∃ source ∈ sources, DrawnFrom source row.decode := fun row hrow =>
    mem_derivedRows hderived (hwritten ▸ mem_map_of_mem hrow)
  refine hsorted.imp_of_mem ?_
  intro a b ha hb hle hkey hcertain
  obtain ⟨source, hsource, hafrom⟩ := hdrawn a ha
  obtain ⟨source', hsource', hbfrom⟩ := hdrawn b hb
  simp only [EdgeRow.key, Prod.mk.injEq] at hkey
  obtain rfl : source = source' := inj_on_of_nodup_map hsources hsource hsource' <| by
    rw [← hafrom.path, ← hbfrom.path]
    exact hkey.1
  refine confidence_of_order hle ?_ (hafrom.ignored.trans hbfrom.ignored.symm)
    (hafrom.version.trans hbfrom.version.symm) hafrom.target hbfrom.target hcertain
  simp only [IndexEdge.slot, EdgeRow.decode, hkey]

end

namespace Generations

theorem eq_of_generation {table : Generations} {row row' : Generation} (hrow : row ∈ table.rows)
    (hrow' : row' ∈ table.rows) (h : row.generation = row'.generation) : row = row' := by
  have hnodup : (table.rows.map Generation.generation).Nodup :=
    pairwise_map.mpr (table.newestFirst.imp fun hlt => Nat.ne_of_gt hlt)
  exact inj_on_of_nodup_map hnodup hrow hrow' h

theorem Reached.keyed_carried {table : Generations} (h : Reached table) (generation : ℕ)
    (policy : CarryPolicy) : UniqueKeys EdgeRow.key (table.carried generation policy) := by
  cases policy with
  | full => exact .nil
  | nothing => exact .nil
  | narrowed replaced =>
    refine UniqueKeys.filter ?_ _
    cases hprevious : table.previous generation with
    | none => exact .nil
    | some previous => exact h.keyed previous (mem_of_find?_eq_some hprevious)

end Generations

/-- After the seal of a generation that held no rows, the carried and derived certain rows are read
back exactly where none of them is hidden. -/
theorem seal_reads_back {alphanumeric : Alphanumeric} {sources : List IndexedSource}
    {inputs : DerivationInputs} {table table' : Generations} {row : Generation}
    {policy : CarryPolicy} {state : GenerationState} {graph : ProjectGraph}
    {stored : List IndexEdge}
    (hsources : (sources.map IndexedSource.relative).Nodup)
    (hderived : derivedRows alphanumeric sources inputs = some graph.edges)
    (htable : table.Reached) (hrow : row ∈ table.rows) (hempty : row.edges = [])
    (hseal : table.sealIndexGeneration row.generation policy state graph = some table')
    (hread : table'.indexEdges row.generation = some stored) :
    let carried := (table.carried row.generation policy).map EdgeRow.decode
    ReadsBack (carried ++ graph.edges) stored ↔
      ∀ edge ∈ carried ++ graph.edges, edge.confidence = .certain →
        Unhidden carried graph.edges edge := by
  intro carried
  obtain ⟨written, hwritten, hrows⟩ := Generations.sealIndexGeneration_eq hseal
  have hdecoded := decode_written hwritten fun edge hedge =>
    (mem_derivedRows hderived hedge).choose_spec.2.target
  obtain ⟨row', hrow', rfl⟩ := Option.map_eq_some_iff.mp hread
  have hgeneration : row'.generation = row.generation := by simpa using find?_some hrow'
  obtain ⟨old, hold, hsame, hedges⟩ := hrows row' (mem_of_find?_eq_some hrow')
  obtain rfl := Generations.eq_of_generation hold hrow (hsame.symm.trans hgeneration)
  rw [if_pos rfl, hempty] at hedges
  have hstored : ∀ edge, edge ∈ (row'.edges.mergeSort fun a b =>
      a.readOrder ≤ b.readOrder).map EdgeRow.decode ↔
        ∃ row ∈ (table.carried old.generation policy ++ written).foldl insertEdge [],
          row.decode = edge := by
    intro edge
    rw [mem_map, ← hedges]
    simp only [mem_mergeSort]
  have hiff := readsBack_iff (htable.keyed_carried old.generation policy)
    (ordered_written hsources hderived hdecoded) hstored
  rw [map_append, hdecoded] at hiff
  exact hiff

/-! ## One module, by `require` and by `import` -/

/-- One document, one line, in a package of two files. -/
def oneLine (text : String) : IndexedSource := ⟨["main.ts"], some text.toList, 1, false⟩

def twoFiles : DerivationInputs := ⟨[["a.ts"], ["main.ts"]], [[]]⟩

/-- The row of the line to the other file. -/
def rowTo (kind : EdgeKind) (confidence : EdgeConfidence) : IndexEdge :=
  ⟨⟨["main.ts"], some 1, false⟩, ⟨["a.ts"], none, false⟩, kind, .observed, 1, confidence⟩

def graphOf (edges : List IndexEdge) : ProjectGraph :=
  ⟨edges, .complete, [], [], [["a.ts"], ["main.ts"]]⟩

theorem derivedRows_both :
    derivedRows Char.isAlphanum [oneLine "require(\"./a\"), import(\"./a\")"] twoFiles =
      some [rowTo .call .certain, rowTo .call .unknown] := by
  have hone : deriveEdges Char.isAlphanum (oneLine "require(\"./a\"), import(\"./a\")")
      twoFiles = some ⟨[rowTo .call .certain, rowTo .call .unknown], [["a.ts"]]⟩ := by
    decide +kernel
  rw [derivedRows, mapM_cons, hone]
  refine congrArg some (mergeSort_of_pairwise ?_)
  decide +kernel

/-- The certain row of the static form is not read back. -/
theorem dynamic_form_hides :
    let rows := [rowTo .call .certain, rowTo .call .unknown]
    derivedRows Char.isAlphanum [oneLine "require(\"./a\"), import(\"./a\")"] twoFiles =
        some rows ∧
      ∃ table' stored, (Generations.reserve ⟨[], .nil⟩).sealIndexGeneration 1 .full .fresh
          (graphOf rows) = some table' ∧
        table'.indexEdges 1 = some stored ∧ ¬ ReadsBack rows stored := by
  intro rows
  refine ⟨derivedRows_both, _, [rowTo .call .unknown], rfl, ?_, fun h => ?_⟩
  · exact congrArg (fun rows => some (rows.map EdgeRow.decode)) (mergeSort_singleton _)
  · obtain ⟨found, hfound, hcertain, -⟩ := h.1 (rowTo .call .certain) mem_cons_self rfl
    obtain rfl := mem_singleton.mp hfound
    cases hcertain

theorem derivedRows_static :
    derivedRows Char.isAlphanum [oneLine "import \"./a\""] twoFiles =
      some [rowTo .import .certain] := by
  have hone : deriveEdges Char.isAlphanum (oneLine "import \"./a\"") twoFiles =
      some ⟨[rowTo .import .certain], []⟩ := by decide +kernel
  rw [derivedRows, mapM_cons, hone]
  exact congrArg some (mergeSort_singleton _)

theorem seal_reads_back_static :
    ∃ table', (Generations.reserve ⟨[], .nil⟩).sealIndexGeneration 1 .full .fresh
        (graphOf [rowTo .import .certain]) = some table' ∧
      ∃ stored, table'.indexEdges 1 = some stored ∧ ReadsBack [rowTo .import .certain] stored := by
  refine ⟨_, rfl, _, rfl, ?_⟩
  refine (@seal_reads_back Char.isAlphanum [oneLine "import \"./a\""] twoFiles
    (Generations.reserve ⟨[], .nil⟩) _ (Generations.reservation 1) .full .fresh
    (graphOf [rowTo .import .certain]) _ (by decide) derivedRows_static (.reserve .empty)
    mem_cons_self rfl rfl rfl).mpr ?_
  intro edge hedge _
  refine ⟨.observed, .inl ⟨⟨edge, hedge, ?_⟩, fun other hother _ => ?_⟩⟩
  · rw [mem_singleton.mp hedge]
    rfl
  · rw [mem_singleton.mp hother]
    rfl

end Rivect.Index
