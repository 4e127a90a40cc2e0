import Rivect.Index.Generations
import Rivect.Index.Relations
import Rivect.Lib.Fallible

/-! # Derived rows

`derive_edges` of `src/index.rs`: every relation a document's lines state, placed against the files
that were indexed. A specifier that names none of them stays a row of its own.
-/

namespace Rivect.Index

open Option

open Line

/-- One document as the derivation reads it; bytes that are not UTF-8 have no text. -/
structure IndexedSource where
  relative : Path
  text : Option Line
  version : Int
  ignored : Bool
deriving DecidableEq

structure DerivedEdges where
  edges : List IndexEdge
  unresolved : List Path
deriving DecidableEq

/-- What a derivation may read besides its document. -/
structure DerivationInputs where
  files : List Path
  packages : List Path
deriving DecidableEq

/-- The bytes of a path. -/
def pathBytes (path : Path) : ℕ := ("/".intercalate path).utf8ByteSize

namespace DerivationInputs

/-- The longest package root that encloses the directory of a file; of equals the last. -/
def packageOf (inputs : DerivationInputs) (relative : Path) : Option Path :=
  if relative.isEmpty then none
  else (inputs.packages.filter fun root => root.isPrefixOf relative.dropLast).foldl
    (fun longest root => match longest with
      | some best => if pathBytes best ≤ pathBytes root then some root else some best
      | none => some root) none

def isTestTarget (inputs : DerivationInputs) (relative : Path) : Bool :=
  (inputs.packageOf relative).any fun root => (root ++ ["tests"]).isPrefixOf relative

end DerivationInputs

/-- A file name before and behind its last dot; a name that begins with its only dot has none. -/
def splitExtension (name : String) : Option (Line × Line) :=
  (rsplitOnce ['.'] name.toList).filter fun (stem, _) => !stem.isEmpty && name ≠ ".."

/-- An admitted grammar claims the file. -/
def claimedLanguage (relative : Path) : Bool :=
  ((relative.getLast?.bind splitExtension).map fun (_, extension) =>
    String.ofList extension).any (· ∈ ["rs", "ts", "cts", "mts", "tsx"])

/-! ## The module layout -/

/-- The module path of a Rust file below its package, under the Cargo layout. -/
def modulePath (relative package : Path) : Option (List String) :=
  if package.isPrefixOf relative then
    match (relative.drop package.length).reverse with
    | [] => none
    | file :: dirs =>
      (stripSuffix ".rs".toList file.toList).bind fun stem =>
        match dirs.reverse, String.ofList stem with
        | [], "lib" | [], "main" | ["src"], "lib" | ["src"], "main" => some []
        | ["src", "bin"], _ | ["tests"], _ | ["examples"], _ | ["benches"], _ => some []
        | ["src", "bin", _], "main" | ["tests", _], "main" | ["examples", _], "main"
        | ["benches", _], "main" => some []
        | ["src", "bin", module], "mod" | ["tests", module], "mod" | ["examples", module], "mod"
        | ["benches", module], "mod" => some [module]
        | "src" :: "bin" :: _, _ => none
        | "src" :: nested, stem =>
          let path := if stem = "mod" then nested else nested ++ [stem]
          if path.isEmpty then none else some path
        | _, _ => none
  else none

def moduleName (relative package : Path) : Option Line :=
  (modulePath relative package).map fun path => ("::".intercalate path).toList

def isModuleSegment (segment : Line) : Bool :=
  !segment.isEmpty && segment.all (fun c => c.isAlphanum || c = '_') &&
    !segment.head?.any Char.isDigit

/-- The extension of the last name is replaced. -/
def withExtension (extension : String) (path : Path) : Path :=
  match path.getLast? with
  | none => path
  | some name =>
    let stem := ((splitExtension name).map fun (stem, _) => String.ofList stem).getD name
    path.dropLast ++ [stem ++ "." ++ extension]

/-- The files a module path names under a package, in preference order. -/
def moduleFiles (package : Path) (module : Line) : List Path :=
  let segments := (splitPath module).filter fun segment => !segment.isEmpty
  if segments.all isModuleSegment then
    let path := package ++ ["src"] ++ segments.map String.ofList
    if module.isEmpty then [path ++ ["lib.rs"], path ++ ["main.rs"]]
    else [withExtension "rs" path, path ++ ["mod.rs"]]
  else []

/-! ## Placing a relation -/

/-- A text as a path: its parts between the slashes. -/
def pathOf (text : Line) : Path := (splitAt '/' text).map String.ofList

def nodeExtensions : List String := [".ts", ".tsx", ".mts", ".cts"]

def nodeIndex : List String := ["index.ts", "index.tsx", "index.mts", "index.cts"]

/-- A module path without its last segment. -/
def withoutLastSegment (module : Line) : Line :=
  ((rsplitOnce "::".toList module).map Prod.fst).getD []

/-- One part of a path, collapsed onto those before it. -/
def collapse (normalized : Path) (part : String) : Option Path :=
  if part = "" ∨ part = "." then some normalized
  else if part = ".." then (if normalized.isEmpty then none else some normalized.dropLast)
  else some (normalized ++ [part])

/-- The lexical collapse of `.` and `..`; there is none outside the root. -/
def normalize (path : Path) : Option Path :=
  if path.head? = some "" ∧ 1 < path.length then none
  else (path.foldlM collapse []).filter fun normalized => !normalized.isEmpty

/-- The document every relation of one file is placed against. -/
structure Subject where
  relative : Path
  version : Int
  ignored : Bool
  kind : EdgeKind
  ownModule : Option Line
  package : Path
  inputs : DerivationInputs
deriving DecidableEq

namespace Subject

local instance lawfulPath : LawfulBEq Path := inferInstance

variable (subject : Subject)

/-- The module a relation names, with its anchor resolved. -/
def module (anchor : Anchor) (text : Line) : Option Line :=
  let (anchor, rest) : Anchor × Line := match stripPrefix "crate::".toList text with
    | some rest => (.crate, rest)
    | none => match stripPrefix "self::".toList text with
      | some rest => (.own, rest)
      | none => if text = "self".toList then (.own, []) else (anchor, text)
  match anchor with
  | .unplaceable => none
  | .crate => some rest
  | .own | .subject => some (match subject.ownModule with
    | some own => if own.isEmpty || rest.isEmpty then rest else own ++ "::".toList ++ rest
    | none => rest)

def indexedModuleFiles (module : Line) : List Path :=
  (moduleFiles subject.package module).filter (· ∈ subject.inputs.files)

/-- The whole path first, then the path without the item it may name. -/
def rustCandidates (anchor : Anchor) (text : Line) : List Path :=
  match subject.module anchor text with
  | none => []
  | some module =>
    let indexed := subject.indexedModuleFiles module
    if indexed.isEmpty then subject.indexedModuleFiles (withoutLastSegment module) else indexed

def declaredCandidates (anchor : Anchor) (text : Line) : List Path :=
  ((subject.module anchor text).map subject.indexedModuleFiles).getD []

/-- The spelled path, each extension, each directory index. -/
def nodeCandidates (specifier : Line) (spelled : Bool) : List Path :=
  let base := if spelled then subject.relative.dropLast ++ pathOf specifier
    else pathOf (trimStartMatches "./".toList
      (specifier.map fun c => if c = '.' then '/' else c))
  match normalize base with
  | none => []
  | some normalized =>
    normalized :: (nodeExtensions.map fun extension =>
        normalized.dropLast ++ [normalized.getLastD "" ++ extension]) ++
      nodeIndex.map fun index => normalized ++ [index]

def candidates (relation : Relation) : List Path :=
  match relation.target with
  | .node spelled => subject.nodeCandidates relation.text spelled
  | .rust anchor => subject.rustCandidates anchor relation.text
  | .declared anchor => subject.declaredCandidates anchor relation.text

/-- The first candidate that was indexed, or the raw specifier; a dynamic form is never certain. -/
def place (relation : Relation) (line : ℕ) : IndexEdge :=
  let (target, confidence) :=
    match (subject.candidates relation).find? (· ∈ subject.inputs.files) with
    | some target => (target, EdgeConfidence.certain)
    | none => (pathOf relation.text, EdgeConfidence.unknown)
  { fromRef := ⟨subject.relative, some line, subject.ignored⟩
    toRef := ⟨target, none, false⟩
    kind := if subject.kind = .test then .test else relation.kind
    provenance := relation.target.provenance
    version := subject.version
    confidence := if relation.dynamic then .unknown else confidence }

end Subject

/-- The rows one document contributes. There are none where the scan of a line ends the worker. -/
def deriveEdges (alphanumeric : Alphanumeric) (source : IndexedSource)
    (inputs : DerivationInputs) : Option DerivedEdges :=
  match inputs.packageOf source.relative with
  | none => some ⟨[], []⟩
  | some package =>
    if claimedLanguage source.relative then
      match source.text with
      | none => some ⟨[], []⟩
      | some text => do
        let subject : Subject := ⟨source.relative, source.version, source.ignored,
          if inputs.isTestTarget source.relative then .test else .import,
          moduleName source.relative package, package, inputs⟩
        let placed ← ((lines text).zipIdx 1).mapM fun (raw, line) =>
          (relations alphanumeric raw).map fun found => found.map (subject.place · line)
        let edges := placed.flatten
        return ⟨edges, (edges.filter (·.confidence = .unknown)).map (·.toRef.path)⟩
    else some ⟨[], []⟩

/-- The rows of a generation, sorted. -/
def derivedRows (alphanumeric : Alphanumeric) (sources : List IndexedSource)
    (inputs : DerivationInputs) : Option (List IndexEdge) :=
  (sources.mapM (deriveEdges alphanumeric · inputs)).map fun derived =>
    (derived.flatMap DerivedEdges.edges).mergeSort fun a b => a.order ≤ b.order

/-! ## What every derived row has in common -/

/-- What a row takes from its document; its target names no line. -/
structure DrawnFrom (source : IndexedSource) (edge : IndexEdge) : Prop where
  path : edge.fromRef.path = source.relative
  ignored : edge.fromRef.ignored = source.ignored
  version : edge.version = source.version
  line : edge.fromRef.line.isSome
  target : edge.toRef = ⟨edge.toRef.path, none, false⟩

theorem drawnFrom_derived {alphanumeric : Alphanumeric} {source : IndexedSource}
    {inputs : DerivationInputs} {derived : DerivedEdges} {edge : IndexEdge}
    (h : deriveEdges alphanumeric source inputs = some derived) (hedge : edge ∈ derived.edges) :
    DrawnFrom source edge := by
  unfold deriveEdges at h
  split at h
  · obtain rfl := some.inj h
    cases hedge
  · split at h
    · split at h
      · obtain rfl := some.inj h
        cases hedge
      · obtain ⟨placed, hplaced, h⟩ := bind_eq_some_iff.mp h
        obtain rfl := some.inj h
        obtain ⟨rows, hrows, hedge⟩ := List.mem_flatten.mp hedge
        obtain ⟨⟨raw, line⟩, -, hline⟩ := Lib.mem_of_mapM hplaced hrows
        obtain ⟨found, -, rfl⟩ := map_eq_some_iff.mp hline
        obtain ⟨relation, -, rfl⟩ := List.mem_map.mp hedge
        exact ⟨rfl, rfl, rfl, rfl, rfl⟩
    · obtain rfl := some.inj h
      cases hedge

section
variable {alphanumeric : Alphanumeric} {sources : List IndexedSource} {inputs : DerivationInputs}
  {rows : List IndexEdge} {edge : IndexEdge}

theorem mem_derivedRows (h : derivedRows alphanumeric sources inputs = some rows)
    (hedge : edge ∈ rows) : ∃ source ∈ sources, DrawnFrom source edge := by
  obtain ⟨derived, hderived, rfl⟩ := map_eq_some_iff.mp h
  obtain ⟨part, hpart, hedge⟩ := List.mem_flatMap.mp (List.mem_mergeSort.mp hedge)
  obtain ⟨source, hsource, hpart⟩ := Lib.mem_of_mapM hderived hpart
  exact ⟨source, hsource, drawnFrom_derived hpart hedge⟩

theorem sorted_derivedRows (h : derivedRows alphanumeric sources inputs = some rows) :
    rows.Pairwise fun a b => a.order ≤ b.order := by
  obtain ⟨derived, -, rfl⟩ := map_eq_some_iff.mp h
  refine (List.pairwise_mergeSort (fun a b c hab hbc => ?_) (fun a b => ?_) _).imp
    fun hle => of_decide_eq_true hle
  · exact decide_eq_true ((of_decide_eq_true hab).trans (of_decide_eq_true hbc))
  · simpa using le_total a.order b.order

end

end Rivect.Index
