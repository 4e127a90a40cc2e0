import Rivect.Index.Graph
import Rivect.Lib.Framing

/-! # The relations of a line

The lexical scan of `src/index.rs`: which relations one line of a document states, and what each
points at. Nothing is looked up here.
-/

namespace Rivect.Index

open Lib

/-- The part of a line, character by character. -/
abbrev Line := List Char

/-- Unicode's alphanumeric characters, as the standard library tells them apart. -/
abbrev Alphanumeric := Char → Bool

/-- Unicode's `White_Space`, which a trim removes. -/
def isSpace (c : Char) : Bool :=
  (0x9 ≤ c.toNat && c.toNat ≤ 0xD) || c.toNat = 0x20 || c.toNat = 0x85 || c.toNat = 0xA0 ||
    c.toNat = 0x1680 || (0x2000 ≤ c.toNat && c.toNat ≤ 0x200A) || c.toNat = 0x2028 ||
    c.toNat = 0x2029 || c.toNat = 0x202F || c.toNat = 0x205F || c.toNat = 0x3000

namespace Line

def trimStart (l : Line) : Line := l.dropWhile isSpace

def trimEnd (l : Line) : Line := (l.reverse.dropWhile isSpace).reverse

def trim (l : Line) : Line := l.trimStart.trimEnd

def stripPrefix (text : Line) (l : Line) : Option Line :=
  if text.isPrefixOf l then some (l.drop text.length) else none

def stripSuffix (text : Line) (l : Line) : Option Line :=
  (stripPrefix text.reverse l.reverse).map List.reverse

/-- The text before and after the first occurrence. -/
def splitOnce (text : Line) : Line → Option (Line × Line)
  | [] => if text.isEmpty then some ([], []) else none
  | c :: l =>
    if text.isPrefixOf (c :: l) then some ([], (c :: l).drop text.length)
    else (splitOnce text l).map fun (before, after) => (c :: before, after)

/-- The text before and after the last occurrence. -/
def rsplitOnce (text : Line) (l : Line) : Option (Line × Line) :=
  (splitOnce text.reverse l.reverse).map fun (after, before) => (before.reverse, after.reverse)

/-- The text before the first occurrence, or all of it. -/
def before (text : Line) (l : Line) : Line := ((splitOnce text l).map Prod.fst).getD l

/-- A repeated prefix is dropped; each round drops one, so the length bounds the rounds. -/
def dropRepeated (text : Line) : ℕ → Line → Line
  | 0, l => l
  | n + 1, l => ((stripPrefix text l).map (dropRepeated text n)).getD l

def trimEndMatches (text : Line) (l : Line) : Line :=
  (dropRepeated text.reverse l.length l.reverse).reverse

def trimStartMatches (text : Line) (l : Line) : Line := dropRepeated text l.length l

def endsWith (text : Line) (l : Line) : Bool := text.isSuffixOf l

/-- The parts between the separators `::`. -/
def splitPath : Line → List Line
  | [] => [[]]
  | ':' :: ':' :: l => [] :: splitPath l
  | c :: l =>
    match splitPath l with
    | [] => [[c]]
    | part :: parts => (c :: part) :: parts

/-- The parts between the separators of one character. -/
def splitAt (separator : Char) : Line → List Line
  | [] => [[]]
  | c :: l =>
    if c = separator then [] :: splitAt separator l
    else match splitAt separator l with
      | [] => [[c]]
      | part :: parts => (c :: part) :: parts

/-- The text after that many bytes of it; inside a character there is none. -/
def dropBytes : ℕ → Line → Option Line
  | 0, l => some l
  | _ + 1, [] => some []
  | n + 1, c :: l => if c.utf8Size ≤ n + 1 then dropBytes (n + 1 - c.utf8Size) l else none

end Line

open Line

/-- The lines of a text: a line that ends loses its carriage return. -/
def lines (text : Line) : List Line :=
  let (ended, rest) := cut '\n' text
  ended.map (fun line => if line.getLast? = some '\r' then line.dropLast else line) ++
    if rest.isEmpty then [] else [rest]

/-- Where the prefix of a relation puts the module it names. -/
inductive Anchor where
  | crate
  | own
  | subject
  | unplaceable
deriving DecidableEq

inductive Target where
  | node (spelled : Bool)
  | rust (anchor : Anchor)
  | declared (anchor : Anchor)
deriving DecidableEq

def Target.provenance : Target → EdgeProvenance
  | .node true => .observed
  | .node false => .inferred
  | .rust _ => .inferred
  | .declared _ => .structural

structure Relation where
  kind : EdgeKind
  target : Target
  text : Line
  dynamic : Bool
deriving DecidableEq

def isQuote (c : Char) : Bool := c = '"' || c = '\''

/-- A `//` outside a string literal cuts the line. -/
def cutComment (quoted : Option Char) : Line → Line
  | [] => []
  | c :: l =>
    match quoted with
    | some quote => c :: cutComment (if c = quote then none else some quote) l
    | none =>
      if isQuote c then c :: cutComment (some c) l
      else if c = '/' && l.head? = some '/' then []
      else c :: cutComment none l

def stripComment (line : Line) : Line :=
  let line := line.trimStart
  if "//".toList.isPrefixOf line || "/*".toList.isPrefixOf line || line.head? = some '*' then []
  else (cutComment none line).trimEnd

def visibilityPrefix (line : Line) : Line :=
  (["pub(crate) ", "pub(super) ", "pub "].findSome? fun visibility =>
    stripPrefix visibility.toList line).getD line

def stripKeyword (line : Line) (keyword : String) : Option Line :=
  ((stripPrefix keyword.toList line).map trimStart).filter fun rest => !rest.isEmpty

/-- A Rust `use`: its first path; the contents of a brace list are left out. -/
def rustUse (rest : Line) : List Relation :=
  let head := (before [','] (before [';'] (before ['{'] rest))).trim
  let path := (trimEndMatches [';'] (before " as ".toList head).trim).trim
  let isNamespace := rest.contains '{' || endsWith "::*".toList path || path = ['*']
  let path := (trimEndMatches ['*'] (trimEndMatches "::*".toList path)).trim
  if path.isEmpty then []
  else
    let anchor := if isNamespace then .crate
      else if "super::".toList.isPrefixOf path || path = "super".toList then .unplaceable
      else .crate
    [⟨.import, if isNamespace then .declared anchor else .rust anchor, path, false⟩]

/-- The content of the first quoted literal, if it is closed. -/
def quotedLiteral (text : Line) : Option Line :=
  match text.dropWhile fun c => !isQuote c with
  | [] => none
  | quote :: rest => (splitOnce [quote] rest).map Prod.fst

def nodeDeclaration (line : Line) : Option Line := do
  let rest ← (stripPrefix "import ".toList line).or (stripPrefix "export ".toList line)
  if rest.any isQuote then
    let lead := trim (rest.takeWhile fun c => !isQuote c)
    if lead.isEmpty || endsWith "from".toList lead then quotedLiteral rest else none
  else none

/-- The loop of `node_calls` for one keyword. The text behind a specifier is found by its length
alone, in bytes, and it is none inside a character. -/
def nodeCallsFrom (keyword : Line) (dynamic : Bool) : ℕ → Line → Option (List (Line × Bool))
  | 0, _ => some []
  | n + 1, rest =>
    match splitOnce keyword rest with
    | none => some []
    | some (_, rest) =>
      match quotedLiteral rest with
      | none => some []
      | some specifier => do
        let rest ← dropBytes ((specifier.map Char.utf8Size).sum + 2) rest
        let found ← nodeCallsFrom keyword dynamic n rest
        return if specifier.isEmpty then found else (specifier, dynamic) :: found

/-- `require("x")` and the dynamic `import("x")`. -/
def nodeCalls (line : Line) : Option (List (Line × Bool)) := do
  let required ← nodeCallsFrom "require(".toList false line.length line
  let imported ← nodeCallsFrom "import(".toList true line.length line
  return required ++ imported

def nodeRelation (specifier : Line) (kind : EdgeKind) (dynamic : Bool) : Relation :=
  ⟨kind, .node ("./".toList.isPrefixOf specifier || "../".toList.isPrefixOf specifier), specifier,
    dynamic⟩

def segments (path : Line) : ℕ :=
  ((splitPath path).flatMap (splitAt '.')).countP fun part => !part.isEmpty

/-- The relation of a call, by the path before its parenthesis. -/
def qualifiedCall (path : Line) : Option Relation :=
  let path := (stripSuffix "::".toList path).getD path
  if path.head? = some '.' || path.getLast? = some '.' || segments path < 2 then none
  else match rsplitOnce "::".toList path with
    | some (module, _) => some ⟨.call, .rust .crate, module, false⟩
    | none => some ⟨.call, .node false, trimEndMatches ".js".toList path, false⟩

/-- Every parenthesis of the line, with what stands before it in reverse. -/
def qualifiedCallsFrom (alphanumeric : Alphanumeric) (behind : Line) : Line → List Relation
  | [] => []
  | c :: l =>
    let found := qualifiedCallsFrom alphanumeric (c :: behind) l
    if c = '(' then
      let path := behind.takeWhile fun c => alphanumeric c || c = '_' || c = '.' || c = ':'
      (qualifiedCall path.reverse).toList ++ found
    else found

/-- The relations one line states. -/
def relations (alphanumeric : Alphanumeric) (line : Line) : Option (List Relation) :=
  let line := visibilityPrefix (stripComment line)
  if line.isEmpty then some []
  else match stripKeyword line "use " with
    | some rest => some (rustUse rest)
    | none =>
      match stripKeyword line "mod " with
      | some rest =>
        some [⟨.import, .declared .subject, (trimEndMatches [';'] rest).trim, false⟩]
      | none =>
        match nodeDeclaration line with
        | some specifier => some [nodeRelation specifier .import false]
        | none => (nodeCalls line).map fun calls =>
          calls.map (fun (specifier, dynamic) => nodeRelation specifier .call dynamic) ++
            qualifiedCallsFrom alphanumeric [] line

end Rivect.Index
