import Mathlib.Data.List.TakeWhile
import Rivect.Providers.SseStream

/-! # The plain line algorithm

Events of a whole stream, block by block. The parser agrees with it on every split of a stream, but
for those it traps: a marked first line that the cap refuses only together with its mark.
-/

namespace Rivect.Providers.Sse

open Lib List
open EffectPolicy (Text ascii splitOnce LF CR SPACE COLON)
open Utf8 (isUtf8)

/-! ## One block -/

def fieldName (line : Text) : Text := line.takeWhile (· ≠ COLON)

/-- What follows the colon, without one space. -/
def fieldValue (line : Text) : Text :=
  let value := (line.dropWhile (· ≠ COLON)).tail
  if value.head? = some SPACE then value.tail else value

/-- The values of a field in the lines of a block. -/
def values (name : String) (lines : List Text) : List Text :=
  (lines.filter (fieldName · = ascii name)).map fieldValue

/-- A block gives an event when it has data: its last type, and its data lines joined. -/
def dispatched (lines : List Text) : Option SseEvent :=
  if values "data" lines = [] then none
  else
    some { event := ((values "event" lines).getLast?).getD []
           data := [LF].intercalate (values "data" lines) }

def dataSize (lines : List Text) : ℕ := ((values "data" lines).map fun v => v.length + 1).sum

/-! ## All blocks -/

/-- The events of the lines after those of an unfinished block, while every bound holds. -/
def blocks : List Text → List Text → Option (List SseEvent)
  | _, [] => some []
  | pending, line :: lines =>
    if MAX_LINE_BYTES < line.length ∨ !isUtf8 line then none
    else if line = [] then (blocks [] lines).map ((dispatched pending).toList ++ ·)
    else if MAX_DATA_BYTES < dataSize (pending ++ [line]) then none
    else blocks (pending ++ [line]) lines

/-- The stream without its mark, cut into terminated lines and a tail. -/
def plain (s : List UInt8) : Option (List SseEvent) := blocks [] (allLines CR LF [] (body s)).1

/-- What no ending follows. -/
def unterminated (s : List UInt8) : List UInt8 := (allLines CR LF [] (body s)).2

/-! ## The parser's block -/

variable {block : Block} {pending : List Text} {raw : Text}

/-- The buffers of a block after the lines `pending`. -/
structure Holds (pending : List Text) (block : Block) : Prop where
  eventType : block.eventType = ((values "event" pending).getLast?).getD []
  data : block.data = (values "data" pending).flatMap (· ++ [LF])
  bound : dataSize pending ≤ MAX_DATA_BYTES

theorem splitOnce_eq (marker : UInt8) (text : Text) :
    splitOnce marker text =
      if marker ∈ text then
        some (text.takeWhile (· ≠ marker), (text.dropWhile (· ≠ marker)).tail)
      else none := by
  induction text with
  | nil => rfl
  | cons b text ih =>
    rw [splitOnce, ih]
    by_cases hb : b = marker
    · simp [hb]
    · by_cases hmem : marker ∈ text <;> simp [hb, hmem, Ne.symm hb]

theorem parts_eq (line : Text) : Block.parts line = (fieldName line, fieldValue line) := by
  rw [Block.parts, splitOnce_eq]
  by_cases hcolon : COLON ∈ line
  · rw [if_pos hcolon]
    rfl
  · have hall : ∀ b ∈ line, decide (b ≠ COLON) = true := by
      intro b hb
      rw [decide_eq_true_eq]
      rintro rfl
      exact hcolon hb
    rw [if_neg hcolon, fieldName, fieldValue, takeWhile_eq_self_iff.2 hall,
      dropWhile_eq_nil_iff.2 hall]
    rfl

theorem values_append (name : String) (lines : List Text) (line : Text) :
    values name (lines ++ [line]) =
      values name lines ++ if fieldName line = ascii name then [fieldValue line] else [] := by
  rw [values, values, filter_append, map_append]
  congr 1
  by_cases h : fieldName line = ascii name <;> simp [h]

theorem dataSize_append (lines : List Text) (line : Text) :
    dataSize (lines ++ [line]) =
      dataSize lines +
        if fieldName line = ascii "data" then (fieldValue line).length + 1 else 0 := by
  rw [dataSize, dataSize, values_append]
  by_cases h : fieldName line = ascii "data" <;> simp [h]

theorem Holds.nil : Holds [] {} := ⟨rfl, rfl, Nat.zero_le _⟩

theorem Holds.length_data (h : Holds pending block) : block.data.length = dataSize pending := by
  rw [h.data, dataSize, length_flatMap]
  simp

/-- The joined values are the buffer without its last line feed. -/
theorem dropLast_flatMap (values : List Text) (h : values ≠ []) :
    (values.flatMap (· ++ [LF])).dropLast = [LF].intercalate values := by
  induction values with
  | nil => exact absurd rfl h
  | cons value values ih =>
    cases values with
    | nil => simp [intercalate]
    | cons next values =>
      have hne : (next :: values).flatMap (· ++ [LF]) ≠ [] := by simp
      rw [flatMap_cons, dropLast_append_of_ne_nil hne, ih (by simp)]
      simp [intercalate]

theorem Holds.dispatch (h : Holds pending block) :
    block.dispatch = ({}, (dispatched pending).toList) := by
  rw [Block.dispatch, dispatched, h.eventType, h.data]
  by_cases hnil : values "data" pending = []
  · simp [hnil]
  · have hne : (values "data" pending).flatMap (· ++ [LF]) ≠ [] := by
      cases hvalues : values "data" pending with
      | nil => exact absurd hvalues hnil
      | cons value rest => simp
    rw [if_neg (by simpa using hne), if_neg hnil, dropLast_flatMap _ hnil]
    rfl

theorem line_eq (hcap : raw.length ≤ MAX_LINE_BYTES) (hutf8 : isUtf8 raw = true) (hne : raw ≠ []) :
    block.line raw =
      if fieldName raw = ascii "event" then .ok ({ block with eventType := fieldValue raw }, [])
      else if fieldName raw = ascii "data" then
        if MAX_DATA_BYTES < block.data.length + (fieldValue raw).length + 1 then
          .error (.overrun "event data" MAX_DATA_BYTES)
        else .ok ({ block with data := block.data ++ fieldValue raw ++ [LF] }, [])
      else .ok (block, []) := by
  rw [Block.line, if_neg (Nat.not_lt.2 hcap), if_neg (by simp [hutf8]), if_neg (by simpa using hne),
    parts_eq]
  by_cases hcomment : raw.head? = some COLON
  · have hname : fieldName raw = [] := by
      cases raw with
      | nil => exact absurd rfl hne
      | cons b rest =>
        obtain rfl : b = COLON := Option.some.inj hcomment
        simp [fieldName]
    rw [if_pos hcomment, hname, if_neg (by decide), if_neg (by decide)]
  · rw [if_neg hcomment]

/-- One line of the parser's block is one line of the plain algorithm. -/
theorem Holds.line (h : Holds pending block) (hcap : raw.length ≤ MAX_LINE_BYTES)
    (hutf8 : isUtf8 raw = true) (hne : raw ≠ []) :
    (MAX_DATA_BYTES < dataSize (pending ++ [raw]) ∧ ∃ e, block.line raw = .error e) ∨
      ∃ next, block.line raw = .ok (next, []) ∧ Holds (pending ++ [raw]) next := by
  rw [line_eq hcap hutf8 hne]
  have hdata := values_append "data" pending raw
  have hevent := values_append "event" pending raw
  have hsize := dataSize_append pending raw
  by_cases hname : fieldName raw = ascii "event"
  · have hother : fieldName raw ≠ ascii "data" := by
      rw [hname]
      decide
    rw [if_neg hother, append_nil] at hdata
    rw [if_pos hname] at hevent
    rw [if_neg hother] at hsize
    rw [if_pos hname]
    refine Or.inr ⟨_, rfl, ?_, ?_, ?_⟩
    · rw [hevent]
      simp
    · rw [hdata]
      exact h.data
    · rw [hsize]
      exact h.bound
  · rw [if_neg hname]
    rw [if_neg hname, append_nil] at hevent
    by_cases hvalue : fieldName raw = ascii "data"
    · rw [if_pos hvalue] at hdata hsize
      rw [if_pos hvalue, h.length_data]
      by_cases hover : MAX_DATA_BYTES < dataSize pending + (fieldValue raw).length + 1
      · rw [if_pos hover]
        exact Or.inl ⟨by omega, _, rfl⟩
      · rw [if_neg hover]
        refine Or.inr ⟨_, rfl, ?_, ?_, by omega⟩
        · rw [hevent]
          exact h.eventType
        · rw [hdata, h.data]
          simp
    · rw [if_neg hvalue, append_nil] at hdata
      rw [if_neg hvalue] at hsize
      rw [if_neg hvalue]
      refine Or.inr ⟨_, rfl, ?_, ?_, ?_⟩
      · rw [hevent]
        exact h.eventType
      · rw [hdata]
        exact h.data
      · rw [hsize]
        exact h.bound

theorem line_refused (block : Block) (h : MAX_LINE_BYTES < raw.length ∨ !isUtf8 raw) :
    ∃ e, block.line raw = .error e := by
  rw [Block.line]
  by_cases hcap : MAX_LINE_BYTES < raw.length
  · exact ⟨_, if_pos hcap⟩
  · rw [if_neg hcap, if_pos (h.resolve_left hcap)]
    exact ⟨_, rfl⟩

theorem line_blank (block : Block) : block.line [] = .ok block.dispatch := rfl

theorem feedAll_line_error {e : SseError} {lines : List Text} (h : block.line raw = .error e) :
    feedAll Block.line block (raw :: lines) = .error e := by
  rw [feedAll, h]
  rfl

theorem feedAll_line_ok {next : Block} {events : List SseEvent} {lines : List Text}
    (h : block.line raw = .ok (next, events)) :
    (feedAll Block.line block (raw :: lines)).toOption.map Prod.snd =
      ((feedAll Block.line next lines).toOption.map Prod.snd).map (events ++ ·) := by
  rw [feedAll, h, ok_bind]
  cases feedAll Block.line next lines <;> rfl

/-- The parser's lines yield the events of the plain algorithm, or are refused with it. -/
theorem blocks_eq (h : Holds pending block) (lines : List Text) :
    blocks pending lines = (feedAll Block.line block lines).toOption.map Prod.snd := by
  induction lines generalizing pending block with
  | nil => rfl
  | cons raw lines ih =>
    rw [blocks]
    by_cases hrefused : MAX_LINE_BYTES < raw.length ∨ !isUtf8 raw
    · obtain ⟨e, he⟩ := line_refused block hrefused
      rw [if_pos hrefused, feedAll_line_error he]
      rfl
    rw [if_neg hrefused]
    by_cases hblank : raw = []
    · subst hblank
      have hdispatch : block.line [] = .ok ({}, (dispatched pending).toList) := by
        rw [line_blank, h.dispatch]
      rw [if_pos rfl, feedAll_line_ok hdispatch, ih Holds.nil]
    · rw [not_or] at hrefused
      have hutf8 : isUtf8 raw = true := by simpa using hrefused.2
      rw [if_neg hblank]
      rcases h.line (Nat.le_of_not_lt hrefused.1) hutf8 hblank with
        ⟨hover, e, he⟩ | ⟨next, hnext, hholds⟩
      · rw [if_pos hover, feedAll_line_error he]
        rfl
      · rw [if_neg (Nat.not_lt.2 hholds.bound), feedAll_line_ok hnext, ih hholds]
        cases (feedAll Block.line next lines).toOption <;> rfl

/-! ## Streams -/

variable {s : List UInt8}

theorem plain_eq (s : List UInt8) : plain s = (processed s).toOption.map Prod.snd :=
  blocks_eq Holds.nil _

theorem plain_of_processed {done : Block × List SseEvent} (h : processed s = .ok done) :
    plain s = some done.2 := by
  rw [plain_eq, h]
  rfl

theorem processed_of_plain {events : List SseEvent} (h : plain s = some events) :
    ∃ done, processed s = .ok done ∧ done.2 = events := by
  rw [plain_eq] at h
  cases hdone : processed s with
  | error e =>
    rw [hdone] at h
    cases h
  | ok done =>
    rw [hdone] at h
    exact ⟨done, rfl, Option.some.inj h⟩

/-- A stream is good to its end when its lines are processed and its tail is within the cap. -/
theorem good_iff {done : Block × List SseEvent} (h : processed s = .ok done) :
    Good s ↔ (unterminated s).length ≤ MAX_LINE_BYTES := by
  have htail : unterminated s = if (waiting s).getLast? = some CR then [] else waiting s := by
    rw [unterminated, allLines_eq]
    rfl
  rw [processed_eq] at h
  obtain ⟨first, last, hfirst, hlast, -⟩ := feedAll_split h
  constructor
  · intro hgood
    have hcap := hgood.tail
    rw [htail]
    split
    · exact Nat.zero_le _
    · rename_i hclean
      rwa [unended, if_neg hclean] at hcap
  · intro hcap
    refine ⟨⟨first, hfirst⟩, ?_⟩
    rw [htail] at hcap
    rw [unended]
    split
    · rename_i hheld
      rw [lastLine, if_pos hheld] at hlast
      obtain ⟨ended, -, hended, -, -⟩ := feedAll_cons_ok hlast
      exact line_length_le hended
    · rename_i hclean
      rwa [if_neg hclean] at hcap

/-- The parser takes a stream in these chunks to its end. -/
def Accepts (chunks : List (List UInt8)) : Prop := ∃ events, SseParser.parse chunks = .ok events

/-- Every split of a stream ends as the stream in one chunk, and yields the plain events. -/
def Invariant (s : List UInt8) : Prop :=
  ∀ chunks : List (List UInt8), chunks.flatten = s →
    (Accepts chunks ↔ Accepts [s]) ∧
      ∀ events, SseParser.parse chunks = .ok events →
        SseParser.parse [s] = .ok events ∧ plain s = some events

/-- A stream that the plain algorithm takes, with a tail within the cap, behind a mark with which
its first line is over the cap. -/
def Trapped (s : List UInt8) : Prop :=
  LongMarked s ∧ (∃ events, plain s = some events) ∧ (unterminated s).length ≤ MAX_LINE_BYTES

/-- An accepted stream yields the plain events, and its tail is within the cap. -/
theorem plain_of_parse {chunks : List (List UInt8)} {events : List SseEvent}
    (h : SseParser.parse chunks = .ok events) :
    plain chunks.flatten = some events ∧
      (unterminated chunks.flatten).length ≤ MAX_LINE_BYTES := by
  obtain ⟨hgood, done, hdone, rfl⟩ := accepted_of_parse h
  exact ⟨plain_of_processed hdone, (good_iff hdone).1 hgood⟩

theorem not_invariant_of_trapped (h : Trapped s) : ¬ Invariant s := by
  obtain ⟨hlong, ⟨events, hplain⟩, htail⟩ := h
  intro hinvariant
  obtain ⟨done, hdone, -⟩ := processed_of_plain hplain
  have hgood := (good_iff hdone).2 htail
  obtain ⟨rest, rfl⟩ := hlong.1
  have happart := parse_mark_apart hgood hdone
  obtain ⟨whole, hwhole⟩ := (hinvariant [BOM, rest] (by simp)).1.1 ⟨_, happart⟩
  rw [parse_marked hlong] at hwhole
  cases hwhole

/-- Every split of a stream that is not trapped ends alike. -/
theorem parse_of_not_trapped (h : ¬ Trapped s) {chunks other : List (List UInt8)}
    {events : List SseEvent} (hchunks : chunks.flatten = s) (hother : other.flatten = s)
    (hok : SseParser.parse chunks = .ok events) :
    SseParser.parse other = .ok events ∧ plain s = some events := by
  obtain ⟨hplain, htail⟩ := plain_of_parse hok
  rw [hchunks] at hplain htail
  obtain ⟨done, hdone, rfl⟩ := processed_of_plain hplain
  have hgood := (good_iff hdone).2 htail
  have hshort : ¬ LongMarked s := fun hlong => h ⟨hlong, ⟨_, hplain⟩, htail⟩
  refine ⟨parse_of_accepted ⟨?_, ?_⟩ ?_, hplain⟩ <;> rw [hother] <;> assumption

/-- The outcome of a stream does not depend on its chunks exactly when it is not trapped. -/
theorem invariant_iff (s : List UInt8) : Invariant s ↔ ¬ Trapped s := by
  refine ⟨fun h htrapped => not_invariant_of_trapped htrapped h, fun h chunks hchunks => ?_⟩
  have hone : [s].flatten = s := by simp
  refine ⟨⟨?_, ?_⟩, fun events hok => parse_of_not_trapped h hchunks hone hok⟩
  · rintro ⟨events, hok⟩
    exact ⟨events, (parse_of_not_trapped h hchunks hone hok).1⟩
  · rintro ⟨events, hok⟩
    exact ⟨events, (parse_of_not_trapped h hone hchunks hok).1⟩

/-! ## A marked line at the cap -/

def fullComment : List UInt8 := List.replicate MAX_LINE_BYTES COLON

/-- A mark and a comment line that fills the cap. -/
def markedLine : List UInt8 := BOM ++ (fullComment ++ [LF])

theorem length_fullComment : fullComment.length = MAX_LINE_BYTES := length_replicate

theorem clean_fullComment : Clean CR LF fullComment := by
  intro b hb
  rw [eq_of_mem_replicate hb]
  decide

theorem blocks_fullComment : blocks [] [fullComment] = some [] := by
  have hutf8 : isUtf8 fullComment = true := Utf8.isUtf8_ascii fun b hb => by
    rw [eq_of_mem_replicate hb]
    decide
  have hhead : fullComment = COLON :: List.replicate (MAX_LINE_BYTES - 1) COLON :=
    replicate_succ
  have hname : fieldName fullComment = [] := by
    rw [hhead, fieldName, takeWhile_cons, if_neg (by simp)]
  have hsize : dataSize ([] ++ [fullComment]) = 0 := by
    rw [dataSize_append, hname, if_neg (by decide)]
    rfl
  rw [blocks, if_neg (by simp [hutf8, length_fullComment]), if_neg (by rw [hhead]; simp), hsize,
    if_neg (Nat.not_lt.2 (Nat.zero_le _)), blocks]

theorem trapped_markedLine : Trapped markedLine := by
  have hbody : body markedLine = fullComment ++ [LF] := by
    rw [body, markedLine, if_pos (prefix_append _ _), drop_left]
  have hlines : allLines CR LF [] (body markedLine) = ([fullComment], []) := by
    rw [hbody, allLines_clean_append clean_fullComment, allLines_end (by decide)]
    rfl
  refine ⟨⟨prefix_append _ _, ?_⟩, ⟨[], ?_⟩, ?_⟩
  · rw [markedLine, drop_left, firstLength_clean_append clean_fullComment, length_fullComment]
    have hbom : 0 < BOM.length := by decide
    omega
  · rw [plain, hlines, blocks_fullComment]
  · rw [unterminated, hlines]
    exact Nat.zero_le _

theorem not_invariant_markedLine : ¬ Invariant markedLine :=
  not_invariant_of_trapped trapped_markedLine

end Rivect.Providers.Sse
