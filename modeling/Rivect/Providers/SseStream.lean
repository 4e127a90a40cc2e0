import Rivect.Providers.Sse

/-! # The parser on a whole stream

What the parser of server-sent events has taken of a stream is the stream's own lines, however its
bytes arrive; `parse` accepts and yields what the plain algorithm does, but for a first line that
the cap refuses together with the byte order mark before it.
-/

namespace Rivect.Providers.Sse

open Lib List
open EffectPolicy (Text ascii splitOnce LF CR SPACE COLON)
open Utf8 (isUtf8)

variable {buf front clean rest known s : List UInt8} {b : UInt8} {fuel : ℕ} {cursor : Cursor}
  {atEof : Bool}

/-! ## The line loop -/

theorem findIdx?_clean (h : Clean CR LF clean) : clean.findIdx? isTerminator = none :=
  findIdx?_eq_none_iff.2 h

theorem findIdx_clean (h : Clean CR LF clean) : clean.findIdx isTerminator = clean.length :=
  findIdx?_eq_none_iff_findIdx_eq.1 (findIdx?_clean h)

theorem findIdx?_ended (h : Clean CR LF clean) (hb : isTerminator b = true) (rest : List UInt8) :
    (clean ++ b :: rest).findIdx? isTerminator = some clean.length := by
  rw [findIdx?_append, findIdx?_clean h, findIdx?_cons, if_pos hb]
  simp

/-- The cursor stands before `s` and has scanned the bytes `known` of it. -/
structure Before (buf : List UInt8) (cursor : Cursor) (front known s : List UInt8) : Prop where
  buf : buf = front ++ s
  consumed : cursor.consumed = front.length
  clean : Clean CR LF known
  part : known <+: s
  scanned : max cursor.consumed cursor.scanned = front.length + known.length

theorem Before.drop (h : Before buf cursor front known s) :
    buf.drop (max cursor.consumed cursor.scanned) = s.drop known.length := by
  rw [h.scanned, h.buf, drop_append, drop_eq_nil_of_le (by omega)]
  simp

/-- What is known to hold no ending is part of the first line. -/
theorem known_prefix (hknown : Clean CR LF known) (hpart : known <+: clean ++ b :: rest)
    (hb : isTerminator b = true) : known <+: clean := by
  by_cases hle : known.length ≤ clean.length
  · exact prefix_of_prefix_length_le hpart (prefix_append _ _) hle
  · have hlong : clean ++ [b] <+: known :=
      prefix_of_prefix_length_le (by simp) hpart (by simp; omega)
    have hclean := hknown b (hlong.subset (by simp))
    rw [show isTerminator b = false from hclean] at hb
    cases hb

theorem lineLoop_clean (h : Before buf cursor front known s) (hs : Clean CR LF s) :
    lineLoop buf atEof (fuel + 1) cursor = .ok { cursor with scanned := buf.length } := by
  have hnone : (s.drop known.length).findIdx? isTerminator = none :=
    findIdx?_clean fun c hc => hs c (mem_of_mem_drop hc)
  rw [lineLoop, h.drop, hnone]

theorem Before.found (h : Before buf cursor front known (clean ++ b :: rest))
    (hclean : Clean CR LF clean) (hb : isTerminator b = true) :
    ∃ off, (buf.drop (max cursor.consumed cursor.scanned)).findIdx? isTerminator = some off ∧
      max cursor.consumed cursor.scanned + off = front.length + clean.length := by
  obtain ⟨unknown, rfl⟩ := known_prefix h.clean h.part hb
  refine ⟨unknown.length, ?_, ?_⟩
  · rw [h.drop, append_assoc, drop_left]
    exact findIdx?_ended (fun c hc => hclean c (mem_append_right _ hc)) hb rest
  · rw [h.scanned, length_append]
    omega

theorem lineLoop_held (h : Before buf cursor front known (clean ++ [CR]))
    (hclean : Clean CR LF clean) :
    lineLoop buf false (fuel + 1) cursor =
      .ok { cursor with scanned := front.length + clean.length } := by
  obtain ⟨off, hoff, hat⟩ := h.found hclean (by decide)
  have hbuf := h.buf
  have hlast : buf[front.length + clean.length]? = some CR := by
    rw [hbuf, ← append_assoc, ← length_append, getElem?_concat_length]
  have hend : front.length + clean.length + 1 = buf.length := by
    rw [hbuf]
    simp [Nat.add_assoc]
  rw [lineLoop, hoff]
  simp only [hat, hlast, hend, if_true, Bool.not_false, and_self]

theorem lineLoop_ended (h : Before buf cursor front known (clean ++ b :: rest))
    (hclean : Clean CR LF clean) (hb : isTerminator b = true)
    (hpair : b = CR → rest = [] → atEof = true) :
    lineLoop buf atEof (fuel + 1) cursor =
      (cursor.block.line clean >>= fun done =>
        lineLoop buf atEof fuel
          ⟨buf.length - (afterEnd CR LF b rest).length, buf.length - (afterEnd CR LF b rest).length,
            done.1, cursor.events ++ done.2⟩) := by
  obtain ⟨off, hoff, hat⟩ := h.found hclean hb
  have hbuf := h.buf
  have hraw : (buf.take (front.length + clean.length)).drop cursor.consumed = clean := by
    rw [hbuf, h.consumed, ← append_assoc, take_left' length_append, drop_left]
  have hdrop : buf.drop (front.length + clean.length) = b :: rest := by
    rw [hbuf, ← append_assoc, drop_left' length_append]
  have hget : buf[front.length + clean.length]? = some b := by
    rw [← head?_drop, hdrop]
    rfl
  have hnext : buf[front.length + clean.length + 1]? = rest.head? := by
    rw [← head?_drop, ← drop_drop, hdrop]
    rfl
  have hlength : buf.length = front.length + clean.length + 1 + rest.length := by
    rw [hbuf, length_append, length_append, length_cons]
    omega
  rw [lineLoop, hoff]
  simp only [hat, hget, hraw, hnext]
  by_cases hcr : b = CR
  · subst hcr
    have hmore : ¬(front.length + clean.length + 1 = buf.length ∧ (!atEof) = true) := by
      rintro ⟨hend, heof⟩
      have hnil : rest = [] := length_eq_zero_iff.1 (by omega)
      simp [hpair rfl hnil] at heof
    rw [if_pos rfl, if_neg hmore]
    have hwidth : front.length + clean.length +
        (if front.length + clean.length + 1 < buf.length ∧ rest.head? = some LF then 2 else 1) =
        buf.length - (afterEnd CR LF CR rest).length := by
      rw [afterEnd]
      cases rest with
      | nil => simp [hlength]
      | cons c rest =>
        by_cases hlf : c = LF
        · simp [hlf, hlength]
          omega
        · simp [hlf, hlength]
    rw [hwidth]
  · have hwidth : front.length + clean.length + 1 =
        buf.length - (afterEnd CR LF b rest).length := by
      rw [afterEnd, if_neg fun hpair => hcr hpair.1, hlength]
      omega
    rw [if_neg (by simpa using hcr), hwidth]

/-- Where the cursor stands after the lines `done`, before the line that waits. -/
def Cursor.past (buf waiting : List UInt8) (cursor : Cursor) (done : Block × List SseEvent) :
    Cursor :=
  ⟨buf.length - waiting.length, buf.length - waiting.length + (unended CR waiting).length, done.1,
    cursor.events ++ done.2⟩

/-- Mid-stream the loop takes the complete lines, and stops before the one that waits. -/
theorem lineLoop_lines (s : List UInt8) : ∀ {front known cursor fuel},
    Before buf cursor front known s → s.length < fuel →
      lineLoop buf false fuel cursor =
        (feedAll Block.line cursor.block (cutLines CR LF s).1 >>= fun done =>
          .ok (cursor.past buf (cutLines CR LF s).2 done)) := by
  induction s using lines_induction CR LF with
  | hnone s h =>
    intro front known cursor fuel hbefore hfuel
    obtain ⟨fuel, rfl⟩ : ∃ less, fuel = less + 1 := ⟨fuel - 1, by omega⟩
    have hbuf := hbefore.buf
    have hconsumed : buf.length - s.length = cursor.consumed := by
      rw [hbuf, hbefore.consumed, length_append, Nat.add_sub_cancel_right]
    rw [cutLines_none h, feedAll, ok_bind, Cursor.past, hconsumed, append_nil]
    rcases clean_of_firstLine h with hclean | ⟨clean, rfl, hclean⟩
    · rw [lineLoop_clean hbefore hclean, unended_clean hclean, hbefore.consumed, hbuf,
        length_append]
    · rw [lineLoop_held hbefore hclean, unended_held, hbefore.consumed]
  | hsome s line rest h ih =>
    intro front known cursor fuel hbefore hfuel
    obtain ⟨fuel, rfl⟩ : ∃ less, fuel = less + 1 := ⟨fuel - 1, by omega⟩
    have hshorter := length_of_firstLine h
    obtain ⟨b, after, rfl, hclean, hb, hpair, rfl⟩ := firstLine_eq_some h
    rw [lineLoop_ended hbefore hclean hb fun hcr hnil => absurd hnil (hpair hcr), cutLines_some h,
      feedAll]
    cases cursor.block.line line with
    | error e => rfl
    | ok done =>
      obtain ⟨taken, htaken⟩ : afterEnd CR LF b after <:+ buf :=
        (firstLine_suffix h).trans ⟨front, hbefore.buf.symm⟩
      have hfront : buf.length - (afterEnd CR LF b after).length = taken.length := by
        rw [← htaken, length_append, Nat.add_sub_cancel_right]
      have hnext : Before buf ⟨taken.length, taken.length, done.1, cursor.events ++ done.2⟩ taken []
          (afterEnd CR LF b after) :=
        ⟨htaken.symm, rfl, by simp [Clean], nil_prefix, by simp⟩
      rw [ok_bind, ok_bind, hfront, ih hnext (by omega)]
      cases feedAll Block.line done.1 (cutLines CR LF (afterEnd CR LF b after)).1 with
      | error e => rfl
      | ok rest => simp [Cursor.past]

theorem drop_past (buf : List UInt8) :
    buf.drop (buf.length - (cutLines CR LF buf).2.length) = (cutLines CR LF buf).2 := by
  obtain ⟨front, hfront⟩ := waiting_suffix CR LF buf
  have hlength : buf.length - (cutLines CR LF buf).2.length = front.length := by
    rw [← hfront, length_append, hfront, Nat.add_sub_cancel_right]
  rw [hlength]
  nth_rewrite 1 [← hfront]
  exact drop_left

/-- A buffer whose scanned bytes hold no ending. -/
def Scanned (parser : SseParser) : Prop :=
  parser.scanned ≤ parser.buf.length ∧ Clean CR LF (parser.buf.take parser.scanned)

/-- Mid-stream the parser takes the complete lines of its buffer and bounds the one that waits. -/
theorem pumpLines_eq {parser : SseParser} (h : Scanned parser) :
    parser.pumpLines false =
      (feedAll Block.line parser.block (cutLines CR LF parser.buf).1 >>= fun done =>
        if MAX_LINE_BYTES < (unended CR (cutLines CR LF parser.buf).2).length then
          .error (.overrun "line" MAX_LINE_BYTES)
        else
          .ok ({ parser with
            buf := (cutLines CR LF parser.buf).2
            scanned := (unended CR (cutLines CR LF parser.buf).2).length
            block := done.1 }, done.2)) := by
  have hbefore : Before parser.buf ⟨0, parser.scanned, parser.block, []⟩ []
      (parser.buf.take parser.scanned) parser.buf :=
    ⟨rfl, rfl, h.2, take_prefix _ _, by simp [Nat.min_eq_left h.1]⟩
  rw [SseParser.pumpLines, lineLoop_lines parser.buf hbefore (Nat.lt_succ_self _)]
  cases feedAll Block.line parser.block (cutLines CR LF parser.buf).1 with
  | error e => rfl
  | ok done =>
    simp only [ok_bind, Cursor.past, Nat.add_sub_cancel_left, drop_past, nil_append]

/-! ## What has been taken of a stream -/

/-- The stream without a leading byte order mark. -/
def body (seen : List UInt8) : List UInt8 := if BOM <+: seen then seen.drop BOM.length else seen

/-- A beginning that may become the byte order mark. -/
def Undecided (seen : List UInt8) : Prop := seen.length < BOM.length ∧ seen <+: BOM

instance : DecidablePred Undecided := fun _ => inferInstanceAs (Decidable (_ ∧ _))

/-- The complete lines of the stream, processed. -/
def taken (seen : List UInt8) : Except SseError (Block × List SseEvent) :=
  feedAll Block.line {} (cutLines CR LF (body seen)).1

/-- The bytes of its line that waits. -/
def waiting (seen : List UInt8) : List UInt8 := (cutLines CR LF (body seen)).2

def eventsOf (seen : List UInt8) : List SseEvent :=
  match taken seen with
  | .ok done => done.2
  | .error _ => []

/-- Every complete line is accepted, and the one that waits is within the cap. -/
structure Good (seen : List UInt8) : Prop where
  lines : ∃ done, taken seen = .ok done
  tail : (unended CR (waiting seen)).length ≤ MAX_LINE_BYTES

/-- The parser that has taken a stream. -/
structure Knows (seen : List UInt8) (parser : SseParser) : Prop where
  buf : parser.buf = waiting seen
  pending : parser.bomPending = decide (Undecided seen)
  scanned : parser.scanned = if Undecided seen then 0 else (unended CR (waiting seen)).length
  block : taken seen = .ok (parser.block, eventsOf seen)

theorem eventsOf_eq {done : Block × List SseEvent} (h : taken s = .ok done) :
    eventsOf s = done.2 := by
  rw [eventsOf, h]

variable {seen chunk all : List UInt8} {parser : SseParser} {done : Block × List SseEvent}

theorem body_undecided (h : Undecided seen) : body seen = seen := by
  rw [body, if_neg fun hbom => absurd hbom.length_le (Nat.not_le.2 h.1)]

theorem clean_bom : Clean CR LF BOM := by
  have hbom : BOM.all (fun b => !isEnd CR LF b) = true := by decide
  exact fun b hb => by simpa using all_eq_true.1 hbom b hb

theorem clean_undecided (h : Undecided seen) : Clean CR LF seen := by
  exact fun b hb => clean_bom b (h.2.subset hb)

theorem Undecided.of_append (h : Undecided (seen ++ chunk)) : Undecided seen := by
  refine ⟨Nat.lt_of_le_of_lt ?_ h.1, (prefix_append seen chunk).trans h.2⟩
  rw [length_append]
  omega

theorem taken_undecided (h : Undecided seen) : taken seen = .ok ({}, []) := by
  rw [taken, body_undecided h, cutLines_none (firstLine_clean (clean_undecided h))]
  rfl

theorem waiting_undecided (h : Undecided seen) : waiting seen = seen := by
  rw [waiting, body_undecided h, cutLines_none (firstLine_clean (clean_undecided h))]

theorem body_append (h : ¬ Undecided seen) (chunk : List UInt8) :
    body (seen ++ chunk) = body seen ++ chunk := by
  by_cases hbom : BOM <+: seen
  · rw [body, body, if_pos hbom, if_pos (hbom.trans (prefix_append _ _)),
      drop_append_of_le_length hbom.length_le]
  · have hno : ¬ BOM <+: seen ++ chunk := by
      intro hall
      rcases Nat.lt_or_ge seen.length BOM.length with hlt | hge
      · exact h ⟨hlt, prefix_of_prefix_length_le (prefix_append _ _) hall
          (Nat.le_of_lt hlt)⟩
      · exact hbom (prefix_of_prefix_length_le hall (prefix_append _ _) hge)
    rw [body, body, if_neg hbom, if_neg hno]

theorem pumpLines_taken (lines : List (List UInt8)) (done : Block × List SseEvent)
    (hscanned : Scanned parser)
    (hbom : parser.bomPending = false) (hall : ¬ Undecided all)
    (hlines : feedAll Block.line {} lines = .ok (parser.block, done.2))
    (hcut : cutLines CR LF (body all) =
      (lines ++ (cutLines CR LF parser.buf).1, (cutLines CR LF parser.buf).2)) :
    (∀ fed, parser.pumpLines false = .ok fed →
      Good all ∧ Knows all fed.1 ∧ eventsOf all = done.2 ++ fed.2) ∧
      (Good all → ∃ fed, parser.pumpLines false = .ok fed) := by
  have hwaiting : waiting all = (cutLines CR LF parser.buf).2 := by rw [waiting, hcut]
  have htaken : taken all = feedAll Block.line {} (lines ++ (cutLines CR LF parser.buf).1) := by
    rw [taken, hcut]
  rw [pumpLines_eq hscanned]
  constructor
  · intro fed hfed
    obtain ⟨more, hmore, hfed⟩ := bind_eq_ok hfed
    have hdone : taken all = .ok (more.1, done.2 ++ more.2) := by
      rw [htaken, feedAll_append hlines hmore]
    split at hfed
    · cases hfed
    · rename_i hcap
      obtain rfl := Except.ok.inj hfed
      refine ⟨⟨⟨_, hdone⟩, ?_⟩, ⟨hwaiting.symm, ?_, ?_, ?_⟩, eventsOf_eq hdone⟩
      · rw [hwaiting]
        exact Nat.le_of_not_lt hcap
      · rw [hbom, decide_eq_false hall]
      · rw [if_neg hall, hwaiting]
      · rw [hdone, eventsOf_eq hdone]
  · rintro ⟨⟨whole, hwhole⟩, htail⟩
    rw [htaken] at hwhole
    obtain ⟨first, more, hfirst, hmore, -⟩ := feedAll_split hwhole
    rw [hlines] at hfirst
    obtain rfl := Except.ok.inj hfirst
    rw [hmore, ok_bind, if_neg (Nat.not_lt.2 (hwaiting ▸ htail))]
    exact ⟨_, rfl⟩

/-! ## One chunk -/

theorem scanned_waiting (buf : List UInt8) (chunk : List UInt8) :
    (unended CR (cutLines CR LF buf).2).length ≤ ((cutLines CR LF buf).2 ++ chunk).length ∧
      Clean CR LF (((cutLines CR LF buf).2 ++ chunk).take
        (unended CR (cutLines CR LF buf).2).length) := by
  rcases clean_of_firstLine (firstLine_waiting CR LF buf) with
    hclean | ⟨clean, heq, hclean⟩
  · rw [unended_clean hclean, take_left]
    exact ⟨by simp, hclean⟩
  · rw [heq, unended_held, append_assoc, take_left]
    exact ⟨by simp, hclean⟩

/-- The pump takes a chunk exactly when the stream to its end is good. -/
theorem pump_chunk (h : Knows seen parser) (hchunk : chunk ≠ []) :
    (∀ fed, SseParser.pump { parser with buf := parser.buf ++ chunk } false = .ok fed →
      Good (seen ++ chunk) ∧ Knows (seen ++ chunk) fed.1 ∧
        eventsOf (seen ++ chunk) = eventsOf seen ++ fed.2) ∧
      (Good (seen ++ chunk) →
        ∃ fed, SseParser.pump { parser with buf := parser.buf ++ chunk } false = .ok fed) := by
  obtain ⟨buf, scanned, bomPending, block⟩ := parser
  obtain ⟨rfl, rfl, rfl, hblock⟩ := h
  by_cases hseen : Undecided seen
  · have hbuf : waiting seen = seen := waiting_undecided hseen
    have hfresh : (block, eventsOf seen) = (({} : Block), ([] : List SseEvent)) := by
      rw [taken_undecided hseen] at hblock
      exact (Except.ok.inj hblock).symm
    obtain ⟨rfl, hevents⟩ := Prod.mk.inj hfresh
    rw [hevents]
    simp only [SseParser.pump, hbuf, decide_eq_true hseen, if_true]
    by_cases hall : Undecided (seen ++ chunk)
    · have hhold : (!(seen ++ chunk).isEmpty) = true ∧ (seen ++ chunk).length < BOM.length ∧
          (seen ++ chunk).isPrefixOf BOM = true ∧ (!false) = true := by
        refine ⟨by simp [hchunk], hall.1, isPrefixOf_iff_prefix.2 hall.2, rfl⟩
      rw [if_pos hhold]
      have htaken := taken_undecided hall
      constructor
      · intro fed hfed
        obtain rfl := Except.ok.inj hfed
        refine ⟨⟨⟨_, htaken⟩, ?_⟩, ⟨(waiting_undecided hall).symm, ?_, ?_, ?_⟩, ?_⟩
        · rw [waiting_undecided hall, unended_clean (clean_undecided hall)]
          exact Nat.le_trans (Nat.le_of_lt hall.1) (by decide)
        · rw [decide_eq_true hall]
        · rw [if_pos hseen, if_pos hall]
        · rw [htaken, eventsOf_eq htaken]
        · rw [eventsOf_eq htaken]
          rfl
      · exact fun _ => ⟨_, rfl⟩
    · have hopen : ¬((!(seen ++ chunk).isEmpty) = true ∧ (seen ++ chunk).length < BOM.length ∧
          (seen ++ chunk).isPrefixOf BOM = true ∧ (!false) = true) :=
        fun h => hall ⟨h.2.1, isPrefixOf_iff_prefix.1 h.2.2.1⟩
      have hbody : (if BOM.isPrefixOf (seen ++ chunk) = true then
          (seen ++ chunk).drop BOM.length else seen ++ chunk) = body (seen ++ chunk) := by
        simp only [body, isPrefixOf_iff_prefix]
      rw [if_neg hopen, hbody]
      exact pumpLines_taken [] ({}, [])
        ⟨Nat.zero_le _, by simp [Clean]⟩ rfl hall rfl rfl
  · have hall : ¬ Undecided (seen ++ chunk) := fun h => hseen h.of_append
    simp only [SseParser.pump, decide_eq_false hseen, if_neg hseen]
    have hcut : cutLines CR LF (body (seen ++ chunk)) =
        ((cutLines CR LF (body seen)).1 ++ (cutLines CR LF (waiting seen ++ chunk)).1,
          (cutLines CR LF (waiting seen ++ chunk)).2) := by
      rw [body_append hseen, cutLines_append]
      rfl
    exact pumpLines_taken _ (block, eventsOf seen) (scanned_waiting _ _) rfl hall hblock
      hcut

/-- The length of the first line, or of the whole. -/
def firstLength (s : List UInt8) : ℕ := s.findIdx isTerminator

/-- A first line that fills the cap only together with the byte order mark before it. -/
def LongMarked (s : List UInt8) : Prop :=
  BOM <+: s ∧ MAX_LINE_BYTES < BOM.length + firstLength (s.drop BOM.length)

theorem firstLength_clean_append (h : Clean CR LF clean) (s : List UInt8) :
    firstLength (clean ++ s) = clean.length + firstLength s := by
  rw [firstLength, findIdx_append, findIdx_clean h, if_neg (Nat.lt_irrefl _), firstLength,
    Nat.add_comm]

theorem line_length_le {block : Block} (h : block.line s = .ok done) :
    s.length ≤ MAX_LINE_BYTES := by
  rw [Block.line] at h
  split at h
  · cases h
  · rename_i hcap
    exact Nat.le_of_not_lt hcap

/-- The first of accepted lines is within the cap, also where it waits. -/
theorem firstLength_le {block : Block}
    (hlines : feedAll Block.line block (cutLines CR LF s).1 = .ok done)
    (htail : (unended CR (cutLines CR LF s).2).length ≤ MAX_LINE_BYTES) :
    firstLength s ≤ MAX_LINE_BYTES := by
  cases h : firstLine CR LF s with
  | none =>
    rw [cutLines_none h] at htail
    rcases clean_of_firstLine h with hclean | ⟨clean, rfl, hclean⟩
    · rw [unended_clean hclean] at htail
      rw [firstLength, findIdx_clean hclean]
      exact htail
    · rw [unended_held] at htail
      rw [firstLength_clean_append hclean]
      exact htail
  | some cut =>
    obtain ⟨line, rest⟩ := cut
    rw [cutLines_some h] at hlines
    obtain ⟨first, -, hline, -, -⟩ := feedAll_cons_ok hlines
    obtain ⟨b, after, rfl, hclean, hb, -, -⟩ := firstLine_eq_some h
    rw [firstLength_clean_append hclean, firstLength, findIdx_cons,
      show isTerminator b = true from hb]
    exact line_length_le hline

theorem Good.firstLength_le (h : Good s) : firstLength (body s) ≤ MAX_LINE_BYTES := by
  obtain ⟨done, hdone⟩ := h.lines
  exact Sse.firstLength_le hdone h.tail

/-- What `feed` measures before it copies the chunk. -/
def measured (parser : SseParser) (chunk : List UInt8) : ℕ :=
  (if parser.bomPending then parser.buf.length else parser.scanned) + firstLength chunk

/-- The line measured before the copy is the first line of what follows. -/
theorem measured_le (h : Knows seen parser) (hlast : parser.buf.getLast? ≠ some CR)
    (hgood : Good (seen ++ chunk)) (hshort : ¬(Undecided seen ∧ LongMarked (seen ++ chunk))) :
    measured parser chunk ≤ MAX_LINE_BYTES := by
  obtain ⟨buf, scanned, bomPending, block⟩ := parser
  obtain ⟨rfl, rfl, rfl, hblock⟩ := h
  by_cases hseen : Undecided seen
  · have hmeasured : measured ⟨waiting seen, if Undecided seen then 0 else
        (unended CR (waiting seen)).length, decide (Undecided seen), block⟩ chunk =
        firstLength (seen ++ chunk) := by
      simp [measured, hseen, waiting_undecided hseen,
        firstLength_clean_append (clean_undecided hseen)]
    rw [hmeasured]
    by_cases hbom : BOM <+: seen ++ chunk
    · have hmarked : ¬ LongMarked (seen ++ chunk) := fun hlong => hshort ⟨hseen, hlong⟩
      obtain ⟨rest, hrest⟩ := hbom
      rw [← hrest, LongMarked, drop_left] at hmarked
      rw [← hrest, firstLength_clean_append clean_bom]
      exact Nat.le_of_not_lt fun hlt => hmarked ⟨prefix_append _ _, hlt⟩
    · have hbody := hgood.firstLength_le
      rwa [body, if_neg hbom] at hbody
  · have hclean : Clean CR LF (waiting seen) := by
      rcases clean_of_firstLine (firstLine_waiting CR LF (body seen)) with
        hclean | ⟨clean, heq, -⟩
      · exact hclean
      · exact absurd (show (waiting seen).getLast? = some CR by simp [waiting, heq]) hlast
    have hmeasured : measured ⟨waiting seen, if Undecided seen then 0 else
        (unended CR (waiting seen)).length, decide (Undecided seen), block⟩ chunk =
        firstLength (waiting seen ++ chunk) := by
      simp [measured, hseen, unended_clean hclean, firstLength_clean_append hclean]
    have hcut := cutLines_append CR LF (body seen) chunk
    rw [← body_append hseen] at hcut
    obtain ⟨whole, hwhole⟩ := hgood.lines
    have htail := hgood.tail
    rw [taken, hcut] at hwhole
    rw [waiting, hcut] at htail
    obtain ⟨first, more, -, hmore, -⟩ := feedAll_split hwhole
    rw [hmeasured]
    exact firstLength_le hmore htail

/-- A chunk is taken when the stream to its end is good and no marked first line is too long. -/
theorem feed_good (h : Knows seen parser) (hgood : Good (seen ++ chunk))
    (hshort : ¬(Undecided seen ∧ LongMarked (seen ++ chunk))) :
    ∃ fed, parser.feed chunk = .ok fed ∧ Fed Knows eventsOf seen chunk fed := by
  rw [SseParser.feed]
  split
  · rename_i hnil
    obtain rfl := isEmpty_iff.1 hnil
    exact ⟨_, rfl, Fed.nil h⟩
  · rename_i hchunk
    have hne : chunk ≠ [] := fun hnil => hchunk (hnil ▸ rfl)
    have hroom : ¬(parser.buf.getLast? ≠ some CR ∧ MAX_LINE_BYTES < measured parser chunk) :=
      fun hover => absurd (measured_le h hover.1 hgood hshort) (Nat.not_le.2 hover.2)
    rw [measured, firstLength] at hroom
    obtain ⟨hknows, htakes⟩ := pump_chunk h hne
    obtain ⟨fed, hfed⟩ := htakes hgood
    obtain ⟨-, hnext, hevents⟩ := hknows fed hfed
    simp only [if_neg hroom]
    exact ⟨fed, hfed, hnext, hevents⟩

theorem good_of_feed {fed : SseParser × List SseEvent} (h : Knows seen parser) (hgood : Good seen)
    (hfeed : parser.feed chunk = .ok fed) :
    Good (seen ++ chunk) ∧ Fed Knows eventsOf seen chunk fed := by
  rw [SseParser.feed] at hfeed
  split at hfeed
  · rename_i hnil
    obtain rfl := isEmpty_iff.1 hnil
    obtain rfl := Except.ok.inj hfeed
    exact ⟨by simpa using hgood, Fed.nil h⟩
  · rename_i hchunk
    have hne : chunk ≠ [] := fun hnil => hchunk (hnil ▸ rfl)
    by_cases hover : parser.buf.getLast? ≠ some CR ∧ MAX_LINE_BYTES < measured parser chunk
    · rw [measured, firstLength] at hover
      simp only [if_pos hover] at hfeed
      cases hfeed
    · rw [measured, firstLength] at hover
      simp only [if_neg hover] at hfeed
      obtain ⟨hall, hnext, hevents⟩ := (pump_chunk h hne).1 fed hfeed
      exact ⟨hall, hnext, hevents⟩

/-! ## The end of the stream -/

/-- All lines of the stream, with the one that its end completes. -/
def processed (s : List UInt8) : Except SseError (Block × List SseEvent) :=
  feedAll Block.line {} (allLines CR LF [] (body s)).1

/-- At the end of the stream a line that waits for its pair is complete. -/
theorem pumpLines_end (hscanned : Scanned parser) (hwaiting : firstLine CR LF parser.buf = none)
    (htail : (unended CR parser.buf).length ≤ MAX_LINE_BYTES) :
    (parser.pumpLines true).map Prod.snd =
      (feedAll Block.line parser.block (lastLine CR parser.buf)).map Prod.snd := by
  have hbefore : Before parser.buf ⟨0, parser.scanned, parser.block, []⟩ []
      (parser.buf.take parser.scanned) parser.buf :=
    ⟨rfl, rfl, hscanned.2, take_prefix _ _, by simp [Nat.min_eq_left hscanned.1]⟩
  rcases clean_of_firstLine hwaiting with hclean | ⟨clean, hbuf, hclean⟩
  · rw [unended_clean hclean] at htail
    rw [SseParser.pumpLines, lineLoop_clean hbefore hclean, lastLine_clean hclean, ok_bind]
    simp only [Nat.sub_zero, if_neg (Nat.not_lt.2 htail)]
    rfl
  · rw [hbuf] at hbefore
    have hend : (clean ++ [CR]).length - (afterEnd CR LF CR []).length = (clean ++ [CR]).length :=
      rfl
    have hdone : ∀ cursor : Cursor, cursor.consumed = (clean ++ [CR]).length →
        cursor.scanned = (clean ++ [CR]).length →
        lineLoop (clean ++ [CR]) true (clean ++ [CR]).length cursor = .ok cursor := by
      intro cursor hconsumed hscanned
      have hempty : Before (clean ++ [CR]) cursor (clean ++ [CR]) [] [] :=
        ⟨by simp, hconsumed, by simp [Clean], nil_prefix, by simp [hconsumed, hscanned]⟩
      rw [length_append, length_singleton, lineLoop_clean hempty (by simp [Clean]),
        ← hscanned]
    rw [SseParser.pumpLines, hbuf, lastLine_held, feedAll,
      lineLoop_ended hbefore hclean (by decide) (fun _ _ => rfl), hend]
    cases parser.block.line clean with
    | error e => rfl
    | ok done =>
      rw [ok_bind, hdone _ rfl rfl, ok_bind, ok_bind]
      simp [feedAll, Except.map]

theorem finish_eq (h : Knows s parser) (hgood : Good s) :
    parser.finish.map Prod.snd =
      (feedAll Block.line parser.block (lastLine CR (waiting s))).map Prod.snd := by
  have hfinish : parser.finish.map Prod.snd = (parser.pump true).map Prod.snd := by
    rw [SseParser.finish]
    cases parser.pump true <;> rfl
  obtain ⟨buf, scanned, bomPending, block⟩ := parser
  obtain ⟨rfl, rfl, rfl, hblock⟩ := h
  rw [hfinish]
  have hwaits : firstLine CR LF (waiting s) = none := firstLine_waiting CR LF (body s)
  by_cases hs : Undecided s
  · have hwhole : waiting s = s := waiting_undecided hs
    have hbom : (if BOM.isPrefixOf s = true then s.drop BOM.length else s) = s := by
      rw [if_neg]
      rw [ isPrefixOf_iff_prefix]
      exact fun hbom => absurd hbom.length_le (Nat.not_le.2 hs.1)
    simp only [SseParser.pump, decide_eq_true hs, if_true, hwhole, Bool.not_true,
      Bool.false_eq_true, and_false, if_false, hbom]
    rw [hwhole] at hwaits
    have htail := hgood.tail
    rw [hwhole] at htail
    exact pumpLines_end ⟨Nat.zero_le _, by simp [Clean]⟩ hwaits htail
  · simp only [SseParser.pump, decide_eq_false hs, if_neg hs, Bool.false_eq_true, if_false]
    have hscanned := scanned_waiting (body s) []
    rw [append_nil] at hscanned
    exact pumpLines_end hscanned hwaits hgood.tail

theorem undecided_nil : Undecided [] := ⟨Nat.succ_pos _, nil_prefix⟩

theorem eventsOf_nil : eventsOf [] = [] := eventsOf_eq (taken_undecided undecided_nil)

theorem knows_nil : Knows [] {} := by
  have htaken := taken_undecided undecided_nil
  refine ⟨(waiting_undecided undecided_nil).symm, rfl, rfl, ?_⟩
  rw [htaken, eventsOf_eq htaken]

theorem Undecided.good (h : Undecided seen) : Good seen := by
  refine ⟨⟨_, taken_undecided h⟩, ?_⟩
  rw [waiting_undecided h, unended_clean (clean_undecided h)]
  exact Nat.le_trans (Nat.le_of_lt h.1) (by decide)

theorem Good.of_append (h : Good (seen ++ chunk)) : Good seen := by
  by_cases hseen : Undecided seen
  · exact hseen.good
  · have hcut := cutLines_append CR LF (body seen) chunk
    rw [← body_append hseen] at hcut
    obtain ⟨whole, hwhole⟩ := h.lines
    have htail := h.tail
    rw [taken, hcut] at hwhole
    rw [waiting, hcut] at htail
    obtain ⟨first, more, hfirst, hmore, -⟩ := feedAll_split hwhole
    refine ⟨⟨first, hfirst⟩, Nat.le_trans ?_ (Sse.firstLength_le hmore htail)⟩
    rw [waiting]
    rcases clean_of_firstLine (firstLine_waiting CR LF (body seen)) with
      hclean | ⟨clean, heq, hclean⟩
    · rw [unended_clean hclean, firstLength_clean_append hclean]
      omega
    · rw [heq, unended_held, append_assoc, firstLength_clean_append hclean]
      omega

theorem LongMarked.append (h : LongMarked seen) (chunk : List UInt8) :
    LongMarked (seen ++ chunk) := by
  obtain ⟨⟨rest, rfl⟩, hlong⟩ := h
  rw [drop_left] at hlong
  refine ⟨(prefix_append _ _).trans (prefix_append _ _), ?_⟩
  rw [append_assoc, drop_left, firstLength, findIdx_append]
  rw [firstLength] at hlong
  have hle := @findIdx_le_length _ isTerminator rest
  split <;> omega

/-! ## Whole streams -/

theorem processed_eq (s : List UInt8) :
    processed s =
      feedAll Block.line {} ((cutLines CR LF (body s)).1 ++ lastLine CR (waiting s)) := by
  rw [processed, allLines_eq]
  rfl

theorem accepted_of_parse {chunks : List (List UInt8)} {events : List SseEvent}
    (h : SseParser.parse chunks = .ok events) :
    Good chunks.flatten ∧ ∃ done, processed chunks.flatten = .ok done ∧ done.2 = events := by
  obtain ⟨fed, hfed, h⟩ := bind_eq_ok h
  obtain ⟨last, hlast, h⟩ := bind_eq_ok h
  obtain ⟨hgood, hknows, hitems⟩ := good_of_feedAll Knows eventsOf Good
    (fun seen s chunk fed hs hgood hok => good_of_feed hs hgood hok) chunks
    knows_nil undecided_nil.good hfed
  rw [nil_append] at hgood hknows
  rw [eventsOf_nil, nil_append, nil_append] at hitems
  have hfinish := finish_eq hknows hgood
  rw [hlast] at hfinish
  cases hdone : feedAll Block.line fed.1.block (lastLine CR (waiting chunks.flatten)) with
  | error e =>
    rw [hdone] at hfinish
    cases hfinish
  | ok done =>
    rw [hdone] at hfinish
    have hlast' : last.2 = done.2 := Except.ok.inj hfinish
    refine ⟨hgood, (done.1, eventsOf chunks.flatten ++ done.2), ?_, ?_⟩
    · rw [processed_eq]
      exact feedAll_append hknows.block hdone
    · rw [← Except.ok.inj h, hlast', hitems]

/-- A parser that has taken a good stream gives its events at the end. -/
theorem parse_of_fed {chunks : List (List UInt8)} {fed : SseParser × List SseEvent}
    (hfed : feedAll SseParser.feed {} chunks = .ok fed)
    (hknows : Fed Knows eventsOf [] chunks.flatten fed) (hgood : Good chunks.flatten)
    (hdone : processed chunks.flatten = .ok done) : SseParser.parse chunks = .ok done.2 := by
  obtain ⟨hknows, hitems⟩ := hknows
  rw [nil_append] at hknows
  rw [eventsOf_nil, nil_append, nil_append] at hitems
  have hfinish := finish_eq hknows hgood
  rw [processed_eq] at hdone
  obtain ⟨first, last, hfirst, hlast, rfl⟩ := feedAll_split hdone
  have hblock := hknows.block
  rw [taken, hfirst] at hblock
  obtain rfl := Except.ok.inj hblock
  rw [hlast] at hfinish
  cases hok : fed.1.finish with
  | error e =>
    rw [hok] at hfinish
    cases hfinish
  | ok ended =>
    rw [hok] at hfinish
    have hended : ended.2 = last.2 := Except.ok.inj hfinish
    rw [SseParser.parse, hfed, ok_bind, hok, ok_bind, hended, hitems]

/-- The streams that the parser takes however they are split. -/
def Takes (s : List UInt8) : Prop := Good s ∧ ¬ LongMarked s

theorem Takes.of_append (h : Takes (seen ++ chunk)) : Takes seen :=
  ⟨h.1.of_append, fun hlong => h.2 (hlong.append chunk)⟩

/-- The parser takes every split of an accepted stream without a marked first line too long. -/
theorem parse_of_accepted {chunks : List (List UInt8)} (h : Takes chunks.flatten)
    (hdone : processed chunks.flatten = .ok done) : SseParser.parse chunks = .ok done.2 := by
  obtain ⟨fed, hfed, hknows⟩ := feedAll_good Knows eventsOf Takes
    (fun seen more hmore => Takes.of_append hmore)
    (fun seen s chunk hs hall => feed_good hs hall.1 fun hlong => hall.2 hlong.2) chunks knows_nil h
  exact parse_of_fed hfed hknows h.1 hdone

/-- The mark alone in the first chunk keeps it out of the measure of the first line. -/
theorem parse_mark_apart {rest : List UInt8} (hgood : Good (BOM ++ rest))
    (hdone : processed (BOM ++ rest) = .ok done) : SseParser.parse [BOM, rest] = .ok done.2 := by
  have hshort : ¬ LongMarked ([] ++ BOM) := by
    rintro ⟨-, hlong⟩
    exact absurd hlong (by decide)
  have hdecided : ¬ Undecided ([] ++ BOM) := by decide
  obtain ⟨first, hfirst, hknows⟩ := feed_good knows_nil
    (@Good.of_append ([] ++ BOM) rest hgood) fun h => hshort h.2
  obtain ⟨second, hsecond, hknows'⟩ := @feed_good _ rest _ hknows.knows hgood
    fun h => hdecided h.1
  have hfed : feedAll SseParser.feed {} [BOM, rest] = .ok (second.1, first.2 ++ second.2) := by
    rw [feedAll_cons hfirst (feedAll_cons hsecond rfl), append_nil]
  have hflatten : [BOM, rest].flatten = BOM ++ rest := by simp
  refine parse_of_fed hfed ?_ (hflatten ▸ hgood) (hflatten ▸ hdone)
  rw [hflatten]
  exact hknows.append hknows'

/-- In one chunk the mark counts as part of the first line. -/
theorem parse_marked (h : LongMarked s) :
    SseParser.parse [s] = .error (.overrun "line" MAX_LINE_BYTES) := by
  obtain ⟨⟨rest, rfl⟩, hlong⟩ := h
  rw [drop_left] at hlong
  have hfirst : (BOM ++ rest).findIdx isTerminator = BOM.length + firstLength rest :=
    firstLength_clean_append clean_bom rest
  have hfeed : SseParser.feed {} (BOM ++ rest) = .error (.overrun "line" MAX_LINE_BYTES) := by
    rw [SseParser.feed, if_neg (by simp [BOM])]
    simp only [if_true, length_nil, Nat.zero_add, hfirst]
    rw [if_pos ⟨by simp, hlong⟩]
  rw [SseParser.parse, feedAll, hfeed]
  rfl

end Rivect.Providers.Sse
