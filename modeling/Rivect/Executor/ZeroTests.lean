import Rivect.Executor.Capture

/-! # The verdict of a test phase that ran nothing

The end of `execute_check_inner`: what it makes of the retained head of a test phase's output. The
refusals of the steps around it are a parameter.
-/

namespace Rivect.Executor

open Lib Utf8 List
open EffectPolicy (Text ascii decimal LF)

/-! ## The code -/

def RUNNING : List Char := "running ".toList

def TESTS : List Char := " tests".toList

def ZERO : List Char := "running 0 tests".toList

/-- A line that the verdict looks at. -/
def isRunning (line : List Char) : Prop := RUNNING <:+: line ∧ TESTS <:+ line

instance : DecidablePred isRunning := fun _ => inferInstanceAs (Decidable (_ ∧ _))

def runningLines (head : Text) : List (List Char) :=
  (lines (lossy head)).filter fun line => isRunning line

def zeroTests (head : Text) : Bool :=
  !(runningLines head).isEmpty && (runningLines head).all fun line => ZERO <:+ line

def RESULT : List Char := "test result:".toList

structure PhaseOutput where
  exitCode : Option ℤ
  signal : Option ℤ
  stdout : BoundedCapture
  stderr : BoundedCapture

structure CheckRun where
  exitCode : Option ℤ
  signal : Option ℤ
  stdout : BoundedCapture
  stderr : BoundedCapture
  summary : Option (List Char)

/-- A `CheckError` of the run: of the verdict, or of a step around it. -/
inductive CheckRefusal (ε : Type) where
  | zeroTests (detail : String)
  | step (refusal : ε)

/-- From the end of the test phase on: the phases before it, the owner's state and the closing of
the rows refuse in ways of their own. -/
def executeCheckInner {ε : Type} (target : String) (phases : Except ε PhaseOutput)
    (owner : Except ε Unit) (close : CheckRun → Except ε Unit) :
    Except (CheckRefusal ε) CheckRun := do
  let test ← phases.mapError .step
  require (zeroTests test.stdout.head = false)
    (.zeroTests ("the selector " ++ target ++ " matched no test in the snapshot"))
  let summary := (lines (lossy test.stdout.head)).find? fun line => RESULT <:+: line
  let run := ⟨test.exitCode, test.signal, test.stdout, test.stderr, summary⟩
  owner.mapError .step
  (close run).mapError .step
  return run

/-! ## Outputs of test binaries -/

/-- A line of an output: the header of a section, or any other. -/
inductive OutputLine where
  | header (tests : ℕ)
  | other (bytes : Text) (oneLine : LF ∉ bytes)

def plural (tests : ℕ) : String := if tests = 1 then " test" else " tests"

def OutputLine.bytes : OutputLine → Text
  | header tests => ascii "running " ++ decimal tests ++ ascii (plural tests)
  | other bytes _ => bytes

/-- The lines of the output, and what stands behind the last newline. -/
structure TestOutput where
  lines : List OutputLine
  rest : Text
  oneLine : LF ∉ rest

def textOf (lines : List OutputLine) (rest : Text) : Text :=
  lines.flatMap (fun line => line.bytes ++ [LF]) ++ rest

def sectionsOf (lines : List OutputLine) : List ℕ :=
  lines.filterMap fun
    | .header tests => some tests
    | .other .. => none

namespace TestOutput

def bytes (output : TestOutput) : Text := textOf output.lines output.rest

/-- How many tests each section ran. -/
def sections (output : TestOutput) : List ℕ := sectionsOf output.lines

end TestOutput

/-- Each header ends within so many bytes. -/
def HeadersWithin (room : ℕ) (lines : List OutputLine) : Prop :=
  ∀ earlier tests later, lines = earlier ++ .header tests :: later →
    (textOf earlier (OutputLine.header tests).bytes).length ≤ room

/-- What so many bytes show of a line. -/
def shown (room : ℕ) (bytes : Text) : List Char :=
  if bytes.length < room then chomp (lossy bytes) else lossy (bytes.take room)

/-- The other lines as so many bytes show them. -/
def othersIn : ℕ → List OutputLine → Text → List (List Char)
  | room, [], rest => [lossy (rest.take room)]
  | room, .header tests :: lines, rest =>
    othersIn (room - ((OutputLine.header tests).bytes.length + 1)) lines rest
  | room, .other bytes _ :: lines, rest =>
    shown room bytes :: othersIn (room - (bytes.length + 1)) lines rest

/-- The other lines that the verdict looks at. -/
def TestOutput.noise (output : TestOutput) : List (List Char) :=
  (othersIn CHECK_CAPTURE_EDGE_BYTES output.lines output.rest).filter fun line => isRunning line

/-- Nothing ran: there is a section, and none has a test. -/
def TestOutput.RanNothing (output : TestOutput) : Prop :=
  output.sections ≠ [] ∧ ∀ tests ∈ output.sections, tests = 0

/-- When the filter tells the sections apart: one has several tests; or all are empty and so is
what any other line says; or one has a single test, or there is none, and either no line is taken
for an empty section or another line speaks of tests. -/
def TestOutput.Clear (output : TestOutput) : Prop :=
  (∃ tests ∈ output.sections, 2 ≤ tests) ∨
    (output.RanNothing ∧ ∀ line ∈ output.noise, ZERO <:+ line) ∨
    ((output.sections = [] ∨ 1 ∈ output.sections) ∧
      ((0 ∉ output.sections ∧ output.noise = []) ∨ ∃ line ∈ output.noise, ¬ ZERO <:+ line))

/-! ## The lines of a text -/

variable {a line : List Char} {bytes rest : Text} {ls : List OutputLine} {room n : ℕ}

theorem lines_cons (h : '\n' ∉ a) (rest : List Char) :
    lines (a ++ '\n' :: rest) = chomp a :: lines rest := by
  have hfree : ∀ c ∈ a, (c == '\n') = false := fun c hc =>
    beq_false_of_ne fun heq => h (heq ▸ hc)
  have hsplit : (a ++ '\n' :: rest).splitOn '\n' = a :: rest.splitOn '\n' :=
    splitOnP_append_cons_of_forall_mem hfree '\n' rfl rest
  have hne : rest.splitOn '\n' ≠ [] := splitOnP_ne_nil _ rest
  unfold lines
  dsimp only
  rw [hsplit, dropLast_cons_of_ne_nil hne, getLast?_cons_of_ne_nil hne]
  rfl

theorem lines_open (h : '\n' ∉ a) (hne : a ≠ []) : lines a = [a] := by
  have hfree : ∀ c ∈ a, (c == '\n') = false := fun c hc =>
    beq_false_of_ne fun heq => h (heq ▸ hc)
  have hsplit : a.splitOn '\n' = [a] := splitOnP_eq_singleton hfree
  unfold lines
  rw [hsplit]
  simp [hne]

theorem newline_notMem_lossy (h : LF ∉ bytes) : '\n' ∉ lossy bytes := by
  intro hmem
  obtain ⟨b, hb, hchar⟩ := mem_of_mem_lossy (by decide) (by decide) hmem
  have hnat := congrArg Char.toNat hchar
  have hvalid : (Char.ofNat b.toNat).toNat = b.toNat := by
    have hlt := b.toNat_lt
    unfold Char.ofNat
    rw [dif_pos (.inl (by omega))]
    rfl
  have hLF : b = LF := UInt8.toNat_inj.mp (hvalid.symm.trans hnat.symm)
  exact h (hLF ▸ hb)

theorem not_isRunning_nil : ¬ isRunning [] := by decide

theorem mem_lines (h : '\n' ∉ a) (hline : isRunning line) : line ∈ lines a ↔ line = a := by
  by_cases hne : a = []
  · subst hne
    refine ⟨(fun h => by cases h), ?_⟩
    rintro rfl
    exact absurd hline not_isRunning_nil
  · rw [lines_open h hne, mem_singleton]

/-! ## Headers -/

/-- A header as a line shows it. -/
def headerLine (tests : ℕ) : List Char :=
  RUNNING ++ Nat.toDigits 10 tests ++ (plural tests).toList

theorem lossy_chars {chars : List Char} (h : ∀ c ∈ chars, c.toNat < 0x80) :
    lossy (chars.map fun c => UInt8.ofNat c.toNat) = chars := by
  have hsame : ∀ c ∈ chars, Char.ofNat (UInt8.ofNat c.toNat).toNat = c := by
    intro c hc
    have hlt : c.toNat < 256 := Nat.lt_of_lt_of_le (h c hc) (by decide)
    rw [UInt8.toNat_ofNat', Nat.mod_eq_of_lt hlt, Char.ofNat_toNat]
  rw [lossy_ascii, map_map]
  · conv_rhs => rw [← map_id chars]
    exact map_congr_left hsame
  · intro b hb
    obtain ⟨c, hc, rfl⟩ := mem_map.mp hb
    have hlt : c.toNat < 256 := Nat.lt_of_lt_of_le (h c hc) (by decide)
    rw [UInt8.lt_iff_toNat_lt, UInt8.toNat_ofNat', Nat.mod_eq_of_lt hlt]
    exact h c hc

theorem isDigit_toNat {c : Char} (h : c.isDigit = true) : 48 ≤ c.toNat ∧ c.toNat ≤ 57 := by
  simpa [Char.isDigit, UInt32.le_iff_toNat_le] using h

/-- A character that stands in the words of a header. -/
def plainChar (c : Char) : Bool := c.toNat < 0x80 && c != '\n'

theorem mem_headerLine {c : Char} (h : c ∈ headerLine n) : c.toNat < 0x80 ∧ c ≠ '\n' := by
  have hwords : RUNNING.all plainChar ∧ " test".toList.all plainChar ∧
      " tests".toList.all plainChar := by decide
  obtain ⟨hrunning, hone, hmany⟩ := hwords
  have hplain : plainChar c = true → c.toNat < 0x80 ∧ c ≠ '\n' := by
    rw [plainChar, Bool.and_eq_true, decide_eq_true_iff, bne_iff_ne]
    exact id
  rcases mem_append.mp h with h | h
  · rcases mem_append.mp h with h | h
    · exact hplain (all_eq_true.mp hrunning c h)
    · have hdigit := isDigit_toNat (Nat.isDigit_of_mem_toDigits (by decide) (by decide) h)
      refine ⟨by omega, ?_⟩
      rintro rfl
      revert hdigit
      decide
  · unfold plural at h
    split at h
    · exact hplain (all_eq_true.mp hone c h)
    · exact hplain (all_eq_true.mp hmany c h)

theorem header_bytes :
    (OutputLine.header n).bytes = (headerLine n).map fun c => UInt8.ofNat c.toNat := by
  rw [headerLine, map_append, map_append]
  rfl

theorem lossy_header : lossy (OutputLine.header n).bytes = headerLine n := by
  rw [header_bytes, lossy_chars fun c hc => (mem_headerLine hc).1]

theorem LF_notMem_header : LF ∉ (OutputLine.header n).bytes := by
  rw [header_bytes]
  intro hmem
  obtain ⟨c, hc, hbyte⟩ := mem_map.mp hmem
  obtain ⟨hlt, hne⟩ := mem_headerLine hc
  have hnat := congrArg UInt8.toNat hbyte
  rw [UInt8.toNat_ofNat', Nat.mod_eq_of_lt (by omega)] at hnat
  refine hne ?_
  rw [← Char.ofNat_toNat c, hnat]
  rfl

theorem getLast_headerLine : (headerLine n).getLast? ≠ some '\r' := by
  unfold headerLine plural
  rw [getLast?_append]
  have hlast : " test".toList.getLast? = some 't' ∧ " tests".toList.getLast? = some 's' := by
    decide
  split
  · rw [hlast.1, Option.some_or]
    decide
  · rw [hlast.2, Option.some_or]
    decide

theorem chomp_headerLine : chomp (headerLine n) = headerLine n := by
  rw [chomp, if_neg getLast_headerLine]

theorem isRunning_headerLine : isRunning (headerLine n) ↔ n ≠ 1 := by
  constructor
  · rintro ⟨-, h⟩ rfl
    revert h
    decide
  · intro hn
    refine ⟨⟨[], Nat.toDigits 10 n ++ (plural n).toList, by rw [headerLine]; simp⟩, ?_⟩
    rw [headerLine, plural, if_neg hn]
    exact suffix_append _ _

theorem zero_headerLine (hn : n ≠ 1) : ZERO <:+ headerLine n ↔ n = 0 := by
  constructor
  · rintro ⟨p, hp⟩
    have hzero : ZERO = RUNNING ++ ['0'] ++ TESTS := by decide
    rw [hzero, headerLine, plural, if_neg hn, ← append_assoc, ← append_assoc] at hp
    have hdigits : p ++ RUNNING ++ ['0'] = RUNNING ++ Nat.toDigits 10 n :=
      append_cancel_right hp
    obtain ⟨digits, d, hd⟩ := (eq_nil_or_concat' _).resolve_left (@Nat.toDigits_ne_nil n 10)
    rw [hd, ← append_assoc] at hdigits
    obtain ⟨hfront, hlast⟩ := append_inj' hdigits rfl
    obtain rfl : '0' = d := (List.cons.inj hlast).1
    have hnil : digits = [] := by
      -- The byte before the last digit would be the blank.
      by_contra hne
      have hends := congrArg List.getLast? hfront
      have hblank : RUNNING.getLast? = some ' ' := by decide
      rw [getLast?_append, getLast?_append, getLast?_eq_some_getLast hne, hblank,
        Option.some_or, Option.some_or, Option.some.injEq] at hends
      have hmem : ' ' ∈ Nat.toDigits 10 n := by
        rw [hd, hends]
        exact mem_append_left _ (getLast_mem hne)
      exact absurd (Nat.isDigit_of_mem_toDigits (by decide) (by decide) hmem) (by decide)
    have hvalue : Nat.ofDigitChars 10 (Nat.toDigits 10 n) 0 = n := by simp
    rw [hd, hnil, nil_append] at hvalue
    rw [← hvalue]
    decide
  · rintro rfl
    have hzero : headerLine 0 = ZERO := by
      rw [headerLine, Nat.toDigits_of_lt_base (by decide)]
      decide
    exact hzero ▸ suffix_rfl

/-! ## What the head shows -/

theorem othersIn_zero (hline : line ∈ othersIn 0 ls rest) : line = [] := by
  induction ls with
  | nil => simpa [othersIn, lossy, fromUtf8Lossy] using hline
  | cons first ls ih =>
    cases first with
    | header tests =>
      rw [othersIn, Nat.zero_sub] at hline
      exact ih hline
    | other bytes oneLine =>
      rw [othersIn, Nat.zero_sub] at hline
      rcases mem_cons.mp hline with rfl | hline
      · rw [shown, if_neg (Nat.not_lt_zero _)]
        rfl
      · exact ih hline

theorem HeadersWithin.tail {first : OutputLine} (h : HeadersWithin room (first :: ls)) :
    HeadersWithin (room - (first.bytes.length + 1)) ls := by
  intro earlier tests later hlines
  have := h (first :: earlier) tests later (by rw [hlines]; rfl)
  simp only [textOf, flatMap_cons, length_append, length_singleton] at this ⊢
  omega

theorem not_header_of_full {first : OutputLine} (h : HeadersWithin room (first :: ls))
    (hfull : room ≤ first.bytes.length) (tests : ℕ) : OutputLine.header tests ∉ ls := by
  intro hmem
  obtain ⟨earlier, later, hlines⟩ := append_of_mem hmem
  have := h (first :: earlier) tests later (by rw [hlines]; rfl)
  simp only [textOf, flatMap_cons, length_append, length_singleton] at this
  omega

/-- The ls of the head that the verdict may look at are headers and what is shown of others. -/
theorem mem_head (h : HeadersWithin room ls) (hrest : LF ∉ rest) (hline : isRunning line) :
    line ∈ lines (lossy ((textOf ls rest).take room)) ↔
      (∃ tests, .header tests ∈ ls ∧ line = headerLine tests) ∨
        line ∈ othersIn room ls rest := by
  induction ls generalizing room with
  | nil =>
    have hfree : '\n' ∉ lossy (rest.take room) :=
      newline_notMem_lossy fun hmem => hrest (mem_of_mem_take hmem)
    rw [textOf, flatMap_nil, nil_append, mem_lines hfree hline, othersIn,
      mem_singleton]
    simp
  | cons first ls ih =>
    have hcut : textOf (first :: ls) rest = first.bytes ++ LF :: textOf ls rest := by
      simp [textOf]
    have hfree : LF ∉ first.bytes := by
      cases first with
      | header tests => exact LF_notMem_header
      | other bytes oneLine => exact oneLine
    by_cases hfits : first.bytes.length < room
    · -- The whole line is shown, and the others follow in the room that is left.
      have htake : (first.bytes ++ LF :: textOf ls rest).take room =
          first.bytes ++ LF :: (textOf ls rest).take (room - (first.bytes.length + 1)) := by
        rw [take_append, take_of_length_le (by omega)]
        obtain ⟨k, hk⟩ : ∃ k, room - first.bytes.length = k + 1 :=
          ⟨room - first.bytes.length - 1, by omega⟩
        rw [hk, take_succ_cons]
        congr 3
        omega
      rw [hcut, htake, lossy_append_ascii (by decide)]
      change line ∈ Executor.lines (_ ++ '\n' :: _) ↔ _
      rw [lines_cons (newline_notMem_lossy hfree), mem_cons, ih h.tail]
      cases first with
      | header tests =>
        rw [lossy_header, chomp_headerLine, othersIn]
        simp only [mem_cons, OutputLine.header.injEq, or_and_right, exists_or,
          exists_eq_left, or_assoc]
      | other bytes oneLine =>
        have hshown : shown room bytes = chomp (lossy bytes) := if_pos hfits
        rw [othersIn, mem_cons, hshown]
        simp only [mem_cons, reduceCtorEq, false_or]
        exact or_left_comm
    · -- The line is the last one, and nothing of what follows is shown.
      have hfull : room ≤ first.bytes.length := Nat.le_of_not_lt hfits
      have htake : (first.bytes ++ LF :: textOf ls rest).take room = first.bytes.take room :=
        take_append_of_le_length hfull
      have hzero : room - (first.bytes.length + 1) = 0 := by omega
      have hnone := not_header_of_full h hfull
      have hfree' : '\n' ∉ lossy (first.bytes.take room) :=
        newline_notMem_lossy fun hmem => hfree (mem_of_mem_take hmem)
      have hothers : line ∉ othersIn 0 ls rest := fun hmem =>
        not_isRunning_nil (othersIn_zero hmem ▸ hline)
      rw [hcut, htake, mem_lines hfree' hline]
      cases first with
      | header tests =>
        have hwhole := h [] tests ls rfl
        rw [textOf, flatMap_nil, nil_append] at hwhole
        rw [othersIn, hzero, take_of_length_le hwhole, lossy_header]
        simp only [mem_cons, OutputLine.header.injEq, hnone, or_false, exists_eq_left, hothers]
      | other bytes oneLine =>
        have hshown : shown room bytes = lossy (bytes.take room) := if_neg hfits
        rw [othersIn, show room - (bytes.length + 1) = 0 from hzero, mem_cons, hshown]
        simp only [mem_cons, reduceCtorEq, hnone, or_self, false_and, exists_false, false_or,
          hothers, or_false]
        rfl

/-! ## The verdict -/

theorem mem_runningLines (h : HeadersWithin room ls) (hrest : LF ∉ rest) {line : List Char} :
    line ∈ runningLines ((textOf ls rest).take room) ↔
      (∃ tests ∈ sectionsOf ls, tests ≠ 1 ∧ line = headerLine tests) ∨
        line ∈ (othersIn room ls rest).filter fun line => isRunning line := by
  have hsections : ∀ tests, tests ∈ sectionsOf ls ↔ .header tests ∈ ls := by
    intro tests
    rw [sectionsOf, mem_filterMap]
    constructor
    · rintro ⟨first, hfirst, hsome⟩
      cases first with
      | header m =>
        obtain rfl := Option.some.inj hsome
        exact hfirst
      | other bytes oneLine => cases hsome
    · exact fun hmem => ⟨.header tests, hmem, rfl⟩
  rw [runningLines, mem_filter, mem_filter, decide_eq_true_iff]
  constructor
  · rintro ⟨hmem, hline⟩
    rcases (mem_head h hrest hline).mp hmem with ⟨tests, hheader, rfl⟩ | hother
    · exact .inl ⟨tests, (hsections tests).mpr hheader, isRunning_headerLine.mp hline, rfl⟩
    · exact .inr ⟨hother, hline⟩
  · rintro (⟨tests, htests, hne, rfl⟩ | ⟨hother, hline⟩)
    · have hline := isRunning_headerLine.mpr hne
      exact ⟨(mem_head h hrest hline).mpr (.inl ⟨tests, (hsections tests).mp htests, rfl⟩), hline⟩
    · exact ⟨(mem_head h hrest hline).mpr (.inr hother), hline⟩

theorem zeroTests_eq (head : Text) : zeroTests head = true ↔
    (∃ line, line ∈ runningLines head) ∧ ∀ line ∈ runningLines head, ZERO <:+ line := by
  rw [zeroTests, Bool.and_eq_true, all_eq_true]
  refine and_congr ?_ (forall₂_congr fun line _ => decide_eq_true_iff)
  cases runningLines head with
  | nil => simp
  | cons line ls => simp

/-- What the verdict says in terms of the sections and of the noise. -/
theorem zeroTests_head (output : TestOutput)
    (h : HeadersWithin CHECK_CAPTURE_EDGE_BYTES output.lines) :
    zeroTests (output.bytes.take CHECK_CAPTURE_EDGE_BYTES) = true ↔
      ((∃ tests ∈ output.sections, tests ≠ 1) ∨ output.noise ≠ []) ∧
        (∀ tests ∈ output.sections, tests = 0 ∨ tests = 1) ∧
        ∀ line ∈ output.noise, ZERO <:+ line := by
  have hmem : ∀ line, line ∈ runningLines (output.bytes.take CHECK_CAPTURE_EDGE_BYTES) ↔
      (∃ tests ∈ output.sections, tests ≠ 1 ∧ line = headerLine tests) ∨ line ∈ output.noise :=
    fun line => mem_runningLines h output.oneLine
  rw [zeroTests_eq]
  refine and_congr ?_ ?_
  · constructor
    · rintro ⟨line, hline⟩
      rcases (hmem line).mp hline with ⟨tests, htests, hne, -⟩ | hnoise
      · exact .inl ⟨tests, htests, hne⟩
      · exact .inr (ne_nil_of_mem hnoise)
    · rintro (⟨tests, htests, hne⟩ | hnoise)
      · exact ⟨_, (hmem _).mpr (.inl ⟨tests, htests, hne, rfl⟩)⟩
      · obtain ⟨line, hline⟩ := exists_mem_of_ne_nil _ hnoise
        exact ⟨line, (hmem line).mpr (.inr hline)⟩
  · constructor
    · intro hzero
      refine ⟨fun tests htests => ?_, fun line hline => hzero line ((hmem line).mpr (.inr hline))⟩
      by_cases hne : tests = 1
      · exact .inr hne
      · have hmember := (hmem _).mpr (.inl ⟨tests, htests, hne, rfl⟩)
        exact .inl ((zero_headerLine hne).mp (hzero _ hmember))
    · rintro ⟨hsections, hnoise⟩ line hline
      rcases (hmem line).mp hline with ⟨tests, htests, hne, rfl⟩ | hline
      · exact (zero_headerLine hne).mpr ((hsections tests htests).resolve_right hne)
      · exact hnoise line hline

/-- The verdict tells whether anything ran exactly for clear outputs. -/
theorem zeroTests_clear (output : TestOutput)
    (h : HeadersWithin CHECK_CAPTURE_EDGE_BYTES output.lines) :
    (zeroTests (output.bytes.take CHECK_CAPTURE_EDGE_BYTES) = true ↔ output.RanNothing) ↔
      output.Clear := by
  rw [zeroTests_head output h]
  unfold TestOutput.Clear TestOutput.RanNothing
  generalize output.sections = sections
  generalize output.noise = noise
  by_cases hmany : ∃ tests ∈ sections, 2 ≤ tests
  · -- A section of several tests speaks for itself.
    obtain ⟨tests, htests, htwo⟩ := hmany
    refine iff_of_true ⟨?_, ?_⟩ (.inl ⟨tests, htests, htwo⟩)
    · rintro ⟨-, hsections, -⟩
      have := hsections tests htests
      omega
    · rintro ⟨-, hzero⟩
      have := hzero tests htests
      omega
  · have hfew : ∀ tests ∈ sections, tests = 0 ∨ tests = 1 := by
      intro tests htests
      by_contra hother
      exact hmany ⟨tests, htests, by omega⟩
    have hbig : (∃ tests ∈ sections, tests ≠ 1) ↔ 0 ∈ sections := by
      constructor
      · rintro ⟨tests, htests, hne⟩
        rwa [(hfew tests htests).resolve_right hne] at htests
      · exact fun hzero => ⟨0, hzero, by decide⟩
    have hall : (∀ tests ∈ sections, tests = 0) ↔ 1 ∉ sections := by
      constructor
      · exact fun hzero hone => absurd (hzero 1 hone) (by decide)
      · intro hone tests htests
        exact (hfew tests htests).resolve_right fun h => hone (h ▸ htests)
    have hnone : sections = [] ↔ 0 ∉ sections ∧ 1 ∉ sections := by
      constructor
      · rintro rfl
        simp
      · rintro ⟨hzero, hone⟩
        refine eq_nil_iff_forall_not_mem.mpr fun tests htests => ?_
        rcases hfew tests htests with rfl | rfl
        · exact hzero htests
        · exact hone htests
    have hnoise : (∃ line ∈ noise, ¬ ZERO <:+ line) ↔ ¬ ∀ line ∈ noise, ZERO <:+ line := by
      simp only [not_forall, exists_prop]
    have hempty : noise = [] → ∀ line ∈ noise, ZERO <:+ line := by
      rintro rfl
      simp
    rw [hbig, hall, hnoise, Ne, hnone]
    simp only [hmany, false_or]
    tauto

theorem zeroTests_error {ε : Type} {target : String} {test : PhaseOutput} {owner : Except ε Unit}
    {close : CheckRun → Except ε Unit} :
    (∃ detail, executeCheckInner target (.ok test) owner close = .error (.zeroTests detail)) ↔
      zeroTests test.stdout.head = true := by
  unfold executeCheckInner
  cases hzero : zeroTests test.stdout.head with
  | true => exact iff_of_true ⟨_, by simp only [Except.mapError, ok_bind, hzero]; rfl⟩ rfl
  | false =>
    refine iff_of_false ?_ (by decide)
    rintro ⟨detail, herror⟩
    simp only [Except.mapError, ok_bind, hzero, require_pos] at herror
    cases owner with
    | error e => cases herror
    | ok =>
      generalize close _ = closed at herror
      cases closed with
      | error e => cases herror
      | ok => cases herror

/-- A check refuses for zero tests as it should exactly on clear outputs. -/
theorem zero_tests_exact {ε : Type} (target : String) (output : TestOutput) (chunks : List Slice)
    (test : PhaseOutput) (owner : Except ε Unit) (close : CheckRun → Except ε Unit)
    (hheaders : HeadersWithin CHECK_CAPTURE_EDGE_BYTES output.lines)
    (hstream : BoundedCapture.stream chunks = output.bytes)
    (hcaptured : BoundedCapture.captured chunks = some test.stdout) :
    ((∃ detail, executeCheckInner target (.ok test) owner close = .error (.zeroTests detail)) ↔
      output.RanNothing) ↔ output.Clear := by
  have hhead : test.stdout.head = output.bytes.take CHECK_CAPTURE_EDGE_BYTES := by
    rw [BoundedCapture.captured_eq, Option.some_inj] at hcaptured
    rw [← hcaptured, ← hstream]
    rfl
  rw [zeroTests_error, hhead]
  exact zeroTests_clear output hheaders

theorem headersWithin_of_length (h : (textOf ls []).length ≤ room) : HeadersWithin room ls := by
  rintro earlier tests later rfl
  refine le_trans ?_ h
  simp only [textOf, flatMap_append, flatMap_cons, length_append]
  omega

/-- The output of two binaries, the first of which ran nothing and the second a single test. -/
def zeroAndOne : TestOutput := ⟨[.header 0, .header 1], [], by decide⟩

def zeroAndOneChunk : Slice := ⟨zeroAndOne.bytes, by decide⟩

theorem stream_zeroAndOne : BoundedCapture.stream [zeroAndOneChunk] = zeroAndOne.bytes :=
  append_nil _

theorem headersWithin_zeroAndOne :
    HeadersWithin CHECK_CAPTURE_EDGE_BYTES zeroAndOne.lines :=
  headersWithin_of_length (by decide)

/-- What the run of the two binaries left. -/
def zeroAndOneRun : PhaseOutput := ⟨some 0, none, .of zeroAndOne.bytes, .of []⟩

theorem captured_zeroAndOne :
    BoundedCapture.captured [zeroAndOneChunk] = some zeroAndOneRun.stdout := by
  rw [BoundedCapture.captured_eq, stream_zeroAndOne]
  rfl

theorem zero_tests_exact_zeroAndOne :
    ((∃ detail, executeCheckInner (ε := Unit) "rivect" (.ok zeroAndOneRun) (.ok ())
      (fun _ => .ok ()) = .error (.zeroTests detail)) ↔ zeroAndOne.RanNothing) ↔
        zeroAndOne.Clear :=
  zero_tests_exact "rivect" zeroAndOne [zeroAndOneChunk] zeroAndOneRun (.ok ()) (fun _ => .ok ())
    headersWithin_zeroAndOne stream_zeroAndOne captured_zeroAndOne

/-- The check refuses although a test ran. -/
theorem zero_tests_refuses_a_test :
    HeadersWithin CHECK_CAPTURE_EDGE_BYTES zeroAndOne.lines ∧
      BoundedCapture.captured [zeroAndOneChunk] = some zeroAndOneRun.stdout ∧
      BoundedCapture.stream [zeroAndOneChunk] = zeroAndOne.bytes ∧
      executeCheckInner (ε := Unit) "rivect" (.ok zeroAndOneRun) (.ok ()) (fun _ => .ok ()) =
        .error (.zeroTests "the selector rivect matched no test in the snapshot") ∧
      1 ∈ zeroAndOne.sections ∧ ¬ zeroAndOne.RanNothing := by
  have hone : 1 ∈ zeroAndOne.sections := by decide
  have hzero : zeroTests zeroAndOneRun.stdout.head = true := by decide
  refine ⟨headersWithin_zeroAndOne, captured_zeroAndOne, stream_zeroAndOne, ?_, hone, ?_⟩
  · simp only [executeCheckInner, Except.mapError, ok_bind, hzero]
    rfl
  · exact fun hnothing => absurd (hnothing.2 1 hone) (by decide)

end Rivect.Executor
