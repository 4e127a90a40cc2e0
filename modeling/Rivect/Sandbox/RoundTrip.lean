import Mathlib.Data.Nat.Digits.Lemmas
import Rivect.Sandbox.Refusals

/-! # Encode and parse are inverse -/

namespace Rivect.Sandbox

open Lib List
open EffectPolicy (Text ascii LF SPACE)

/-! ## Words -/

/-- A word of a frame: not empty, graphic, without a blank. -/
def Word (text : Text) : Prop :=
  text ≠ [] ∧ ∀ byte ∈ text, plainByte byte = true ∧ byte ≠ SPACE

/-- A token and the bytes it stands for. -/
def Reads (bytes : Text) (token : FrameToken) (text : Text) : Prop :=
  token.Inside bytes.length ∧ (bytes.drop token.start).take (token.stop - token.start) = text

variable {bytes pre text rest : Text} {token : FrameToken} {tokens : List FrameToken}
  {words : List Text} {bodyLen n max : ℕ}

theorem Reads.tokenBytes (h : Reads bytes token text) : tokenBytes bytes token = .ok text := by
  rw [Sandbox.tokenBytes, if_pos ⟨h.1.1, h.1.2⟩, h.2]

theorem Reads.length (h : Reads bytes token text) : text.length = token.stop - token.start := by
  obtain ⟨⟨hstart, hstop⟩, rfl⟩ := h
  rw [length_take, length_drop]
  omega

theorem Reads.byteAt (h : Reads bytes token text) {i : ℕ} (hi : i < text.length) :
    byteAt bytes (token.start + i) = .ok text[i] := by
  have hlength := h.length
  obtain ⟨⟨hstart, hstop⟩, rfl⟩ := h
  rw [Sandbox.byteAt, getElem_take, getElem_drop,
    getElem?_eq_getElem (by omega)]
  rfl

theorem reads_append : Reads (pre ++ text ++ rest) ⟨pre.length, pre.length + text.length⟩ text := by
  refine ⟨⟨by simp, by simp⟩, ?_⟩
  rw [append_assoc, drop_left, Nat.add_sub_cancel_left, take_left]

theorem byteAt_append {byte : UInt8} : byteAt (pre ++ byte :: rest) pre.length = .ok byte := by
  rw [byteAt, getElem?_append_right (Nat.le_refl _), Nat.sub_self]
  rfl

theorem wordLength_word (hword : ∀ byte ∈ text, byte ≠ SPACE)
    (hstop : bodyLen = pre.length + text.length ∨
      (pre.length + text.length < bodyLen ∧ rest.head? = some SPACE)) :
    wordLength (pre ++ text ++ rest) bodyLen pre.length = .ok text.length := by
  induction text generalizing pre with
  | nil =>
    rw [wordLength]
    rcases hstop with hend | ⟨hmore, hblank⟩
    · rw [if_neg (by simp only [length_nil] at hend; omega)]
      rfl
    · obtain ⟨rest', rfl⟩ : ∃ rest', rest = SPACE :: rest' := by
        cases rest with
        | nil => cases hblank
        | cons b rest => exact ⟨rest, by rw [Option.some.inj hblank]⟩
      rw [if_pos (by simp only [length_nil] at hmore; omega), append_nil, byteAt_append]
      rfl
  | cons byte text ih =>
    have hcut : pre ++ byte :: text ++ rest = pre ++ [byte] ++ text ++ rest := by simp
    have hrest := @ih (pre ++ [byte]) (fun b hb => hword b (mem_cons_of_mem _ hb)) (by
      simp only [length_append, length_cons, length_nil] at hstop ⊢
      exact hstop.imp (fun h => by omega) fun h => ⟨by omega, h.2⟩)
    rw [← hcut, length_append, length_singleton] at hrest
    rw [wordLength, if_pos (by simp only [length_cons] at hstop; omega), hrest,
      append_assoc, cons_append, byteAt_append]
    simp [hword byte mem_cons_self, Bind.bind, Except.bind, Pure.pure, Except.pure]

theorem intercalate_cons_cons (word next : Text) (words : List Text) :
    intercalate [SPACE] (word :: next :: words) =
      word ++ SPACE :: intercalate [SPACE] (next :: words) := by
  simp [intercalate, List.intersperse]

theorem splitFrom_words (hwords : ∀ word ∈ words, Word word) (hne : words ≠ [])
    (hbytes : bytes = pre ++ intercalate [SPACE] words ++ [LF])
    (hbody : bodyLen = bytes.length - 1) :
    ∃ tokens, splitFrom bytes bodyLen pre.length = .ok tokens ∧
      Forall₂ (Reads bytes) tokens words := by
  -- Induction on the words, over what is cut off already: a word ends at a blank or at the end of
  -- the body.
  induction words generalizing pre with
  | nil => exact absurd rfl hne
  | cons word words ih =>
    obtain ⟨hnonempty, hplain⟩ := hwords word mem_cons_self
    have hpos := length_pos_iff.mpr hnonempty
    obtain ⟨first, more, rfl⟩ := exists_cons_of_ne_nil hnonempty
    have hfirst := (hplain first mem_cons_self).2
    cases words with
    | nil =>
      have hcut : bytes = pre ++ first :: more ++ [LF] := by
        simpa [intercalate] using hbytes
      have hlong : bodyLen = pre.length + (first :: more).length := by
        rw [hbody, hcut]
        simp
      have hlength := @wordLength_word pre (first :: more) [LF] bodyLen
        (fun b hb => (hplain b hb).2) (.inl hlong)
      rw [← hcut] at hlength
      have hbyte : byteAt bytes pre.length = .ok first := by
        rw [hcut, append_assoc]
        exact byteAt_append
      refine ⟨[⟨pre.length, pre.length + (first :: more).length⟩], ?_,
        .cons (hcut ▸ reads_append) .nil⟩
      rw [splitFrom, if_pos (by omega), hbyte]
      simp only [ok_bind, if_neg hfirst, hlength]
      rw [if_neg (by omega)]
      rfl
    | cons next words =>
      obtain ⟨hnextNonempty, hnextPlain⟩ := hwords next (by simp)
      obtain ⟨nextFirst, nextMore, rfl⟩ := exists_cons_of_ne_nil hnextNonempty
      have hnextFirst := (hnextPlain nextFirst mem_cons_self).2
      have hcut : bytes = pre ++ first :: more ++
          (SPACE :: intercalate [SPACE] ((nextFirst :: nextMore) :: words) ++ [LF]) := by
        rw [hbytes, intercalate_cons_cons]
        simp
      obtain ⟨tail, htail⟩ : ∃ tail,
          intercalate [SPACE] ((nextFirst :: nextMore) :: words) = nextFirst :: tail := by
        cases words with
        | nil => exact ⟨nextMore, by simp [intercalate]⟩
        | cons other words => exact ⟨_, by rw [intercalate_cons_cons, cons_append]⟩
      have hlong : pre.length + (first :: more).length + 1 < bodyLen := by
        rw [hbody, hcut, htail]
        simp only [length_append, length_cons, length_nil]
        omega
      have hlength := @wordLength_word pre (first :: more)
        (SPACE :: intercalate [SPACE] ((nextFirst :: nextMore) :: words) ++ [LF]) bodyLen
        (fun b hb => (hplain b hb).2) (.inr ⟨by omega, rfl⟩)
      rw [← hcut] at hlength
      have hbyte : byteAt bytes pre.length = .ok first := by
        rw [hcut, append_assoc]
        exact byteAt_append
      have hnextPre : pre.length + (first :: more).length + 1 =
          (pre ++ first :: more ++ [SPACE]).length := by
        simp only [length_append, length_singleton]
      have hnextCut : bytes = pre ++ first :: more ++ [SPACE] ++
          intercalate [SPACE] ((nextFirst :: nextMore) :: words) ++ [LF] := by
        rw [hcut]
        simp
      have hnextByte : byteAt bytes (pre.length + (first :: more).length + 1) = .ok nextFirst := by
        rw [hnextPre, hnextCut, htail, append_assoc]
        exact byteAt_append
      obtain ⟨tokens, htokens, hreads⟩ := ih (fun w hw => hwords w (mem_cons_of_mem _ hw))
        (by simp) hnextCut
      rw [← hnextPre] at htokens
      refine ⟨⟨pre.length, pre.length + (first :: more).length⟩ :: tokens, ?_,
        .cons (hcut ▸ reads_append) hreads⟩
      rw [splitFrom, if_pos (by omega), hbyte]
      simp only [ok_bind, if_neg hfirst, hlength]
      rw [if_pos (by omega), if_neg (by omega), hnextByte]
      simp only [ok_bind, if_neg hnextFirst, htokens]
      rfl

/-! ## Numerals -/

/-- The number that digits spell behind a value, most significant first. -/
def spelled (base value : ℕ) (ds : List ℕ) : ℕ := ds.foldl (fun v d => v * base + d) value

variable {base value offset : ℕ} {digit : UInt8 → Option ℕ} {ds : List ℕ}

theorem le_spelled (hbase : 0 < base) : value ≤ spelled base value ds := by
  induction ds generalizing value with
  | nil => exact Nat.le_refl _
  | cons d ds ih => exact ((Nat.le_mul_of_pos_right _ hbase).trans (Nat.le_add_right _ d)).trans ih

/-- The digits of a number within the bound are read back. -/
theorem readDigits_digits (hbase : 0 < base)
    (hdigit : ∀ d ∈ ds, digit (digitByte d) = some d) (hmax : spelled base value ds ≤ max) :
    readDigits base max digit offset value (ds.map digitByte) = .ok (spelled base value ds) := by
  induction ds generalizing value offset with
  | nil => rfl
  | cons d ds ih =>
    have hnext : value * base + d ≤ max := (le_spelled hbase).trans hmax
    have hvalue : value ≤ max / base := (Nat.le_div_iff_mul_le hbase).mpr (by omega)
    rw [map_cons, readDigits, hdigit d mem_cons_self]
    simp only [found_some, ok_bind, if_neg (Nat.not_lt.mpr hvalue), if_neg (Nat.not_lt.mpr hnext)]
    exact ih (fun e he => hdigit e (mem_cons_of_mem _ he)) hmax

theorem decimalDigit_digitByte {d : ℕ} (h : d < 10) : decimalDigit (digitByte d) = some d := by
  interval_cases d <;> rfl

theorem hexDigit_digitByte {d : ℕ} (h : d < 16) : hexDigit (digitByte d) = some d := by
  interval_cases d <;> rfl

theorem spelled_decimalDigits (n : ℕ) : spelled 10 0 (decimalDigits n) = n := by
  unfold decimalDigits spelled
  split
  · rename_i hzero
    rw [hzero]
    rfl
  · rw [foldl_reverse]
    have := Nat.ofDigits_digits 10 n
    rw [Nat.ofDigits_eq_foldr] at this
    conv_rhs => rw [← this]
    congr 1
    funext d v
    rw [Nat.mul_comm, Nat.add_comm]
    rfl

theorem spelled_hexDigits (width n : ℕ) : spelled 16 0 (hexDigits width n) = n % 16 ^ width := by
  induction width generalizing n with
  | zero => simp [hexDigits, spelled, Nat.mod_one]
  | succ width ih =>
    have hstep : spelled 16 0 (hexDigits (width + 1) n) =
        spelled 16 0 (hexDigits width (n / 16)) * 16 + n % 16 := by
      simp [hexDigits, spelled]
    rw [hstep, ih, Nat.pow_succ', Nat.mod_mul]
    omega

theorem hexDigits_lt (width n : ℕ) : ∀ d ∈ hexDigits width n, d < 16 := by
  induction width generalizing n with
  | zero => nofun
  | succ width ih =>
    intro d hd
    rcases mem_append.mp hd with hd | hd
    · exact ih _ d hd
    · obtain rfl := mem_singleton.mp hd
      exact Nat.mod_lt _ (by decide)

theorem length_hexDigits (width n : ℕ) : (hexDigits width n).length = width := by
  induction width generalizing n with
  | zero => rfl
  | succ width ih => rw [hexDigits, length_append, ih]; rfl

theorem decimalDigits_lt (n : ℕ) : ∀ d ∈ decimalDigits n, d < 10 := by
  unfold decimalDigits
  split
  · simp
  · exact fun d hd => Nat.digits_lt_base (by decide) (mem_reverse.mp hd)

/-- A decimal numeral of more than one digit starts with another digit than zero. -/
theorem head_decimal (h : 1 < (decimal n).length) : (decimal n).head? ≠ some 0x30 := by
  unfold decimal decimalDigits at h ⊢
  split
  · rename_i hzero
    rw [if_pos hzero] at h
    exact absurd h (by decide)
  · rename_i hpos
    have hlast := Nat.getLast_digit_ne_zero 10 hpos
    have hne : Nat.digits 10 n ≠ [] := Nat.digits_ne_nil_iff_ne_zero.mpr hpos
    rw [head?_map, head?_reverse, getLast?_eq_some_getLast hne]
    have hlt := Nat.digits_lt_base (by decide) (getLast_mem hne)
    generalize (Nat.digits 10 n).getLast hne = d at hlast hlt
    interval_cases d
    · exact absurd rfl hlast
    all_goals decide

theorem parseDecimal_decimal (h : Reads bytes token (decimal n)) (hmax : n ≤ max) :
    parseDecimal bytes token max = .ok n := by
  have hne : decimal n ≠ [] := by
    unfold decimal decimalDigits
    split
    · exact cons_ne_nil _ _
    · rename_i hpos
      simpa using Nat.digits_ne_nil_iff_ne_zero.mpr hpos
  have hread := @readDigits_digits max 10 0 token.start decimalDigit (decimalDigits n) (by decide)
    (fun d hd => decimalDigit_digitByte (decimalDigits_lt n d hd))
    (by rwa [spelled_decimalDigits])
  rw [spelled_decimalDigits] at hread
  rw [parseDecimal, h.tokenBytes]
  simp only [ok_bind, if_neg hne]
  rw [if_neg fun hzero => head_decimal hzero.1 hzero.2]
  exact hread

theorem hexBytes_reads (h : Reads bytes token text)
    (hhex : ∀ byte ∈ text, (hexDigit byte).isSome = true) {present : ℕ}
    (hpresent : present ≤ text.length) : hexBytes bytes token.start present = .ok () := by
  induction present with
  | zero => rfl
  | succ present ih =>
    rw [hexBytes, ih (by omega), h.byteAt (by omega)]
    exact require_pos (hhex _ (getElem_mem _))

theorem hexDigit_hex {width : ℕ} : ∀ byte ∈ hex width n, (hexDigit byte).isSome = true := by
  intro byte hbyte
  obtain ⟨d, hd, rfl⟩ := mem_map.mp hbyte
  rw [hexDigit_digitByte (hexDigits_lt width n d hd)]
  rfl

theorem parseHexBounded_hex {width : ℕ} (h : Reads bytes token (hex width n))
    (hwidth : n < 16 ^ width) (hmax : n ≤ max) :
    parseHexBounded bytes token width max = .ok n := by
  have hlength : token.stop - token.start = width := by
    rw [← h.length, hex, length_map, length_hexDigits]
  have hread := @readDigits_digits max 16 0 token.start hexDigit (hexDigits width n) (by decide)
    (fun d hd => hexDigit_digitByte (hexDigits_lt width n d hd))
    (by rwa [spelled_hexDigits, Nat.mod_eq_of_lt hwidth])
  rw [spelled_hexDigits, Nat.mod_eq_of_lt hwidth] at hread
  have htext : hexText bytes token width = .ok () := by
    rw [hexText, hexBytes_reads h hexDigit_hex (by rw [h.length]; omega)]
    simp [hlength, Bind.bind, Except.bind, Pure.pure, Except.pure]
  rw [parseHexBounded, htext, h.tokenBytes]
  exact hread

/-! ## From a frame to its tokens -/

theorem word_digits {ds : List ℕ} (hne : ds ≠ []) (hlt : ∀ d ∈ ds, d < 16) :
    Word (ds.map digitByte) := by
  refine ⟨by simpa using hne, fun byte hbyte => ?_⟩
  obtain ⟨d, hd, rfl⟩ := mem_map.mp hbyte
  have := hlt d hd
  interval_cases d <;> decide

theorem word_decimal (n : ℕ) : Word (decimal n) := by
  refine word_digits ?_ fun d hd => (decimalDigits_lt n d hd).trans (by decide)
  unfold decimalDigits
  split
  · exact cons_ne_nil _ _
  · rename_i hpos
    simpa using Nat.digits_ne_nil_iff_ne_zero.mpr hpos

theorem word_hex {width : ℕ} (hwidth : 0 < width) (n : ℕ) : Word (hex width n) := by
  refine word_digits ?_ (hexDigits_lt width n)
  intro hnil
  have := length_hexDigits width n
  rw [hnil, length_nil] at this
  omega

theorem mem_intercalate {byte : UInt8} (h : byte ∈ intercalate [SPACE] words) :
    byte = SPACE ∨ ∃ word ∈ words, byte ∈ word := by
  induction words with
  | nil => simp [intercalate] at h
  | cons word words ih =>
    cases words with
    | nil => exact .inr ⟨word, mem_cons_self, by simpa [intercalate] using h⟩
    | cons next words =>
      rw [intercalate_cons_cons] at h
      rcases mem_append.mp h with h | h
      · exact .inr ⟨word, mem_cons_self, h⟩
      · rcases mem_cons.mp h with rfl | h
        · exact .inl rfl
        · exact (ih h).imp_right fun ⟨w, hw, hb⟩ => ⟨w, mem_cons_of_mem _ hw, hb⟩

theorem bodyBytes_plain {index : ℕ} (h : ∀ byte ∈ text, plainByte byte = true) :
    bodyBytes index text = .ok () := by
  induction text generalizing index with
  | nil => rfl
  | cons byte rest ih =>
    rw [bodyBytes, require_pos (h byte mem_cons_self)]
    exact ih fun b hb => h b (mem_cons_of_mem _ hb)

/-- A frame of words is parsed to whatever its tokens decode to, if that encodes to the frame. -/
theorem parse_frameOf {record : OwnedRecord} (hwords : ∀ word ∈ words, Word word)
    (hne : words ≠ []) (hlength : (frameOf words).length ≤ 128)
    (hdecode : ∀ tokens, Forall₂ (Reads (frameOf words)) tokens words →
      decodeOwnedRecord (frameOf words) tokens = .ok record)
    (hencode : record.encode = .ok (frameOf words)) :
    parseOwnedRecordObserved (frameOf words) = .ok record := by
  obtain ⟨tokens, hsplit, hreads⟩ := @splitFrom_words (frameOf words) [] words _ hwords hne rfl rfl
  have hbody : bodyBytes 0 ((frameOf words).take ((frameOf words).length - 1)) = .ok () := by
    apply bodyBytes_plain
    intro byte hbyte
    have htake : (frameOf words).take ((frameOf words).length - 1) =
        intercalate [SPACE] words := by
      rw [frameOf, length_append, length_singleton, Nat.add_sub_cancel, take_left]
    rw [htake] at hbyte
    rcases mem_intercalate hbyte with rfl | ⟨word, hword, hbyte⟩
    · rfl
    · exact ((hwords word hword).2 byte hbyte).1
  have hpos : (frameOf words).length - 1 ≠ 0 := by
    obtain ⟨word, more, rfl⟩ := exists_cons_of_ne_nil hne
    intro hzero
    rw [splitFrom, if_neg (by rw [hzero]; simp)] at hsplit
    cases hsplit
    cases hreads
  have hlast : (frameOf words).getLast? = some LF := by
    rw [frameOf]
    exact getLast?_concat
  rw [parseOwnedRecordObserved]
  dsimp only
  rw [if_neg (by omega), if_neg (not_not.mpr hlast), hbody, splitFrameTokens, if_neg hpos]
  rw [length_nil] at hsplit
  rw [hsplit]
  simp only [ok_bind, hdecode tokens hreads]
  rw [if_neg (not_not.mpr hencode)]
  rfl

theorem reads_at {frame : Text} (h : Forall₂ (Reads frame) tokens words) (i : ℕ)
    (hi : words[i]? = some text) :
    ∃ token, frameToken tokens i = .ok token ∧ Reads frame token text := by
  induction h generalizing i with
  | nil => cases hi
  | cons hread _ ih =>
    cases i with
    | zero =>
      obtain rfl := Option.some.inj hi
      exact ⟨_, rfl, hread⟩
    | succ i => exact ih i hi

theorem finishRecord_length {record : OwnedRecord} {width : ℕ} (h : tokens.length = width) :
    finishRecord tokens width record = .ok record := by
  rw [finishRecord, getElem?_eq_none (by omega)]

/-! ## Lengths and names -/

theorem length_frameOf (hne : words ≠ []) :
    (frameOf words).length = (words.map List.length).sum + words.length := by
  rw [frameOf, length_append, length_singleton]
  induction words with
  | nil => exact absurd rfl hne
  | cons word words ih =>
    cases words with
    | nil => simp [intercalate]
    | cons next words =>
      have hrest := ih (cons_ne_nil _ _)
      rw [intercalate_cons_cons]
      simp only [length_append, length_cons, map_cons, sum_cons] at hrest ⊢
      omega

def isWord (text : Text) : Bool := !text.isEmpty && text.all fun b => plainByte b && b != SPACE

theorem word_of_isWord (h : isWord text = true) : Word text := by
  simp only [isWord, Bool.and_eq_true, all_eq_true, bne_iff_ne, Bool.not_eq_true',
    isEmpty_eq_false_iff] at h
  exact h

set_option maxRecDepth 4000 in
theorem boundaries_words :
    (childFaultBoundaries.all fun name => isWord (ascii name) && decide ((ascii name).length ≤ 34))
      = true := by
  decide +kernel

set_option maxRecDepth 4000 in
theorem boundaries_nodup : (childFaultBoundaries.map ascii).Nodup := by
  decide +kernel

/-- A name is found by its own bytes in a list without two names of the same bytes. -/
theorem find_ascii {α : Type} {token : α → String} {names : List α} {a : α}
    (hnodup : (names.map fun b => ascii (token b)).Nodup) (ha : a ∈ names) :
    names.find? (fun b => ascii (token b) = ascii (token a)) = some a := by
  induction names with
  | nil => cases ha
  | cons b names ih =>
    obtain ⟨hnew, hnodup⟩ := nodup_cons.mp hnodup
    rcases mem_cons.mp ha with rfl | ha
    · exact find?_cons_of_pos (by simp)
    · have hdiffer : ascii (token b) ≠ ascii (token a) := fun heq =>
        hnew (mem_map.mpr ⟨a, ha, heq.symm⟩)
      rw [find?_cons_of_neg (by simpa using hdiffer)]
      exact ih hnodup ha

theorem childFaultBoundary_ascii {boundary : String} (h : boundary ∈ childFaultBoundaries) :
    childFaultBoundary (ascii boundary) = some boundary :=
  @find_ascii String id _ _ boundaries_nodup h

theorem parse_profile (profile : OwnedProfile) :
    OwnedProfile.parse (ascii profile.token) = some profile :=
  find_ascii (by decide) (by cases profile <;> decide)

theorem parse_stop (reason : OwnedStop) :
    OwnedStop.parse (ascii reason.token) = some reason :=
  find_ascii (by decide) (by cases reason <;> decide)

/-! ## The records -/

section decode

variable {frame : Text}

theorem decode_kind (h : Forall₂ (Reads frame) tokens words)
    (hhead : words[0]? = some (ascii "owned-launch-v1")) (hkind : words[1]? = some text) :
    ∃ start, decodeOwnedRecord frame tokens =
      if text = ascii "entry" then decodeEntry frame tokens
      else if text = ascii "terminal" then decodeTerminal frame tokens
      else .error (malformedAt start) := by
  obtain ⟨head, hhead, hheadReads⟩ := reads_at h 0 hhead
  obtain ⟨kind, hkind, hkindReads⟩ := reads_at h 1 hkind
  refine ⟨kind.start, ?_⟩
  rw [decodeOwnedRecord, hhead]
  simp only [ok_bind, hheadReads.tokenBytes, hkind, hkindReads.tokenBytes]
  rw [if_neg (not_not.mpr rfl)]
  rfl

theorem decode_entry {profile : OwnedProfile} {baseline nproc : UInt32} (hbaseline : 0 < baseline)
    (hnproc : 0 < nproc)
    (h : Forall₂ (Reads frame) tokens [ascii "owned-launch-v1", ascii "entry",
      ascii profile.token, decimal baseline.toNat, decimal nproc.toNat, decimal 63]) :
    decodeOwnedRecord frame tokens = .ok (.entry profile baseline nproc 63) := by
  obtain ⟨profileToken, hprofileAt, hprofile⟩ := reads_at h 2 rfl
  obtain ⟨baselineToken, hbaselineAt, hbaselineReads⟩ := reads_at h 3 rfl
  obtain ⟨nprocToken, hnprocAt, hnprocReads⟩ := reads_at h 4 rfl
  obtain ⟨verifiedToken, hverifiedAt, hverified⟩ := reads_at h 5 rfl
  have hbaselinePos : baseline.toNat ≠ 0 := by
    have := UInt32.lt_iff_toNat_lt.mp hbaseline
    exact Nat.pos_iff_ne_zero.mp this
  have hnprocPos : nproc.toNat ≠ 0 := by
    have := UInt32.lt_iff_toNat_lt.mp hnproc
    exact Nat.pos_iff_ne_zero.mp this
  obtain ⟨start, hdecode⟩ := decode_kind h rfl rfl
  rw [hdecode, if_pos rfl, decodeEntry, hprofileAt]
  simp only [ok_bind, hprofile.tokenBytes, parse_profile, found_some, hbaselineAt,
    @parseDecimal_decimal _ _ _ u32Max hbaselineReads (Nat.le_pred_of_lt baseline.toNat_lt),
    if_neg hbaselinePos, hnprocAt,
    @parseDecimal_decimal _ _ _ u32Max hnprocReads (Nat.le_pred_of_lt nproc.toNat_lt),
    if_neg hnprocPos, hverifiedAt, @parseDecimal_decimal _ _ _ u8Max hverified (by decide)]
  rw [if_neg (by decide), finishRecord_length (show tokens.length = 6 from h.length_eq)]
  simp

theorem decode_terminal {verb : Text} (h : Forall₂ (Reads frame) tokens words)
    (hhead : words[0]? = some (ascii "owned-launch-v1"))
    (hkind : words[1]? = some (ascii "terminal")) (hverb : words[2]? = some verb) :
    ∃ start, decodeOwnedRecord frame tokens =
      if verb = ascii "exit" then decodeExit frame tokens
      else if verb = ascii "signal" then decodeSignal frame tokens
      else if verb = ascii "stop" then decodeStop frame tokens
      else if verb = ascii "fault" then decodeFault frame tokens
      else .error (malformedAt start) := by
  obtain ⟨start, hdecode⟩ := decode_kind h hhead hkind
  obtain ⟨verbToken, hverbAt, hverbReads⟩ := reads_at h 2 hverb
  refine ⟨verbToken.start, ?_⟩
  rw [hdecode, if_neg (by decide), if_pos rfl, decodeTerminal, hverbAt]
  simp only [ok_bind, hverbReads.tokenBytes]
  rfl

theorem decode_exit {code : UInt8}
    (h : Forall₂ (Reads frame) tokens [ascii "owned-launch-v1", ascii "terminal",
      ascii "exit", decimal code.toNat]) :
    decodeOwnedRecord frame tokens = .ok (.exit code) := by
  obtain ⟨start, hdecode⟩ := decode_terminal h rfl rfl rfl
  obtain ⟨codeToken, hcodeAt, hcode⟩ := reads_at h 3 rfl
  rw [hdecode, if_pos rfl, decodeExit, hcodeAt]
  simp only [ok_bind,
    @parseDecimal_decimal _ _ _ u8Max hcode (Nat.le_pred_of_lt code.toNat_lt)]
  rw [finishRecord_length (show tokens.length = 4 from h.length_eq)]
  simp

theorem decode_signal {number : UInt8} (hnumber : 1 ≤ number ∧ number ≤ 64)
    (h : Forall₂ (Reads frame) tokens [ascii "owned-launch-v1", ascii "terminal",
      ascii "signal", decimal number.toNat]) :
    decodeOwnedRecord frame tokens = .ok (.signal number) := by
  obtain ⟨start, hdecode⟩ := decode_terminal h rfl rfl rfl
  obtain ⟨signalToken, hsignalAt, hsignal⟩ := reads_at h 3 rfl
  have hrange : 1 ≤ number.toNat ∧ number.toNat ≤ 64 :=
    ⟨UInt8.le_iff_toNat_le.mp hnumber.1, UInt8.le_iff_toNat_le.mp hnumber.2⟩
  rw [hdecode, if_neg (by decide), if_pos rfl, decodeSignal, hsignalAt]
  simp only [ok_bind,
    @parseDecimal_decimal _ _ _ u8Max hsignal (Nat.le_pred_of_lt number.toNat_lt)]
  rw [if_neg (not_not.mpr hrange), finishRecord_length (show tokens.length = 4 from h.length_eq)]
  simp

theorem decode_stop {reason : OwnedStop}
    (h : Forall₂ (Reads frame) tokens [ascii "owned-launch-v1", ascii "terminal",
      ascii "stop", ascii reason.token]) :
    decodeOwnedRecord frame tokens = .ok (.stop reason) := by
  obtain ⟨start, hdecode⟩ := decode_terminal h rfl rfl rfl
  obtain ⟨reasonToken, hreasonAt, hreason⟩ := reads_at h 3 rfl
  rw [hdecode, if_neg (by decide), if_neg (by decide), if_pos rfl, decodeStop, hreasonAt]
  simp only [ok_bind, hreason.tokenBytes, parse_stop, found_some]
  exact finishRecord_length h.length_eq

/-! ## Faults -/

/-- Operands within the bounds of their tag, from an index on. -/
def Fits (tag : ℕ) : ℕ → List UInt64 → Prop
  | _, [] => True
  | index, word :: rest => word.toNat ≤ faultOperandMax tag index ∧ Fits tag (index + 1) rest

theorem toNat_le_u8Max (x : UInt8) : x.toNat ≤ u8Max := Nat.le_pred_of_lt x.toNat_lt

theorem toNat_le_u32Max (x : UInt32) : x.toNat ≤ u32Max := Nat.le_pred_of_lt x.toNat_lt

theorem toNat_le_u64Max (x : UInt64) : x.toNat ≤ u64Max := Nat.le_pred_of_lt x.toNat_lt

theorem errno_toNat {errno : Int32} (h : 0 < errno) :
    errno.toInt64.toUInt64.toNat = errno.toInt.toNat := by
  have hpos : 0 < errno.toInt := Int32.lt_iff_toInt_lt.mp h
  have hle : (0 : Int64) ≤ errno.toInt64 := by
    rw [Int64.le_iff_toInt_le, Int32.toInt_toInt64, Int64.toInt_zero]
    omega
  rw [Int64.toNat_toUInt64_of_le hle]
  simp

theorem errno_word {errno : Int32} (h : 0 < errno) :
    errno.toInt64.toUInt64.toNat ≤ i32Max ∧
      Int32.ofNat errno.toInt64.toUInt64.toNat = errno := by
  have hpos : 0 < errno.toInt := Int32.lt_iff_toInt_lt.mp h
  have hlt := errno.toInt_lt
  rw [errno_toNat h]
  refine ⟨?_, Int32.toInt_inj.mp ?_⟩
  · unfold i32Max
    omega
  · rw [Int32.toInt_ofNat_of_lt] <;> omega

theorem words_tag_lt (cause : OwnedFaultCause) : cause.words.1 < 16 ^ 4 := by
  cases cause <;> simp [OwnedFaultCause.words]

theorem words_arity (cause : OwnedFaultCause) :
    faultArity cause.words.1 = some cause.words.2.length := by
  cases cause <;> rfl

/-- An admitted cause writes operands within the bounds of its tag. -/
theorem words_fit {boundary : String} {cause : OwnedFaultCause}
    (hvalid : causeValidAt boundary cause = true) : Fits cause.words.1 0 cause.words.2 := by
  cases cause with
  | io operation field errno =>
    simp only [causeValidAt, Bool.and_eq_true, decide_eq_true_eq] at hvalid
    simp [OwnedFaultCause.words, Fits, faultOperandMax, toNat_le_u8Max, (errno_word hvalid.1).1]
  | _ =>
    simp [OwnedFaultCause.words, Fits, faultOperandMax, toNat_le_u8Max, toNat_le_u32Max,
      toNat_le_u64Max]

/-- The tag and the words of an admitted cause name it again. -/
theorem faultCause_words {boundary : String} {cause : OwnedFaultCause}
    (hvalid : causeValidAt boundary cause = true) :
    faultCause cause.words.1 ((cause.words.2.map UInt64.toNat).getD 0 0)
      ((cause.words.2.map UInt64.toNat).getD 1 0) ((cause.words.2.map UInt64.toNat).getD 2 0) =
        .ok cause := by
  cases cause with
  | io operation field errno =>
    simp only [causeValidAt, Bool.and_eq_true, decide_eq_true_eq] at hvalid
    simp [OwnedFaultCause.words, faultCause, (errno_word hvalid.1).2]
  | _ => simp [OwnedFaultCause.words, faultCause]

theorem operandWords_hex {tag index : ℕ} {operands : List UInt64}
    (h : Forall₂ (Reads frame) tokens (operands.map fun word => hex 16 word.toNat))
    (hfit : Fits tag index operands) :
    operandWords frame tag index tokens = .ok (operands.map UInt64.toNat) := by
  induction operands generalizing tokens index with
  | nil =>
    cases h
    rfl
  | cons word operands ih =>
    rw [map_cons, forall₂_cons_right_iff] at h
    obtain ⟨token, rest, hread, hrest, rfl⟩ := h
    have hlt : word.toNat < 16 ^ 16 := by
      have := word.toNat_lt
      omega
    rw [operandWords, parseHexBounded_hex hread hlt hfit.1]
    simp only [ok_bind, ih hrest hfit.2]
    rfl

theorem decode_fault (fault : OwnedFault)
    (h : Forall₂ (Reads frame) tokens ([ascii "owned-launch-v1", ascii "terminal",
      ascii "fault", ascii fault.boundary, hex 4 fault.cause.words.1] ++
        fault.cause.words.2.map fun word => hex 16 word.toNat)) :
    decodeOwnedRecord frame tokens = .ok (.fault fault) := by
  have htag := words_tag_lt fault.cause
  have hcause := faultCause_words fault.admitted.2
  obtain ⟨start, hdecode⟩ := decode_terminal h rfl rfl rfl
  obtain ⟨boundaryToken, hboundaryAt, hboundary⟩ := reads_at h 3 rfl
  obtain ⟨tagToken, htagAt, htagReads⟩ := reads_at h 4 rfl
  have hlength : tokens.length = 5 + fault.cause.words.2.length := by
    rw [h.length_eq]
    simp
    omega
  have hoperands : Forall₂ (Reads frame) (tokens.drop 5)
      (fault.cause.words.2.map fun word => hex 16 word.toNat) := forall₂_drop 5 h
  have hcount : (tokens.drop 5).length = fault.cause.words.2.length := by
    rw [length_drop]
    omega
  have hwords := operandWords_hex hoperands (words_fit fault.admitted.2)
  have hnew : OwnedFault.new fault.boundary fault.cause = .ok fault := dif_pos fault.admitted
  have htagMax : fault.cause.words.1 ≤ u16Max := by
    unfold u16Max
    omega
  have htagWord := @parseHexBounded_hex _ _ _ u16Max 4 htagReads htag htagMax
  rw [hdecode, if_neg (by decide), if_neg (by decide), if_neg (by decide), if_pos rfl,
    decodeFault, hboundaryAt]
  simp only [ok_bind, htagAt, hboundary.tokenBytes, childFaultBoundary_ascii fault.admitted.1,
    found_some, htagWord]
  rw [if_neg (by omega), words_arity]
  dsimp only
  rw [hcount, Nat.min_self, ← hcount, take_length, hwords]
  rw [getElem?_eq_none (Nat.le_refl _)]
  simp only [ok_bind, Nat.lt_irrefl, if_false, hcause, hnew]
  rfl

end decode

/-! ## Whole frames -/

theorem bounded_eq_ok {frame out : Text} :
    bounded frame = .ok out ↔ out = frame ∧ frame.length ≤ 128 := by
  rw [bounded]
  split
  · exact ⟨nofun, fun h => absurd h.2 (by omega)⟩
  · exact ⟨fun h => ⟨(Except.ok.inj h).symm, by omega⟩, fun h => h.1 ▸ rfl⟩

/-- A record that is written as these words, and that its words decode to, comes back. -/
theorem encode_parse_words {record : OwnedRecord} {frame : Text}
    (hwords : ∀ word ∈ words, Word word) (hne : words ≠ [])
    (hrecord : record.encode = bounded (frameOf words))
    (hdecode : ∀ tokens, Forall₂ (Reads (frameOf words)) tokens words →
      decodeOwnedRecord (frameOf words) tokens = .ok record)
    (h : record.encode = .ok frame) :
    frame.length ≤ 128 ∧ parseOwnedRecordObserved frame = .ok record := by
  obtain ⟨rfl, hlength⟩ := bounded_eq_ok.mp (hrecord.symm.trans h)
  exact ⟨hlength, parse_frameOf hwords hne hlength hdecode h⟩

/-- The words of a fault frame. -/
def OwnedFault.frameWords (fault : OwnedFault) : List Text :=
  [ascii "owned-launch-v1", ascii "terminal", ascii "fault", ascii fault.boundary,
    hex 4 fault.cause.words.1] ++ fault.cause.words.2.map fun word => hex 16 word.toNat

theorem fault_encode (fault : OwnedFault) :
    fault.encode = bounded (frameOf fault.frameWords) := by
  have hnew : OwnedFault.new fault.boundary fault.cause = .ok fault := dif_pos fault.admitted
  rw [OwnedFault.encode, hnew]
  rfl

theorem boundary_word {boundary : String} (h : boundary ∈ childFaultBoundaries) :
    Word (ascii boundary) ∧ (ascii boundary).length ≤ 34 := by
  have hname := all_eq_true.mp boundaries_words boundary h
  rw [Bool.and_eq_true, decide_eq_true_eq] at hname
  exact ⟨word_of_isWord hname.1, hname.2⟩

theorem fault_words (fault : OwnedFault) : ∀ word ∈ fault.frameWords, Word word := by
  intro word hword
  rcases mem_append.mp hword with hword | hword
  · simp only [mem_cons, not_mem_nil, or_false] at hword
    rcases hword with rfl | rfl | rfl | rfl | rfl
    · exact word_of_isWord (by decide)
    · exact word_of_isWord (by decide)
    · exact word_of_isWord (by decide)
    · exact (boundary_word fault.admitted.1).1
    · exact word_hex (by decide) _
  · obtain ⟨operand, -, rfl⟩ := mem_map.mp hword
    exact word_hex (by decide) _

theorem length_hex (width n : ℕ) : (hex width n).length = width := by
  rw [hex, length_map, length_hexDigits]

theorem words_length_le (cause : OwnedFaultCause) : cause.words.2.length ≤ 3 := by
  cases cause <;> simp [OwnedFaultCause.words]

/-- The longest boundary and three operands leave a fault frame within the bound. -/
theorem fault_length (fault : OwnedFault) : (frameOf fault.frameWords).length ≤ 128 := by
  have hboundary := (boundary_word fault.admitted.1).2
  have hoperands := words_length_le fault.cause
  have hhead : (ascii "owned-launch-v1").length = 15 ∧ (ascii "terminal").length = 8 ∧
      (ascii "fault").length = 5 := by decide
  have hmap (operands : List UInt64) :
      ((operands.map fun word => hex 16 word.toNat).map List.length).sum =
        16 * operands.length := by
    induction operands with
    | nil => rfl
    | cons word operands ih =>
      rw [map_cons, map_cons, sum_cons, ih, length_hex, length_cons]
      omega
  rw [length_frameOf (by simp [OwnedFault.frameWords])]
  simp only [OwnedFault.frameWords, map_append, sum_append, hmap, map_cons,
    map_nil, sum_cons, sum_nil, length_hex, length_append, length_cons,
    length_nil, length_map]
  omega

theorem fault_encodes (fault : OwnedFault) : ∃ frame, fault.encode = .ok frame :=
  ⟨_, (fault_encode fault).trans (bounded_eq_ok.mpr ⟨rfl, fault_length fault⟩)⟩

theorem word_ascii_token : (∀ profile : OwnedProfile, Word (ascii profile.token)) ∧
    ∀ reason : OwnedStop, Word (ascii reason.token) := by
  constructor
  · intro profile
    cases profile <;> exact word_of_isWord (by decide)
  · intro reason
    cases reason <;> exact word_of_isWord (by decide)

theorem encode_parse {record : OwnedRecord} {frame : Text} (h : record.encode = .ok frame) :
    frame.length ≤ 128 ∧ parseOwnedRecordObserved frame = .ok record := by
  have hplain : Word (ascii "owned-launch-v1") ∧ Word (ascii "entry") ∧ Word (ascii "terminal") ∧
      Word (ascii "exit") ∧ Word (ascii "signal") ∧ Word (ascii "stop") :=
    ⟨word_of_isWord (by decide), word_of_isWord (by decide), word_of_isWord (by decide),
      word_of_isWord (by decide), word_of_isWord (by decide), word_of_isWord (by decide)⟩
  obtain ⟨hversion, hentry, hterminal, hexit, hsignal, hstop⟩ := hplain
  cases record with
  | entry profile baseline nproc verified =>
    by_cases hoperands : verified = 63 ∧ 0 < baseline ∧ 0 < nproc
    · obtain ⟨rfl, hbaseline, hnproc⟩ := hoperands
      refine encode_parse_words ?_ (cons_ne_nil _ _) (if_pos ⟨rfl, hbaseline, hnproc⟩)
        (fun tokens htokens => decode_entry hbaseline hnproc htokens) h
      simp only [forall_mem_cons, not_mem_nil, false_imp_iff, implies_true, and_true]
      exact ⟨hversion, hentry, word_ascii_token.1 profile, word_decimal _, word_decimal _,
        word_decimal _⟩
    · rw [OwnedRecord.encode, if_neg hoperands] at h
      cases h
  | exit code =>
    refine encode_parse_words ?_ (cons_ne_nil _ _) rfl (fun tokens => decode_exit) h
    simp only [forall_mem_cons, not_mem_nil, false_imp_iff, implies_true, and_true]
    exact ⟨hversion, hterminal, hexit, word_decimal _⟩
  | signal number =>
    by_cases hnumber : 1 ≤ number ∧ number ≤ 64
    · refine encode_parse_words ?_ (cons_ne_nil _ _) (if_pos hnumber)
        (fun tokens => decode_signal hnumber) h
      simp only [forall_mem_cons, not_mem_nil, false_imp_iff, implies_true, and_true]
      exact ⟨hversion, hterminal, hsignal, word_decimal _⟩
    · rw [OwnedRecord.encode, if_neg hnumber] at h
      cases h
  | stop reason =>
    refine encode_parse_words ?_ (cons_ne_nil _ _) rfl (fun tokens => decode_stop) h
    simp only [forall_mem_cons, not_mem_nil, false_imp_iff, implies_true, and_true]
    exact ⟨hversion, hterminal, hstop, word_ascii_token.2 reason⟩
  | fault observed =>
    exact encode_parse_words (fault_words observed) (cons_ne_nil _ _) (fault_encode observed)
      (fun tokens => decode_fault observed) h

/-- What the parser accepts is the frame its record is written as. -/
theorem parse_encode {bytes : Text} {record : OwnedRecord}
    (h : parseOwnedRecordObserved bytes = .ok record) : record.encode = .ok bytes :=
  (parseOwnedRecordObserved_within bytes).of_ok h

theorem parseOwnedRecord_eq_ok {bytes : Text} {record : OwnedRecord} :
    parseOwnedRecord bytes = .ok record ↔ parseOwnedRecordObserved bytes = .ok record := by
  rw [parseOwnedRecord]
  cases parseOwnedRecordObserved bytes with
  | error cause => exact ⟨nofun, nofun⟩
  | ok accepted =>
    exact ⟨fun h => congrArg _ (Except.ok.inj h), fun h => congrArg _ (Except.ok.inj h)⟩

theorem parseOwnedFault_eq_ok {bytes : Text} {fault : OwnedFault} :
    parseOwnedFault bytes = .ok fault ↔ parseOwnedRecordObserved bytes = .ok (.fault fault) := by
  rw [parseOwnedFault]
  rcases parseOwnedRecordObserved bytes with cause | record
  · exact ⟨nofun, nofun⟩
  · cases record with
    | fault observed =>
      exact ⟨fun h => by rw [Except.ok.inj h],
        fun h => by rw [OwnedRecord.fault.inj (Except.ok.inj h)]⟩
    | _ => exact ⟨nofun, nofun⟩

/-- Frames and records answer each other one to one, faults always fit, and every refusal is a
cause of field 24 inside the frame. -/
theorem owned_records_inverse :
    (∀ (record : OwnedRecord) (frame : Text), record.encode = .ok frame →
      frame.length ≤ 128 ∧ parseOwnedRecordObserved frame = .ok record) ∧
    (∀ (boundary : String) (cause : OwnedFaultCause) (fault : OwnedFault),
      OwnedFault.new boundary cause = .ok fault → ∃ frame, fault.encode = .ok frame) ∧
    (∀ (bytes : Text) (record : OwnedRecord), parseOwnedRecordObserved bytes = .ok record →
      record.encode = .ok bytes) ∧
    (∀ (bytes other : Text) (record : OwnedRecord), parseOwnedRecordObserved bytes = .ok record →
      parseOwnedRecordObserved other = .ok record → bytes = other) ∧
    (∀ (bytes : Text) (record : OwnedRecord),
      parseOwnedRecord bytes = .ok record ↔ parseOwnedRecordObserved bytes = .ok record) ∧
    (∀ (bytes : Text) (fault : OwnedFault),
      parseOwnedFault bytes = .ok fault ↔ parseOwnedRecord bytes = .ok (.fault fault)) ∧
    (∀ (bytes : Text) (failed : Failed), parseOwnedRecordObserved bytes = .error failed →
      ∃ cause, failed = .refused cause ∧ cause.NamesFrame bytes.length) := by
  refine ⟨fun _ _ => encode_parse, fun _ _ fault _ => fault_encodes fault, fun _ _ => parse_encode,
    ?_, fun _ _ => parseOwnedRecord_eq_ok,
    fun _ _ => parseOwnedFault_eq_ok.trans parseOwnedRecord_eq_ok.symm, ?_⟩
  · intro bytes other record hbytes hother
    exact Except.ok.inj ((parse_encode hbytes).symm.trans (parse_encode hother))
  · intro bytes failed hfailed
    have hframe := (parseOwnedRecordObserved_within bytes).of_error hfailed
    cases failed with
    | refused cause => exact ⟨cause, rfl, hframe⟩
    | indexOutOfRange => exact hframe.elim

end Rivect.Sandbox
