import Rivect.Sandbox.Status

/-! # What the status of a process says

A field is named by one line of a text: its key, blanks, a canonical number and the newline. The
two scanners read exactly that, and each refusal points at the first byte that no such text has.
-/

namespace Rivect.Sandbox

open Lib List Option
open EffectPolicy (Text ascii LF SPACE)

/-- The rest of a line that states a number. -/
def Spells (value : Text) (n : ℕ) : Prop :=
  ∃ blanks : Text, blanks ≠ [] ∧ (∀ byte ∈ blanks, isBlank byte = true) ∧ n ≤ i32Max ∧
    value = blanks ++ decimal n ++ [LF]

/-- A value that can still be completed. -/
def Viable (value : Text) : Prop := ∃ rest n, Spells (value ++ rest) n

/-- The digits of a numeral as far as they were read. -/
def Numeral (ds : List ℕ) : Prop :=
  (∀ d ∈ ds, d < 10) ∧ (1 < ds.length → ds.head? ≠ some 0) ∧ spelled 10 0 ds ≤ i32Max

variable {value blanks rest tail : Text} {ds es : List ℕ} {n m offset : ℕ} {field : UInt8}

/-! ## Numerals -/

theorem spelled_append (ds es : List ℕ) :
    spelled 10 0 (ds ++ es) = spelled 10 (spelled 10 0 ds) es := foldl_append

theorem numeral_nil : Numeral [] := ⟨by simp, by simp, Nat.zero_le _⟩

theorem Numeral.of_append (h : Numeral (ds ++ es)) : Numeral ds := by
  obtain ⟨hlt, hhead, hmax⟩ := h
  refine ⟨fun d hd => hlt d (mem_append_left _ hd), ?_, ?_⟩
  · intro hlong
    have hboth : 1 < (ds ++ es).length := by
      rw [length_append]
      omega
    have hne : ds ≠ [] := by
      rintro rfl
      simp at hlong
    rw [head?_append_of_ne_nil _ hne] at hhead
    exact hhead hboth
  · rw [spelled_append] at hmax
    exact (le_spelled (by decide)).trans hmax

theorem spelled_eq_ofDigits (ds : List ℕ) : spelled 10 0 ds = Nat.ofDigits 10 ds.reverse := by
  rw [Nat.ofDigits_eq_foldr, foldr_reverse, spelled]
  congr 1
  funext v d
  rw [Nat.mul_comm, Nat.add_comm]
  rfl

theorem decimalDigits_spelled (h : Numeral ds) (hne : ds ≠ []) :
    decimalDigits (spelled 10 0 ds) = ds := by
  obtain ⟨hlt, hhead, -⟩ := h
  cases ds with
  | nil => exact absurd rfl hne
  | cons d ds =>
    by_cases hd : d = 0
    · -- A first zero is the whole numeral.
      have hds : ds = [] := by
        by_contra hmore
        have : 1 < (d :: ds).length := by
          have := length_pos_iff.mpr hmore
          simp only [length_cons]
          omega
        exact hhead this (by rw [hd]; rfl)
      rw [hd, hds]
      rfl
    · have hdigits := Nat.digits_ofDigits 10 (by decide) (d :: ds).reverse
        (fun e he => hlt e (mem_reverse.mp he)) (fun _ => by simpa using hd)
      rw [spelled_eq_ofDigits, decimalDigits, if_neg, hdigits, reverse_reverse]
      intro hzero
      rw [hzero] at hdigits
      simp at hdigits

theorem decimalDigits_ne_nil (n : ℕ) : decimalDigits n ≠ [] := by
  intro h
  have hn := spelled_decimalDigits n
  rw [h] at hn
  rw [← hn] at h
  simp [decimalDigits, spelled] at h

theorem numeral_decimalDigits (h : n ≤ i32Max) : Numeral (decimalDigits n) := by
  refine ⟨decimalDigits_lt n, ?_, ?_⟩
  · intro hlong hzero
    have hhead : (decimal n).head? = some 0x30 := by
      rw [decimal, head?_map, hzero]
      rfl
    exact head_decimal (by rwa [decimal, length_map]) hhead
  · rwa [spelled_decimalDigits]

theorem decimal_spelled (h : Numeral ds) (hne : ds ≠ []) :
    decimal (spelled 10 0 ds) = ds.map digitByte := by
  rw [decimal, decimalDigits_spelled h hne]

theorem decimalDigit_some {byte : UInt8} {d : ℕ} (h : decimalDigit byte = some d) :
    d < 10 ∧ byte = digitByte d := by
  unfold decimalDigit at h
  split at h
  · rename_i hrange
    obtain rfl := some.inj h
    obtain ⟨hlow, hhigh⟩ := hrange
    rw [UInt8.le_iff_toNat_le] at hlow hhigh
    have hlow' : 48 ≤ byte.toNat := hlow
    have hhigh' : byte.toNat ≤ 57 := hhigh
    have hlt : byte.toNat - 0x30 < 10 := by omega
    refine ⟨hlt, ?_⟩
    apply UInt8.toNat_inj.mp
    rw [digitByte, if_pos hlt, UInt8.toNat_ofNat']
    omega
  · cases h

theorem filterMap_digits (h : ∀ d ∈ ds, d < 10) :
    (ds.map digitByte).filterMap decimalDigit = ds := by
  induction ds with
  | nil => rfl
  | cons d ds ih =>
    rw [map_cons, filterMap_cons_some (decimalDigit_digitByte (h d mem_cons_self)),
      ih fun e he => h e (mem_cons_of_mem d he)]

theorem isBlank_digitByte {d : ℕ} (h : d < 10) : isBlank (digitByte d) = false := by
  interval_cases d <;> rfl

/-! ## Values -/

/-- What follows the blanks of a value that states a number. -/
theorem Spells.behind (h : Spells (blanks ++ tail) n)
    (hblanks : ∀ byte ∈ blanks, isBlank byte = true)
    (htail : ∀ byte ∈ tail.head?, isBlank byte = false) :
    blanks ≠ [] ∧ n ≤ i32Max ∧ tail = decimal n ++ [LF] := by
  obtain ⟨blanks', hne, hblanks', hmax, hvalue⟩ := h
  have hstop : ∀ {t : Text}, (∀ byte ∈ t.head?, isBlank byte = false) →
      t.takeWhile isBlank = [] := by
    intro t ht
    cases t with
    | nil => rfl
    | cons byte t => exact takeWhile_cons_of_neg (by simp [ht byte rfl])
  have hdigits : ∀ byte ∈ (decimal n ++ [LF]).head?, isBlank byte = false := by
    intro byte hbyte
    rw [head?_append_of_ne_nil _ (by simpa [decimal] using decimalDigits_ne_nil n), decimal,
      head?_map] at hbyte
    obtain ⟨d, hd, rfl⟩ := mem_map.mp hbyte
    exact isBlank_digitByte (decimalDigits_lt n d (mem_of_mem_head? hd))
  rw [append_assoc] at hvalue
  have hsame : blanks = blanks' := by
    have := congrArg (takeWhile isBlank) hvalue
    rwa [takeWhile_append_of_pos hblanks, takeWhile_append_of_pos hblanks', hstop htail,
      hstop hdigits, append_nil, append_nil] at this
  rw [hsame] at hvalue
  exact ⟨hsame ▸ hne, hmax, append_cancel_left hvalue⟩

theorem head_digits (hds : ∀ d ∈ ds, d < 10) (hne : ds ≠ []) (tail : Text) :
    ∀ byte ∈ (ds.map digitByte ++ tail).head?, isBlank byte = false := by
  intro byte hbyte
  rw [head?_append_of_ne_nil _ (by simpa using hne), head?_map] at hbyte
  obtain ⟨d, hd, rfl⟩ := mem_map.mp hbyte
  exact isBlank_digitByte (hds d (mem_of_mem_head? hd))

theorem spells_numeral (hblanks : ∀ byte ∈ blanks, isBlank byte = true) (hblank : blanks ≠ [])
    (hds : Numeral ds) (hne : ds ≠ []) :
    Spells (blanks ++ ds.map digitByte ++ [LF]) (spelled 10 0 ds) :=
  ⟨blanks, hblank, hblanks, hds.2.2, by rw [decimal_spelled hds hne]⟩

theorem Spells.unique (h : Spells value n) (h' : Spells value m) : n = m := by
  obtain ⟨blanks, -, hblanks, -, rfl⟩ := id h
  rw [append_assoc] at h'
  have hhead : ∀ byte ∈ (decimal n ++ [LF]).head?, isBlank byte = false :=
    head_digits (decimalDigits_lt n) (decimalDigits_ne_nil n) [LF]
  obtain ⟨-, -, htail⟩ := h'.behind hblanks hhead
  have hdecimal : decimal n = decimal m := append_cancel_right htail
  have hdigits := congrArg (List.filterMap decimalDigit) hdecimal
  rw [decimal, decimal, filterMap_digits (decimalDigits_lt n),
    filterMap_digits (decimalDigits_lt m)] at hdigits
  rw [← spelled_decimalDigits n, hdigits, spelled_decimalDigits]

section

variable (hblanks : ∀ byte ∈ blanks, isBlank byte = true)
include hblanks

theorem viable_blanks : Viable blanks := by
  refine ⟨(if blanks = [] then [SPACE] else []) ++ [0x30, LF], 0, ?_⟩
  split
  · rename_i hempty
    exact ⟨[SPACE], by simp, by simp [isBlank], Nat.zero_le _, by rw [hempty]; rfl⟩
  · rename_i hne
    exact ⟨blanks, hne, hblanks, Nat.zero_le _, by rw [append_assoc]; rfl⟩

theorem viable_numeral (hblank : blanks ≠ [])
    (hds : Numeral ds) : Viable (blanks ++ ds.map digitByte) := by
  by_cases hne : ds = []
  · rw [hne, map_nil, append_nil]
    exact viable_blanks hblanks
  · exact ⟨[LF], _, spells_numeral hblanks hblank hds hne⟩

theorem not_viable_blank {byte : UInt8}
    (hbyte : isBlank byte = false) (hbad : blanks = [] ∨ decimalDigit byte = none) :
    ¬ Viable (blanks ++ [byte]) := by
  rintro ⟨rest, n, h⟩
  rw [append_assoc] at h
  obtain ⟨hne, -, htail⟩ := h.behind hblanks (by simpa using hbyte)
  have hnone : decimalDigit byte = none := hbad.resolve_left hne
  cases hdigits : decimalDigits n with
  | nil => exact decimalDigits_ne_nil n hdigits
  | cons d ds =>
    rw [decimal, hdigits] at htail
    obtain ⟨rfl, -⟩ := List.cons.inj htail
    have hd : d < 10 := decimalDigits_lt n d (by rw [hdigits]; exact mem_cons_self)
    rw [decimalDigit_digitByte hd] at hnone
    cases hnone

theorem not_viable_digit {d : ℕ}
    (hds : Numeral ds) (hd : d < 10) (hbad : ¬ Numeral (ds ++ [d])) :
    ¬ Viable (blanks ++ ds.map digitByte ++ [digitByte d]) := by
  rintro ⟨rest, n, h⟩
  have hlt : ∀ e ∈ ds ++ [d], e < 10 := by
    simpa [or_imp, forall_and] using ⟨hds.1, hd⟩
  have hmap : blanks ++ ds.map digitByte ++ [digitByte d] ++ rest =
      blanks ++ ((ds ++ [d]).map digitByte ++ rest) := by simp
  rw [hmap] at h
  obtain ⟨-, hmax, htail⟩ := h.behind hblanks (head_digits hlt (by simp) rest)
  have hdigits := congrArg (List.filterMap decimalDigit) htail
  rw [filterMap_append, filterMap_append, filterMap_digits hlt, decimal,
    filterMap_digits (decimalDigits_lt n)] at hdigits
  have hnumeral := numeral_decimalDigits hmax
  have hnil : ([LF] : Text).filterMap decimalDigit = [] := rfl
  rw [hnil, append_nil] at hdigits
  rw [← hdigits] at hnumeral
  exact hbad hnumeral.of_append

/-- Behind the digits stands the newline and nothing else. -/
theorem not_viable_trailing {byte : UInt8}
    (hds : Numeral ds) (hne : ds ≠ []) (hbyte : decimalDigit byte = none) (hlf : byte ≠ LF) :
    ¬ Viable (blanks ++ ds.map digitByte ++ [byte]) := by
  rintro ⟨rest, n, h⟩
  rw [append_assoc, append_assoc] at h
  obtain ⟨-, -, htail⟩ := h.behind hblanks (head_digits hds.1 hne _)
  rw [singleton_append, append_eq_append_iff] at htail
  rcases htail with ⟨more, hmore, htail⟩ | ⟨more, -, htail⟩
  · cases more with
    | nil => exact hlf (List.cons.inj htail).1
    | cons first more =>
      obtain ⟨rfl, -⟩ := List.cons.inj htail
      have hmem : byte ∈ decimal n := by
        rw [hmore]
        simp
      obtain ⟨d, hd, rfl⟩ := mem_map.mp hmem
      rw [decimalDigit_digitByte (decimalDigits_lt n d hd)] at hbyte
      cases hbyte
  · cases more with
    | nil => exact hlf (List.cons.inj htail).1.symm
    | cons first more => simp at htail

end

/-! ## The digit loop -/

/-- A refusal that points at an offset of the text. -/
def OwnedFaultCause.PointsAt (field : UInt8) (offset : ℕ) (cause : OwnedFaultCause) : Prop :=
  cause = .malformed field (UInt64.ofNat offset) ∨
    cause = .numericOverflow field (UInt64.ofNat offset) ∨
    cause = .trailing field (UInt64.ofNat offset) ∨
    cause = .earlyEof field (UInt64.ofNat (offset + 1)) (UInt64.ofNat offset)

theorem numeral_digit {d : ℕ} (hds : Numeral ds) (hd : d < 10) (hhead : ds = [] ∨ ds.head? ≠ some 0)
    (hmax : spelled 10 0 ds * 10 + d ≤ i32Max) : Numeral (ds ++ [d]) := by
  refine ⟨?_, ?_, ?_⟩
  · simpa [or_imp, forall_and] using ⟨hds.1, hd⟩
  · intro hlong
    have hne : ds ≠ [] := by
      rintro rfl
      simp at hlong
    rw [head?_append_of_ne_nil _ hne]
    exact hhead.resolve_left hne
  · rwa [spelled_append]

theorem leadingZero_within (hvalue : value = blanks ++ ds.map digitByte ++ tail)
    (hds : Numeral ds) :
    Within (fun e => e = .refused (.malformed field
        (UInt64.ofNat (offset + (blanks.length + ds.length)))) ∧ ds.head? = some 0)
      (fun _ => ds = [] ∨ ds.head? ≠ some 0)
      (leadingZero value offset field blanks.length (blanks.length + ds.length)) := by
  unfold leadingZero
  cases ds with
  | nil =>
    rw [if_neg (by simp)]
    exact .inl rfl
  | cons d ds =>
    rw [if_pos (by simp)]
    have hd : d < 10 := hds.1 d mem_cons_self
    have hat : byteAt value blanks.length = .ok (digitByte d) := by
      rw [byteAt, hvalue, append_assoc, getElem?_append_right (Nat.le_refl _),
        Nat.sub_self]
      rfl
    have hzero : digitByte d = 0x30 ↔ d = 0 := by
      interval_cases d <;> decide
    rw [hat, ok_bind]
    refine (Within.require fun hleading => ?_).imp fun _ hleading => ?_
    · exact ⟨rfl, by rw [head?_cons, hzero.mp (not_not.mp hleading)]⟩
    · refine .inr fun hhead => hleading (hzero.mpr ?_)
      exact some.inj hhead

/-- The digits up to the first byte that is none, or the first digit that is too many. -/
theorem decimalLoop_within (hvalue : value = blanks ++ ds.map digitByte ++ rest)
    (hds : Numeral ds) :
    Within (fun e => ∃ more d tail cause, rest = more.map digitByte ++ digitByte d :: tail ∧
        d < 10 ∧ Numeral (ds ++ more) ∧ ¬ Numeral (ds ++ more ++ [d]) ∧ e = .refused cause ∧
        cause.PointsAt field (offset + (blanks.length + (ds ++ more).length)))
      (fun read => ∃ more tail, rest = more.map digitByte ++ tail ∧ Numeral (ds ++ more) ∧
        (∀ byte ∈ tail.head?, decimalDigit byte = none) ∧
        read = (spelled 10 0 (ds ++ more), blanks.length + (ds ++ more).length))
      (decimalLoop value offset field blanks.length (blanks.length + ds.length)
        (spelled 10 0 ds) rest) := by
  induction rest generalizing ds with
  | nil => exact ⟨[], [], rfl, by rwa [append_nil], by simp, by rw [append_nil]⟩
  | cons byte rest ih =>
    rw [decimalLoop]
    cases hbyte : decimalDigit byte with
    | none =>
      exact ⟨[], byte :: rest, rfl, by rwa [append_nil], by simpa using hbyte,
        by rw [append_nil]⟩
    | some d =>
      obtain ⟨hd, rfl⟩ := decimalDigit_some hbyte
      refine Within.bind ((leadingZero_within hvalue hds).mono ?_ fun _ h => h) fun _ hhead => ?_
      · rintro e ⟨rfl, hzero⟩
        refine ⟨[], d, rest, _, rfl, hd, by rwa [append_nil], ?_, rfl, .inl ?_⟩
        · intro hnumeral
          rw [append_nil] at hnumeral
          have hne : ds ≠ [] := by
            rintro rfl
            cases hzero
          refine hnumeral.2.1 ?_ ?_
          · have := length_pos_iff.mpr hne
            simp only [length_append, length_singleton]
            omega
          · rw [head?_append_of_ne_nil _ hne, hzero]
        · rw [append_nil]
      · refine Within.bind (Within.require fun hover => ?_) fun _ hmax => ?_
        · refine ⟨[], d, rest, _, rfl, hd, by rwa [append_nil], ?_, rfl, .inr (.inl ?_)⟩
          · intro hnumeral
            rw [append_nil] at hnumeral
            have := hnumeral.2.2
            rw [spelled_append] at this
            exact hover this
          · rw [append_nil]
        · -- The digit joins those before it, and the loop goes on behind it.
          have hnext := numeral_digit hds hd hhead hmax
          have hvalue' : value = blanks ++ (ds ++ [d]).map digitByte ++ rest := by
            rw [hvalue]
            simp
          have hspelled : spelled 10 0 (ds ++ [d]) = spelled 10 0 ds * 10 + d := by
            rw [spelled_append]
            rfl
          have hloop := ih hvalue' hnext
          rw [hspelled, length_append, length_singleton, ← Nat.add_assoc] at hloop
          refine hloop.mono ?_ ?_
          · rintro e ⟨more, d', tail, cause, hrest, hd', hmore, hbad, he, hpoints⟩
            refine ⟨d :: more, d', tail, cause, by rw [hrest]; rfl, hd', ?_, ?_, he, ?_⟩
            · rwa [append_cons ds d more]
            · rwa [append_cons ds d more]
            · rwa [append_cons ds d more]
          · rintro read ⟨more, tail, hrest, hmore, htail, hread⟩
            refine ⟨d :: more, tail, by rw [hrest]; rfl, ?_, htail, ?_⟩
            · rwa [append_cons ds d more]
            · rwa [append_cons ds d more]

/-! ## One value -/

/-- Where a value goes wrong: what stands before can be completed, the byte there cannot follow
it, and at the end the newline is missing. -/
def Stops (value : Text) (cursor : ℕ) : Prop :=
  cursor ≤ value.length ∧ Viable (value.take cursor) ∧
    (∀ byte, value[cursor]? = some byte → ¬ Viable (value.take cursor ++ [byte])) ∧
    (cursor = value.length → value.getLast? ≠ some LF)

theorem stops_append (hviable : Viable blanks)
    (hbyte : ∀ byte ∈ tail.head?, ¬ Viable (blanks ++ [byte]))
    (hlast : tail = [] → blanks.getLast? ≠ some LF) : Stops (blanks ++ tail) blanks.length := by
  have htake : (blanks ++ tail).take blanks.length = blanks := take_left
  have hat : (blanks ++ tail)[blanks.length]? = tail.head? := by
    rw [getElem?_append_right (Nat.le_refl _), Nat.sub_self, head?_eq_getElem?]
  refine ⟨by simp, by rwa [htake], ?_, ?_⟩
  · intro byte hat'
    rw [htake]
    exact hbyte byte (by rwa [hat] at hat')
  · intro hlength
    have htail : tail = [] := by
      rw [length_append] at hlength
      exact length_eq_zero_iff.mp (by omega)
    rw [htail, append_nil]
    exact hlast htail

theorem last_digit (hds : ∀ d ∈ ds, d < 10) (hne : ds ≠ []) :
    (blanks ++ ds.map digitByte).getLast? ≠ some LF := by
  obtain ⟨init, d, rfl⟩ := eq_nil_or_concat' ds |>.resolve_left hne
  have hd : d < 10 := hds d (by simp)
  rw [map_append, ← append_assoc, map_singleton, getLast?_concat]
  interval_cases d <;> decide

/-- The value of a line is read, or refused at the byte where it goes wrong. -/
theorem parentDecimal_within (hline : LF ∉ value.dropLast) :
    Within (fun e => ∃ cause cursor, e = .refused cause ∧ Stops value cursor ∧
        cause.PointsAt field (offset + cursor))
      (fun n => Spells value n) (parentDecimal value offset field) := by
  -- The value is blanks and what stands behind them; every refusal points behind a prefix of a
  -- numeral.
  obtain ⟨blanks, behind, hvalue, hblanks, hall, hhead⟩ : ∃ blanks behind : Text,
      value = blanks ++ behind ∧ value.takeWhile isBlank = blanks ∧
        (∀ byte ∈ blanks, isBlank byte = true) ∧ ∀ byte ∈ behind.head?, isBlank byte = false := by
    refine ⟨value.takeWhile isBlank, value.dropWhile isBlank,
      takeWhile_append_dropWhile.symm, rfl, all_eq_true.mp all_takeWhile, ?_⟩
    intro byte hbyte
    have hnot := head?_dropWhile_not isBlank value
    rw [mem_def.mp hbyte] at hnot
    simpa using hnot
  have hat : value[blanks.length]? = behind.head? := by
    rw [hvalue, getElem?_append_right (Nat.le_refl _), Nat.sub_self, head?_eq_getElem?]
  have hdrop : value.drop blanks.length = behind := by rw [hvalue, drop_left]
  rw [parentDecimal, hblanks]
  rw [hat, hdrop]
  refine Within.bind (Within.require fun hbad => ?_) fun _ hgood => ?_
  · -- No blank, or no digit behind the blanks.
    refine ⟨_, blanks.length, rfl, ?_, .inl rfl⟩
    rw [hvalue]
    refine stops_append (viable_blanks hall) (fun byte hbyte => ?_) fun _ hlast => ?_
    · refine not_viable_blank hall (hhead byte hbyte) ?_
      by_contra hboth
      rw [not_or] at hboth
      refine hbad ⟨by simpa using hboth.1, ?_⟩
      rw [mem_def.mp hbyte, bind_some]
      exact isSome_iff_ne_none.mpr hboth.2
    · have hblank := hall LF (mem_of_getLast? hlast)
      revert hblank
      decide
  · obtain ⟨hfirst, hdigit⟩ := hgood
    have hne : blanks ≠ [] := fun h => hfirst (by rw [h]; rfl)
    have hloop := @decimalLoop_within value blanks behind [] offset field (by simpa using hvalue)
      numeral_nil
    refine Within.bind (hloop.mono ?_ fun _ h => h) ?_
    · -- The digit is one too many.
      rintro e ⟨more, d, tail, cause, hbehind, hd, hmore, hbad, rfl, hpoints⟩
      rw [nil_append] at hmore hbad hpoints
      have hsplit : value = (blanks ++ more.map digitByte) ++ digitByte d :: tail := by
        rw [hvalue, hbehind, append_assoc]
      refine ⟨cause, blanks.length + more.length, rfl, ?_, hpoints⟩
      have hstops := @stops_append (blanks ++ more.map digitByte) (digitByte d :: tail)
        (viable_numeral hall hne hmore)
        (fun byte hbyte => by
          obtain rfl := some.inj hbyte
          exact not_viable_digit hall hmore hd hbad)
        (fun h => by cases h)
      rwa [← hsplit, length_append, length_map] at hstops
    · rintro read ⟨more, tail, hbehind, hmore, htail, rfl⟩
      rw [nil_append] at hmore ⊢
      have hsplit : value = (blanks ++ more.map digitByte) ++ tail := by
        rw [hvalue, hbehind, append_assoc]
      have hlength : (blanks ++ more.map digitByte).length = blanks.length + more.length := by
        rw [length_append, length_map]
      have hsome : more ≠ [] := by
        rintro rfl
        rw [map_nil, nil_append] at hbehind
        cases hbyte : behind.head? with
        | none =>
          rw [hbyte] at hdigit
          cases hdigit
        | some byte =>
          rw [hbyte, bind_some, htail byte (hbehind ▸ hbyte)] at hdigit
          cases hdigit
      have hbehind' : value.drop (blanks.length + more.length) = tail := by
        rw [← hlength, hsplit, drop_left]
      have hstops : (∀ byte ∈ tail.head?, byte ≠ LF) →
          Stops value (blanks.length + more.length) := by
        intro hlf
        rw [← hlength, hsplit]
        refine stops_append (viable_numeral hall hne hmore) (fun byte hbyte => ?_)
          fun _ => last_digit hmore.1 hsome
        exact not_viable_trailing hall hmore hsome (htail byte hbyte) (hlf byte hbyte)
      dsimp only
      refine Within.bind (Within.require fun hend => ?_) fun _ hinside => ?_
      · refine ⟨_, blanks.length + more.length, rfl, hstops ?_, ?_⟩
        · have hnil : tail = [] := by
            rw [← hbehind', not_not.mp hend, drop_length]
          rw [hnil]
          simp
        · exact .inr (.inr (.inr (by rw [Nat.add_assoc, Nat.add_assoc])))
      · refine Within.bind (Within.require fun hbad => ?_) fun _ hlf => ?_
        · refine ⟨_, blanks.length + more.length, rfl, hstops ?_, .inr (.inr (.inl rfl))⟩
          rintro byte hbyte rfl
          -- A newline that is not the last byte of the line.
          rw [hbehind'] at hbad
          cases tail with
          | nil => cases hbyte
          | cons first tail =>
            obtain rfl := some.inj hbyte
            have htail' : tail ≠ [] := by
              rintro rfl
              exact hbad rfl
            refine hline ?_
            rw [hsplit, dropLast_append_of_ne_nil (by simp),
              dropLast_cons_of_ne_nil htail']
            simp
        · rw [hbehind'] at hlf
          rw [hsplit, hlf]
          exact spells_numeral hall hne hmore hsome

/-! ## The lines of a text -/

/-- The lines that start with a key. -/
def keyed (key : Text) (lines : List Text) : List Text :=
  lines.filter fun line => key.isPrefixOf line

def Terminated (bytes : Text) : Prop := bytes = [] ∨ bytes.getLast? = some LF

/-- One line of the text has the key, and it states the number. -/
def Named (key bytes : Text) (n : ℕ) : Prop :=
  Terminated bytes ∧ ∃ value, keyed key (splitInclusive LF bytes) = [key ++ value] ∧ Spells value n

/-- No key starts two lines, and each line with a key states a number. -/
def SoundLines (keys lines : List Text) : Prop :=
  ∀ key ∈ keys, (keyed key lines).length ≤ 1 ∧
    ∀ value, key ++ value ∈ lines → ∃ n, Spells value n

def Sound (keys : List Text) (bytes : Text) : Prop :=
  Terminated bytes ∧ SoundLines keys (splitInclusive LF bytes)

/-- A text that a sound one starts with. -/
def Begins (keys : List Text) (bytes : Text) : Prop := ∃ rest, Sound keys (bytes ++ rest)

/-- The first byte that no sound text has behind what stands before it, or the end of the text. -/
def FirstOffending (keys : List Text) (bytes : Text) (offset : ℕ) : Prop :=
  offset ≤ bytes.length ∧ Begins keys (bytes.take offset) ∧ ¬ Sound keys bytes ∧
    ∀ byte, bytes[offset]? = some byte → ¬ Begins keys (bytes.take offset ++ [byte])

/-- Keys of which none starts with another. -/
structure Apart (keys : List Text) : Prop where
  noLF : ∀ key ∈ keys, LF ∉ key
  apart : ∀ key ∈ keys, ∀ other ∈ keys, ∀ value, other.isPrefixOf (key ++ value) = true →
    other = key

variable {bytes key : Text} {keys lines earlier later : List Text} {cursor : ℕ}

theorem stripPrefix_eq {line : Text} : stripPrefix key line = some value ↔ line = key ++ value := by
  unfold stripPrefix
  split
  · rename_i hprefix
    obtain ⟨rest, rfl⟩ := isPrefixOf_iff_prefix.mp hprefix
    rw [drop_left, some_inj, append_cancel_left_eq, eq_comm]
  · rename_i hprefix
    refine ⟨(fun h => by cases h), ?_⟩
    rintro rfl
    exact absurd ( isPrefixOf_iff_prefix.mpr (prefix_append key value)) hprefix

theorem keyed_append (key : Text) (lines more : List Text) :
    keyed key (lines ++ more) = keyed key lines ++ keyed key more := filter_append ..

theorem keyed_own (key value : Text) : keyed key [key ++ value] = [key ++ value] := by
  rw [keyed, filter_cons_of_pos
    ( isPrefixOf_iff_prefix.mpr (prefix_append key value)), filter_nil]

theorem mem_keyed {line : Text} : line ∈ keyed key lines ↔
    line ∈ lines ∧ ∃ value, line = key ++ value := by
  rw [keyed, mem_filter, isPrefixOf_iff_prefix]
  refine and_congr_right fun _ => ⟨?_, ?_⟩
  · rintro ⟨value, rfl⟩
    exact ⟨value, rfl⟩
  · rintro ⟨value, rfl⟩
    exact prefix_append key value

theorem Apart.keyed_other (h : Apart keys) (hkey : key ∈ keys) {other : Text}
    (hother : other ∈ keys) (hne : other ≠ key) (value : Text) :
    keyed other [key ++ value] = [] := by
  rw [keyed, filter_cons_of_neg, filter_nil]
  exact fun hprefix => hne (h.apart key hkey other hother value hprefix)

theorem SoundLines.concat (hkeys : Apart keys) (h : SoundLines keys lines) (hkey : key ∈ keys)
    (hfresh : keyed key lines = []) (hvalue : Spells value n) :
    SoundLines keys (lines ++ [key ++ value]) := by
  intro other hother
  obtain ⟨hcount, hspells⟩ := h other hother
  by_cases heq : other = key
  · subst heq
    refine ⟨by rw [keyed_append, hfresh, keyed_own]; exact Nat.le_refl 1, fun v hv => ?_⟩
    rcases mem_append.mp hv with hv | hv
    · exact hspells v hv
    · have : other ++ v = other ++ value := mem_singleton.mp hv
      exact ⟨n, append_cancel_left this ▸ hvalue⟩
  · have hnone := hkeys.keyed_other hkey hother heq value
    refine ⟨by rwa [keyed_append, hnone, append_nil], fun v hv => ?_⟩
    rcases mem_append.mp hv with hv | hv
    · exact hspells v hv
    · have hmem : other ++ v ∈ keyed other [key ++ value] := mem_keyed.mpr ⟨hv, v, rfl⟩
      rw [hnone] at hmem
      cases hmem

theorem Spells.ended (h : Spells value n) (hkey : LF ∉ key) : Ended LF (key ++ value) := by
  obtain ⟨blanks, -, hblanks, -, rfl⟩ := h
  refine ⟨key ++ (blanks ++ decimal n), ?_, by simp⟩
  intro hmem
  rcases mem_append.mp hmem with hmem | hmem
  · exact hkey hmem
  · rcases mem_append.mp hmem with hmem | hmem
    · have hblank := hblanks LF hmem
      revert hblank
      decide
    · obtain ⟨d, hd, hbyte⟩ := mem_map.mp hmem
      have hlt := decimalDigits_lt n d hd
      revert hbyte
      interval_cases d <;> decide

theorem ended_value (h : Ended LF (key ++ value)) (hkey : LF ∉ key) :
    value.getLast? = some LF := by
  obtain ⟨body, -, hbody⟩ := h
  have hlast := congrArg List.getLast? hbody
  rw [getLast?_concat, getLast?_append] at hlast
  cases hvalue : value.getLast? with
  | none =>
    rw [hvalue, none_or] at hlast
    exact absurd (mem_of_getLast? hlast) hkey
  | some byte =>
    rw [hvalue, some_or] at hlast
    exact hlast

theorem firstOffending_of_stops (hkeys : Apart keys) (hkey : key ∈ keys)
    (hlines : splitInclusive LF bytes = earlier ++ (key ++ value) :: later)
    (hearlier : SoundLines keys earlier) (hfresh : keyed key earlier = [])
    (h : Stops value cursor) :
    FirstOffending keys bytes (earlier.flatten.length + key.length + cursor) := by
  obtain ⟨hle, ⟨rest, n, hviable⟩, hbyte, hlast⟩ := h
  obtain ⟨hended, -, hline⟩ := splitInclusive_pieces hlines
  have hnoLF := hkeys.noLF key hkey
  have hbytes : bytes = (earlier.flatten ++ key) ++ (value ++ later.flatten) := by
    rw [← flatten_splitInclusive LF bytes, hlines]
    simp
  have hpre : (earlier.flatten ++ key).length = earlier.flatten.length + key.length :=
    length_append
  have htake : bytes.take (earlier.flatten.length + key.length + cursor) =
      earlier.flatten ++ (key ++ value.take cursor) := by
    rw [hbytes, ← hpre, take_length_add_append, take_append_of_le_length hle,
      append_assoc]
  have hat : bytes[earlier.flatten.length + key.length + cursor]? =
      (value ++ later.flatten)[cursor]? := by
    rw [hbytes, ← hpre, getElem?_append_right (Nat.le_add_right _ _), Nat.add_sub_cancel_left]
  -- At the end of the value the text ends, and it ends without a newline.
  have hopen : cursor = value.length → later = [] ∧ ¬ Terminated bytes := by
    intro hcursor
    have hnot : ¬ Ended LF (key ++ value) := fun h => hlast hcursor (ended_value h hnoLF)
    refine ⟨?_, ?_⟩
    · rcases eq_nil_or_concat' later with rfl | ⟨later, last, rfl⟩
      · rfl
      · have hsplit : splitInclusive LF bytes =
            (earlier ++ (key ++ value) :: later) ++ last :: [] := by
          rw [hlines]
          simp
        exact absurd ((splitInclusive_pieces hsplit).1 _ (by simp)) hnot
    · rintro (hempty | hlf)
      · rw [hempty] at hlines
        simp [splitInclusive] at hlines
      · exact hnot (ended_of_splitInclusive hlf (by rw [hlines]; simp))
  have hbad : ∀ byte, value[cursor]? = some byte →
      ¬ Begins keys (earlier.flatten ++ (key ++ value.take cursor) ++ [byte]) := by
    rintro byte hbyteAt ⟨rest, -, hsound⟩
    have hlt : cursor < value.length := (List.getElem?_eq_some_iff.mp hbyteAt).1
    have hdrop : (key ++ value.take cursor ++ [byte]).dropLast = key ++ value.take cursor :=
      dropLast_concat
    have hfree : LF ∉ (key ++ value.take cursor ++ [byte]).dropLast := by
      rw [hdrop]
      intro hmem
      rcases mem_append.mp hmem with hmem | hmem
      · exact hnoLF hmem
      · refine hline ?_
        have hne : value ≠ [] := ne_nil_of_length_pos (by omega)
        rw [dropLast_append_of_ne_nil hne]
        refine mem_append_right _ ?_
        rw [dropLast_eq_take]
        exact take_subset_take_left _ (by omega) hmem
    obtain ⟨more, lines, hsplit⟩ := splitInclusive_begins (by simp) hfree rest
    have hwhole : earlier.flatten ++ (key ++ value.take cursor) ++ [byte] ++ rest =
        earlier.flatten ++ (key ++ value.take cursor ++ [byte] ++ rest) := by simp
    rw [hwhole, splitInclusive_append hended, hsplit] at hsound
    have hmem : key ++ (value.take cursor ++ [byte] ++ more) ∈
        earlier ++ (key ++ value.take cursor ++ [byte] ++ more) :: lines := by simp
    obtain ⟨m, hm⟩ := (hsound key hkey).2 _ hmem
    exact hbyte byte hbyteAt ⟨more, m, hm⟩
  refine ⟨?_, ?_, ?_, ?_⟩
  · rw [hbytes]
    simp only [length_append]
    omega
  · rw [htake]
    refine ⟨rest, ?_, ?_⟩
    · right
      have hcut : earlier.flatten ++ (key ++ value.take cursor) ++ rest =
          (earlier.flatten ++ key) ++ (value.take cursor ++ rest) := by simp
      obtain ⟨blanks, -, -, -, hspelled⟩ := id hviable
      rw [hcut, hspelled, ← append_assoc, getLast?_concat]
    · have hcut : earlier.flatten ++ (key ++ value.take cursor) ++ rest =
          earlier.flatten ++ (key ++ (value.take cursor ++ rest) ++ []) := by simp
      rw [hcut, splitInclusive_append hended,
        splitInclusive_ended_append (hviable.ended hnoLF)]
      exact hearlier.concat hkeys hkey hfresh hviable
  · intro hsound
    rcases Nat.lt_or_eq_of_le hle with hlt | heq
    · refine hbad value[cursor] (getElem?_eq_getElem hlt)
        ⟨value.drop (cursor + 1) ++ later.flatten, ?_⟩
      have hcut : earlier.flatten ++ (key ++ value.take cursor) ++ [value[cursor]] ++
          (value.drop (cursor + 1) ++ later.flatten) = bytes := by
        have hsplit : value.take cursor ++ [value[cursor]] ++ value.drop (cursor + 1) = value := by
          rw [take_concat_get' value cursor hlt, take_append_drop]
        calc _ = (earlier.flatten ++ key) ++
              ((value.take cursor ++ [value[cursor]] ++ value.drop (cursor + 1)) ++
                later.flatten) := by simp only [append_assoc]
          _ = bytes := by rw [hsplit, hbytes]
      rwa [hcut]
    · exact (hopen heq).2 hsound.1
  · intro byte hbyteAt
    rw [hat] at hbyteAt
    rw [htake]
    rcases Nat.lt_or_eq_of_le hle with hlt | heq
    · rw [getElem?_append_left hlt] at hbyteAt
      exact hbad byte hbyteAt
    · rw [(hopen heq).1, flatten_nil, append_nil, heq,
        getElem?_eq_none (Nat.le_refl _)] at hbyteAt
      cases hbyteAt

/-! ## One field of a text -/

theorem select_lines (key : Text) (lines : List Text) :
    (lines.foldl (select key) ⟨0, none, 0⟩).count = (keyed key lines).length ∧
      (lines.foldl (select key) ⟨0, none, 0⟩).offset = lines.flatten.length ∧
      (∀ selected ∈ (lines.foldl (select key) ⟨0, none, 0⟩).value, ∃ earlier later,
        lines = earlier ++ (key ++ selected.1) :: later ∧
          selected.2 = earlier.flatten.length + key.length) ∧
      ((lines.foldl (select key) ⟨0, none, 0⟩).value = none → keyed key lines = []) := by
  induction lines using reverseRecOn with
  | nil => exact ⟨rfl, rfl, by simp, fun _ => rfl⟩
  | append_singleton lines line ih =>
    obtain ⟨hcount, hoffset, hvalue, hmissing⟩ := ih
    rw [foldl_append, foldl_cons, foldl_nil, keyed_append]
    generalize lines.foldl (select key) ⟨0, none, 0⟩ = held at hcount hoffset hvalue hmissing ⊢
    unfold select
    rw [flatten_append, flatten_singleton, length_append, length_append]
    split
    · rename_i value hprefix
      obtain rfl := stripPrefix_eq.mp hprefix
      refine ⟨?_, ?_, ?_, fun h => by cases h⟩
      · rw [keyed_own]
        exact congrArg (· + 1) hcount
      · exact congrArg (· + (key ++ value).length) hoffset
      · intro selected hselected
        obtain rfl := some.inj hselected
        exact ⟨lines, [], rfl, congrArg (· + key.length) hoffset⟩
    · rename_i hprefix
      have hnone : keyed key [line] = [] := by
        refine eq_nil_iff_forall_not_mem.mpr fun l hl => ?_
        obtain ⟨hmem, value, rfl⟩ := mem_keyed.mp hl
        rw [← mem_singleton.mp hmem, stripPrefix_eq.mpr rfl] at hprefix
        cases hprefix
      refine ⟨?_, ?_, ?_, ?_⟩
      · rw [hnone]
        exact hcount
      · exact congrArg (· + line.length) hoffset
      · intro selected hselected
        obtain ⟨earlier, later, hlines, hat⟩ := hvalue selected hselected
        exact ⟨earlier, later ++ [line], by rw [hlines]; simp, hat⟩
      · intro hvalueless
        rw [hnone, append_nil]
        exact hmissing hvalueless

theorem apart_single (hnoLF : LF ∉ key) : Apart [key] where
  noLF := by simpa using hnoLF
  apart := by simp

theorem identityKey_apart (field : UInt8) : Apart [identityKey field] := by
  unfold identityKey
  split
  · exact apart_single (by decide)
  · exact apart_single (by decide)

/-- What `parent_identity` says of a text that it refuses. -/
inductive IdentityRefused (field : UInt8) (bytes : Text) : OwnedFaultCause → Prop
  | limit (hlong : STATUS_MAX_BYTES < bytes.length) : IdentityRefused field bytes
      (.limit field (UInt64.ofNat STATUS_MAX_BYTES) (UInt64.ofNat (STATUS_MAX_BYTES + 1)))
  | open (hopen : ¬ Terminated bytes) : IdentityRefused field bytes
      (.earlyEof field (UInt64.ofNat (bytes.length + 1)) (UInt64.ofNat bytes.length))
  | twice {count : ℕ} (htwo : 2 ≤ count)
      (hcount : count = (keyed (identityKey field) (splitInclusive LF bytes)).length) :
      IdentityRefused field bytes (.duplicate field (UInt64.ofNat count))
  | absent (hnone : keyed (identityKey field) (splitInclusive LF bytes) = []) :
      IdentityRefused field bytes (.missing field)
  | at {offset : ℕ} {cause : OwnedFaultCause} (hpoints : cause.PointsAt field offset)
      (hoffset : FirstOffending [identityKey field] bytes offset) :
      IdentityRefused field bytes cause

theorem Named.sound (h : Named key bytes n) : Sound [key] bytes := by
  obtain ⟨hend, value, hkeyed, hvalue⟩ := h
  refine ⟨hend, fun other hother => ?_⟩
  obtain rfl := mem_singleton.mp hother
  refine ⟨by rw [hkeyed]; exact Nat.le_refl 1, fun v hv => ⟨n, ?_⟩⟩
  have hmem : other ++ v ∈ keyed other (splitInclusive LF bytes) := mem_keyed.mpr ⟨hv, v, rfl⟩
  rw [hkeyed, mem_singleton] at hmem
  exact append_cancel_left hmem ▸ hvalue

theorem Named.unique (h : Named key bytes n) (h' : Named key bytes m) : n = m := by
  obtain ⟨-, value, hkeyed, hvalue⟩ := h
  obtain ⟨-, value', hkeyed', hvalue'⟩ := h'
  rw [hkeyed] at hkeyed'
  rw [append_cancel_left (List.cons.inj hkeyed').1] at hvalue
  exact hvalue.unique hvalue'

theorem IdentityRefused.not_named {cause : OwnedFaultCause} (h : IdentityRefused field bytes cause)
    (hsize : bytes.length ≤ STATUS_MAX_BYTES) : ¬ Named (identityKey field) bytes n := by
  intro hnamed
  obtain ⟨hend, value, hkeyed, -⟩ := id hnamed
  cases h with
  | limit hlong => omega
  | «open» hopen => exact hopen hend
  | twice htwo hcount =>
    rw [hkeyed] at hcount
    simp only [length_singleton] at hcount
    omega
  | absent hnone =>
    rw [hkeyed] at hnone
    cases hnone
  | «at» _ hoffset => exact hoffset.2.2.1 hnamed.sound

theorem parentIdentity_within (bytes : Text) (field : UInt8) :
    Within (fun e => ∃ cause, e = .refused cause ∧ IdentityRefused field bytes cause)
      (fun n => Named (identityKey field) bytes n) (parentIdentity bytes field) := by
  obtain ⟨hcount, -, hvalue, hmissing⟩ := select_lines (identityKey field) (splitInclusive LF bytes)
  refine Within.bind (Within.require fun hlong => ⟨_, rfl, .limit (by omega)⟩) fun _ hsize => ?_
  refine Within.bind (Within.require fun hopen => ⟨_, rfl, .open hopen⟩) fun _ hend => ?_
  refine Within.bind (Within.require fun htwo => ⟨_, rfl, .twice (by omega) hcount⟩)
    fun _ hone => ?_
  rw [hcount] at hone
  refine Within.bind (Within.found fun hnone => ⟨_, rfl, .absent ?_⟩) fun selected hselected => ?_
  · exact hmissing hnone
  · obtain ⟨earlier, later, hlines, hoffset⟩ := hvalue selected hselected
    -- The selected line is the only one with the key.
    have hkeyed := congrArg (keyed (identityKey field)) hlines
    rw [append_cons, keyed_append, keyed_append, keyed_own] at hkeyed
    have hlength := congrArg List.length hkeyed
    simp only [length_append, length_singleton] at hlength
    have hearlier : keyed (identityKey field) earlier = [] :=
      length_eq_zero_iff.mp (by omega)
    have hlater : keyed (identityKey field) later = [] := length_eq_zero_iff.mp (by omega)
    obtain ⟨-, -, hnewline⟩ := splitInclusive_pieces hlines
    have hfree : LF ∉ selected.1.dropLast := by
      intro hmem
      have hne : selected.1 ≠ [] := by
        intro h
        rw [h] at hmem
        cases hmem
      rw [dropLast_append_of_ne_nil hne] at hnewline
      exact hnewline (mem_append_right _ hmem)
    refine (parentDecimal_within hfree).mono ?_ ?_
    · rintro e ⟨cause, cursor, rfl, hstops, hpoints⟩
      refine ⟨cause, rfl, .at hpoints ?_⟩
      rw [hoffset]
      refine firstOffending_of_stops (identityKey_apart field) (mem_singleton_self _) hlines
        ?_ hearlier hstops
      intro key hkey
      obtain rfl := mem_singleton.mp hkey
      refine ⟨by rw [hearlier]; exact Nat.zero_le 1, fun v hv => ?_⟩
      have hmem : identityKey field ++ v ∈ keyed (identityKey field) earlier :=
        mem_keyed.mpr ⟨hv, v, rfl⟩
      rw [hearlier] at hmem
      cases hmem
    · intro n hn
      refine ⟨hend, selected.1, ?_, hn⟩
      rw [hkeyed, hearlier, hlater]
      rfl

/-- A short text is read as `n` exactly when it names `n`. -/
theorem parentIdentity_eq_ok (hsize : bytes.length ≤ STATUS_MAX_BYTES) :
    parentIdentity bytes field = .ok n ↔ Named (identityKey field) bytes n := by
  have hwithin := parentIdentity_within bytes field
  refine ⟨fun h => hwithin.of_ok h, fun hnamed => ?_⟩
  cases hread : parentIdentity bytes field with
  | ok m => rw [(hwithin.of_ok hread).unique hnamed]
  | error e =>
    obtain ⟨cause, -, hrefused⟩ := hwithin.of_error hread
    exact absurd hnamed (hrefused.not_named hsize)

end Rivect.Sandbox
