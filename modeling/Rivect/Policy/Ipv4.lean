import Rivect.Lib.Fallible
import Rivect.Lib.Places
import Rivect.Policy.Encoding

/-! # IPv4 addresses as hosts

The host texts that the WHATWG IPv4 parser reads as addresses, and `ipv4_number` of
`src/policy.rs` beside it.
-/

namespace Rivect.EffectPolicy

open Lib List Option

/-! ## The reference -/

namespace Whatwg

def HEX_DIGITS : Text := ascii "0123456789abcdef"

/-- The value of a digit in either letter case; a byte that is no digit has a value past all of
them. -/
def digit (b : UInt8) : ℕ := HEX_DIGITS.idxOf (lowerByte b)

/-- The radix that the prefix of a number says, and what follows the prefix. -/
def radixAndDigits (input : Text) : ℕ × Text :=
  if input.take 2 ∈ [ascii "0x", ascii "0X"] then (16, input.drop 2)
  else if 1 < input.length ∧ input.take 1 = ascii "0" then (8, input.drop 1)
  else (10, input)

/-- The number of one part. Nothing behind a prefix is zero. -/
def ipv4NumberParser (input : Text) : Option ℕ :=
  if input = [] then none
  else
    let number := radixAndDigits input
    if number.2.all fun b => digit b < number.1 then
      some (Nat.ofDigits number.1 (number.2.map digit).reverse)
    else none

/-- The address that parts in these numbers name: each of the first is one byte, and the last is all
the bytes left. -/
def address (numbers : List ℕ) : Option ℕ :=
  numbers.getLast?.bind fun last =>
    if numbers.dropLast.any (255 < ·) ∨ 256 ^ (5 - numbers.length) ≤ last then none
    else some (placed 256 4 numbers.dropLast last)

/-- The parts of a host, without an empty one behind a last dot. -/
def hostParts (input : Text) : List Text :=
  let parts := input.splitOn DOT
  if parts.getLast? = some [] ∧ 1 < parts.length then parts.dropLast else parts

def ipv4Parser (input : Text) : Option ℕ :=
  if 4 < (hostParts input).length then none
  else ((hostParts input).mapM ipv4NumberParser).bind address

end Whatwg

open Whatwg

/-- A number but for a plus sign before its digits. -/
def SignedNumber (part : Text) : Prop :=
  let number := radixAndDigits part
  number.2.head? = some PLUS ∧ number.2.tail ≠ [] ∧ ∀ b ∈ number.2.tail, digit b < number.1

/-- A host all whose parts are numbers, with a plus sign in some of them. -/
def SignedHost (host : Text) : Prop :=
  (∀ part ∈ host.splitOn DOT, (ipv4NumberParser part).isSome ∨ SignedNumber part) ∧
    ∃ part ∈ host.splitOn DOT, SignedNumber part

/-- The number of four octets. -/
def ipv4Bits (octets : List ℕ) : ℕ := Nat.ofDigits 256 octets.reverse

/-! ## One part -/

theorem digit_checks (b : UInt8) :
    (∀ radix ≤ 16, digitValue radix b = if digit b < radix then some (digit b) else none) ∧
      (digit b < 16 → b ≠ PLUS ∧ b ≠ OPEN) := by
  revert b
  exact forall_byte (by decide +kernel)

theorem digitValue_eq {radix : ℕ} (h : radix ≤ 16) (b : UInt8) :
    digitValue radix b = if digit b < radix then some (digit b) else none :=
  (digit_checks b).1 radix h

theorem radix_le (part : Text) : (radixAndDigits part).1 ≤ 16 := by
  unfold radixAndDigits
  split_ifs <;> norm_num

theorem stripPrefix_eq (start raw : Text) : stripPrefix start raw =
    if raw.take start.length = start then some (raw.drop start.length) else none := by
  by_cases h : start <+: raw
  · obtain ⟨rest, rfl⟩ := h
    rw [stripPrefix_append, take_left, if_pos rfl, drop_left]
  · rw [if_neg fun htake => h (prefix_iff_eq_take.mpr htake.symm), stripPrefix,
      eq_none_iff_forall_ne_some]
    exact fun rest hrest => h ⟨rest, stripPrefix_eq_some.mp hrest⟩

theorem startsWith_iff {start raw : Text} :
    startsWith start raw = true ↔ raw.take start.length = start := by
  rw [startsWith, isPrefixOf_iff_prefix, prefix_iff_eq_take, eq_comm]

theorem ipv4Part_eq {part : Text} (h : part ≠ []) : ipv4Part part =
    if (radixAndDigits part).2 = [] then some 0
    else parseRadix (radixAndDigits part).1 (2 ^ 64) (radixAndDigits part).2 := by
  have hlower : (ascii "0x").length = 2 := by decide
  have hupper : (ascii "0X").length = 2 := by decide
  have hone : (ascii "0").length = 1 := by decide
  unfold ipv4Part radixAndDigits
  simp only [stripPrefix_eq, startsWith_iff, hlower, hupper, hone, if_neg h, mem_cons,
    not_mem_nil, or_false]
  by_cases hx : part.take 2 = ascii "0x"
  · simp only [if_pos hx, if_pos (Or.inl hx)]
    rfl
  · by_cases hX : part.take 2 = ascii "0X"
    · simp only [if_neg hx, if_pos hX, if_pos (Or.inr hX)]
      rfl
    · simp only [if_neg hx, if_neg hX, if_neg (not_or.mpr ⟨hx, hX⟩)]
      by_cases hzero : 1 < part.length ∧ part.take 1 = ascii "0"
      · simp only [if_pos hzero]
        rfl
      · simp only [if_neg hzero]
        rfl

/-- The digits that the parser of the standard library takes: a sign apart, those of the radix. -/
theorem parseRadix_eq {radix limit : ℕ} {digits : Text} (hradix : radix ≤ 16) (hne : digits ≠ [])
    (hsigned : ¬ (digits.head? = some PLUS ∧ digits.tail ≠ [] ∧
      ∀ b ∈ digits.tail, digit b < radix)) :
    parseRadix radix limit digits =
      (if digits.all fun b => digit b < radix then
        some (Nat.ofDigits radix (digits.map digit).reverse)
      else none).filter (· < limit) := by
  cases digits with
  | nil => exact absurd rfl hne
  | cons b rest =>
    unfold parseRadix
    simp only [digitValue_eq hradix, foldlM_digits]
    by_cases hb : b = PLUS
    · have hplus : ¬ (b :: rest).all fun d => digit d < radix := by
        intro hall
        have hdigit : digit b < radix := by simpa using all_eq_true.mp hall b mem_cons_self
        exact ((digit_checks b).2 (hdigit.trans_le hradix)).1 hb
      -- behind the sign the code reads digits, which an unsigned part does not have there
      have hrest : rest ≠ [] → ¬ rest.all fun d => digit d < radix := by
        intro hne hall
        exact hsigned ⟨congrArg some hb, hne, by simpa using hall⟩
      rw [if_pos hb, if_neg hplus]
      split_ifs with hnil hall
      · rfl
      · exact absurd hall (hrest hnil)
      · rfl
    · rw [if_neg hb, if_neg (cons_ne_nil b rest), Nat.zero_mul, Nat.zero_add]

theorem ipv4Part_of_unsigned {part : Text} (h : ¬ SignedNumber part) :
    ipv4Part part = (ipv4NumberParser part).filter (· < 2 ^ 64) := by
  by_cases hnil : part = []
  · rw [hnil]
    rfl
  · rw [ipv4Part_eq hnil, ipv4NumberParser, if_neg hnil]
    by_cases hdigits : (radixAndDigits part).2 = []
    · rw [if_pos hdigits]
      simp only [hdigits, all_nil, ↓reduceIte]
      rfl
    · rw [if_neg hdigits, parseRadix_eq (radix_le part) hdigits h]

theorem unsigned_of_number {part : Text} (h : (ipv4NumberParser part).isSome) :
    ¬ SignedNumber part := by
  intro hsigned
  unfold ipv4NumberParser at h
  dsimp only at h
  split_ifs at h with hnil hall
  · cases h
  · have hplus : PLUS ∈ (radixAndDigits part).2 := mem_of_mem_head? hsigned.1
    have hdigit : digit PLUS < (radixAndDigits part).1 := by
      simpa using all_eq_true.mp hall PLUS hplus
    exact ((digit_checks PLUS).2 (hdigit.trans_le (radix_le part))).1 rfl
  · cases h

/-! ## The parts of a host -/

theorem split_eq (marker : UInt8) (raw : Text) : split marker raw = raw.splitOn marker := by
  induction raw with
  | nil => rfl
  | cons b raw ih =>
    rw [split, splitOn_cons_eq_if_modifyHead, ih]
    by_cases hb : b = marker
    · simp [hb]
    · rw [if_neg hb, if_neg (by simpa using hb)]
      cases hparts : raw.splitOn marker with
      | nil => exact absurd hparts (splitOn_ne_nil marker raw)
      | cons part parts => rfl

theorem getLast?_splitOn {raw : Text} (hne : raw ≠ []) (h : raw.getLast? ≠ some DOT) :
    (raw.splitOn DOT).getLast? ≠ some [] := by
  induction raw with
  | nil => exact absurd rfl hne
  | cons b raw ih =>
    rw [splitOn_cons_eq_if_modifyHead]
    cases raw with
    | nil =>
      have hb : b ≠ DOT := by simpa using h
      simp [hb]
    | cons c raw =>
      have hrest := ih (cons_ne_nil c raw) (by simpa using h)
      cases hparts : (c :: raw).splitOn DOT with
      | nil => exact absurd hparts (splitOn_ne_nil DOT _)
      | cons part parts =>
        rw [hparts] at hrest
        split_ifs
        · rwa [getLast?_cons_cons]
        · cases parts with
          | nil => simp
          | cons part' parts => simpa using hrest

theorem hostParts_eq {host : Text} (h : host.getLast? ≠ some DOT) :
    hostParts host = host.splitOn DOT := by
  by_cases hne : host = []
  · rw [hne]
    rfl
  · exact if_neg fun hlast => getLast?_splitOn hne h hlast.1

theorem nil_mem_splitOn {host : Text} (h : host.getLast? = some DOT) : [] ∈ host.splitOn DOT := by
  obtain ⟨front, rfl⟩ := getLast?_eq_some_iff.mp h
  rw [splitOn_append_cons_self]
  exact mem_append_right _ mem_cons_self

/-! ## The whole host -/

/-- Numbers that name an address. -/
structure Fits (numbers : List ℕ) (last : ℕ) : Prop where
  length : numbers.length ≤ 4
  ends : numbers.getLast? = some last
  heads : ∀ n ∈ numbers.dropLast, n ≤ 255
  room : last < 256 ^ (5 - numbers.length)

namespace Fits

variable {numbers : List ℕ} {last : ℕ}

theorem heads_length (h : Fits numbers last) :
    numbers.dropLast.length + (5 - numbers.length) = 4 := by
  have hpos : 0 < numbers.length := by
    apply length_pos_of_ne_nil
    rintro rfl
    cases h.ends
  have := h.length
  rw [length_dropLast]
  omega

theorem lt (h : Fits numbers last) : ∀ n ∈ numbers, n < 2 ^ 64 := by
  intro n hn
  obtain ⟨front, rfl⟩ := getLast?_eq_some_iff.mp h.ends
  rcases mem_append.mp hn with hn | hn
  · have := h.heads n (by rwa [dropLast_concat])
    omega
  · obtain rfl := mem_singleton.mp hn
    apply h.room.trans_le
    calc 256 ^ (5 - (front ++ [n]).length) ≤ 256 ^ 4 := by
          apply Nat.pow_le_pow_right (by decide)
          rw [length_append, length_singleton]
          omega
      _ ≤ 2 ^ 64 := by decide

theorem ipv4Bits_eq (h : Fits numbers last) :
    ipv4Bits (numbers.dropLast ++ places 256 (5 - numbers.length) last) =
      placed 256 4 numbers.dropLast last := by
  rw [ipv4Bits, ofDigits_placed h.room, h.heads_length]

end Fits

theorem answers_iff {α : Type*} {parse : Text → Option ℕ} {parts : List Text}
    {answer : List ℕ → ℕ → α} {a : α} :
    (if 4 < parts.length then none
      else (parts.mapM parse).bind fun numbers => numbers.getLast?.bind fun last =>
        if numbers.dropLast.any (255 < ·) ∨ 256 ^ (5 - numbers.length) ≤ last then none
        else some (answer numbers last)) = some a ↔
      ∃ numbers last, parts.mapM parse = some numbers ∧ Fits numbers last ∧
        answer numbers last = a := by
  constructor
  · intro h
    split_ifs at h with hlength
    obtain ⟨numbers, hnumbers, h⟩ := bind_eq_some_iff.mp h
    obtain ⟨last, hlast, h⟩ := bind_eq_some_iff.mp h
    split_ifs at h with hbounds
    rw [not_or] at hbounds
    refine ⟨numbers, last, hnumbers, ⟨?_, hlast, fun n hn => ?_, Nat.not_le.mp hbounds.2⟩,
      some.inj h⟩
    · rw [← (forall₂_of_mapM hnumbers).length_eq]
      exact Nat.not_lt.mp hlength
    · exact Nat.not_lt.mp fun hlt => hbounds.1 (any_eq_true.mpr ⟨n, hn, decide_eq_true hlt⟩)
  · rintro ⟨numbers, last, hnumbers, hfits, rfl⟩
    have hlength := hfits.length
    rw [← (forall₂_of_mapM hnumbers).length_eq] at hlength
    rw [if_neg (Nat.not_lt.mpr hlength), hnumbers, bind_some, hfits.ends, bind_some,
      if_neg]
    rintro (hheads | hroom)
    · obtain ⟨n, hn, hlt⟩ := any_eq_true.mp hheads
      exact absurd (hfits.heads n hn) (Nat.not_le.mpr (of_decide_eq_true hlt))
    · exact absurd hfits.room (Nat.not_lt.mpr hroom)

theorem ipv4Parser_eq_some {host : Text} {n : ℕ} :
    ipv4Parser host = some n ↔ ∃ numbers last,
      (hostParts host).mapM ipv4NumberParser = some numbers ∧ Fits numbers last ∧
        placed 256 4 numbers.dropLast last = n :=
  answers_iff

theorem ipv4Number_eq_some {host : Text} {octets : List ℕ} :
    ipv4Number host = some octets ↔ ∃ numbers last,
      (host.splitOn DOT).mapM ipv4Part = some numbers ∧ Fits numbers last ∧
        numbers.dropLast ++ places 256 (5 - numbers.length) last = octets := by
  have hbyte : ∀ i, 2 ^ (8 * i) = 256 ^ i := by
    intro i
    rw [pow_mul]
    norm_num
  rw [← answers_iff]
  simp only [ipv4Number, split_eq, hbyte, Bool.or_eq_true, decide_eq_true_eq, bind_eq_bind,
    places]

theorem ipv4Number_octets {host : Text} {octets : List ℕ} (h : ipv4Number host = some octets) :
    octets.length = 4 ∧ ∀ octet ∈ octets, octet < 256 := by
  obtain ⟨numbers, last, -, hfits, rfl⟩ := ipv4Number_eq_some.mp h
  constructor
  · rw [length_append, length_places, hfits.heads_length]
  · intro octet hoctet
    rcases mem_append.mp hoctet with hoctet | hoctet
    · exact Nat.lt_succ_of_le (hfits.heads octet hoctet)
    · exact place_lt (by decide) octet hoctet

theorem ipv4Number_of_accepted {host : Text} {n : ℕ} (h : ipv4Parser host = some n)
    (hdot : host.getLast? ≠ some DOT) : (ipv4Number host).map ipv4Bits = some n := by
  obtain ⟨numbers, last, hnumbers, hfits, rfl⟩ := ipv4Parser_eq_some.mp h
  rw [hostParts_eq hdot] at hnumbers
  have hparts : (host.splitOn DOT).mapM ipv4Part = some numbers := by
    apply mapM_congr_some hnumbers
    intro part _ n hn hnumber
    have hunsigned := unsigned_of_number (isSome_of_mem hnumber)
    rw [ipv4Part_of_unsigned hunsigned, hnumber, filter_some, if_pos]
    exact decide_eq_true (hfits.lt n hn)
  rw [ipv4Number_eq_some.mpr ⟨numbers, last, hparts, hfits, rfl⟩, map_some,
    hfits.ipv4Bits_eq]

theorem accepted_of_ipv4Number {host : Text} {octets : List ℕ} (h : ipv4Number host = some octets)
    (hsigned : ¬ SignedHost host) :
    host.getLast? ≠ some DOT ∧ ipv4Parser host = some (ipv4Bits octets) := by
  obtain ⟨numbers, last, hparts, hfits, rfl⟩ := ipv4Number_eq_some.mp h
  have hdot : host.getLast? ≠ some DOT := by
    intro hdot
    exact absurd (isSome_of_mapM hparts (nil_mem_splitOn hdot)) (by decide)
  have hnumber : ∀ part n, ¬ SignedNumber part → ipv4Part part = some n →
      ipv4NumberParser part = some n := by
    intro part n hunsigned hpart
    rw [ipv4Part_of_unsigned hunsigned] at hpart
    exact (filter_eq_some_iff.mp hpart).1
  have hunsigned : ∀ part ∈ host.splitOn DOT, ¬ SignedNumber part := by
    intro part hpart hsign
    refine hsigned ⟨fun part hpart => ?_, part, hpart, hsign⟩
    obtain ⟨n, hn⟩ := isSome_iff_exists.mp (isSome_of_mapM hparts hpart)
    by_cases hsign : SignedNumber part
    · exact .inr hsign
    · exact .inl (isSome_of_mem (hnumber part n hsign hn))
  refine ⟨hdot, ipv4Parser_eq_some.mpr ⟨numbers, last, ?_, hfits, hfits.ipv4Bits_eq.symm⟩⟩
  rw [hostParts_eq hdot]
  exact mapM_congr_some hparts fun part hpart n _ hn => hnumber part n (hunsigned part hpart) hn

end Rivect.EffectPolicy
