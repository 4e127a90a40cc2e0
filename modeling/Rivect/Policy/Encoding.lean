import Rivect.Policy.Egress

/-! # Percent encodings of one spelling

What the text functions of the policy do on spellings put together from parts, and the spellings
that decode alike.
-/

namespace Rivect.EffectPolicy

open List

variable {α : Type*}

theorem forall_byte {P : UInt8 → Prop} (h : ∀ n < 256, P (UInt8.ofNat n)) (b : UInt8) : P b := by
  rw [← UInt8.ofNat_toNat (x := b)]
  exact h _ b.toNat_lt

theorem forall_mem {P : α → Prop} [DecidablePred P] {raw : List α}
    (h : raw.all (fun b => decide (P b)) = true) : ∀ b ∈ raw, P b := by
  simpa using h

/-! ## Parts of a spelling -/

/-- What follows the part before the first of some markers. -/
def Opens (markers : List UInt8) (rest : Text) : Prop := ∀ b ∈ rest.head?, b ∈ markers

theorem untilFirst_append {markers : List UInt8} {front rest : Text}
    (hfront : ∀ b ∈ front, b ∉ markers) (hrest : Opens markers rest) :
    untilFirst (front ++ rest) markers = front := by
  rw [untilFirst, takeWhile_append_of_pos (by simpa using hfront)]
  cases rest with
  | nil => simp
  | cons b rest => simp [hrest b rfl]

theorem dropWhile_run {p : UInt8 → Bool} {run rest : Text} (hrun : run.all p)
    (hrest : ∀ b ∈ rest.head?, p b = false) : (run ++ rest).dropWhile p = rest := by
  rw [dropWhile_append_of_pos (by simpa using hrun)]
  cases rest with
  | nil => rfl
  | cons b rest => simp [hrest b rfl]

theorem splitOnce_append {marker : UInt8} {front : Text} (h : marker ∉ front) (rest : Text) :
    splitOnce marker (front ++ marker :: rest) = some (front, rest) := by
  induction front with
  | nil => simp [splitOnce]
  | cons b front ih =>
    rw [mem_cons, not_or] at h
    rw [cons_append, splitOnce, if_neg (Ne.symm h.1), ih h.2]
    rfl

theorem splitOnce_none {marker : UInt8} {raw : Text} (h : marker ∉ raw) :
    splitOnce marker raw = none := by
  induction raw with
  | nil => rfl
  | cons b raw ih =>
    rw [mem_cons, not_or] at h
    rw [splitOnce, if_neg (Ne.symm h.1), ih h.2]
    rfl

theorem append_of_splitOnce {marker : UInt8} {raw front rest : Text}
    (h : splitOnce marker raw = some (front, rest)) : raw = front ++ marker :: rest := by
  induction raw generalizing front rest with
  | nil => cases h
  | cons b raw ih =>
    rw [splitOnce] at h
    split_ifs at h with hb
    · obtain ⟨rfl, rfl⟩ := Prod.mk.inj (Option.some.inj h)
      rw [hb, nil_append]
    · obtain ⟨⟨front', rest'⟩, hsplit, hparts⟩ := Option.map_eq_some_iff.mp h
      obtain ⟨rfl, rfl⟩ := Prod.mk.inj hparts
      rw [ih hsplit, cons_append]

theorem append_of_rsplitOnce {marker : UInt8} {raw front back : Text}
    (h : rsplitOnce marker raw = some (front, back)) : raw = front ++ marker :: back := by
  obtain ⟨⟨back', front'⟩, hsplit, hparts⟩ := Option.map_eq_some_iff.mp h
  obtain ⟨rfl, rfl⟩ := Prod.mk.inj hparts
  rw [← reverse_reverse raw, append_of_splitOnce hsplit]
  simp

theorem rsplitOnce_append {marker : UInt8} {back : Text} (h : marker ∉ back) (front : Text) :
    rsplitOnce marker (front ++ marker :: back) = some (front, back) := by
  have hreverse : (front ++ marker :: back).reverse =
      back.reverse ++ marker :: front.reverse := by simp
  rw [rsplitOnce, hreverse, splitOnce_append (by simpa using h)]
  simp

theorem rsplitOnce_none {marker : UInt8} {raw : Text} (h : marker ∉ raw) :
    rsplitOnce marker raw = none := by
  rw [rsplitOnce, splitOnce_none (by simpa using h)]
  rfl

theorem stripPrefix_append (start rest : Text) : stripPrefix start (start ++ rest) = some rest := by
  unfold stripPrefix
  induction start with
  | nil => rfl
  | cons b start ih =>
    rw [cons_append, isPrefixOf?, if_pos (beq_self_eq_true b)]
    exact ih

theorem stripPrefix_eq_some {start raw rest : Text} :
    stripPrefix start raw = some rest ↔ start ++ rest = raw :=
  isPrefixOf?_eq_some_iff_append_eq

theorem stripPrefix_cons_ne {a b : UInt8} (h : a ≠ b) (start rest : Text) :
    stripPrefix (a :: start) (b :: rest) = none := by
  simp [stripPrefix, isPrefixOf?, h]

/-! ## Letter case -/

/-- One pass over all bytes: letter case, hexadecimal digits and ASCII. -/
theorem byte_checks (b : UInt8) :
    lowerByte (lowerByte b) = lowerByte b ∧ (isUpper b → isAlphabetic (lowerByte b)) ∧
      (0x80 ≤ b → lowerByte b = b) ∧ hexValue (lowerByte b) = hexValue b ∧
      ((hexValue b).isSome → isAlphanumeric b) ∧
      (b < 0x80 → [b] = [Char.ofNat b.toNat].flatMap String.utf8EncodeChar) := by
  revert b
  exact forall_byte (by decide +kernel)

theorem lowerByte_idem (b : UInt8) : lowerByte (lowerByte b) = lowerByte b := (byte_checks b).1

theorem lower_lower (raw : Text) : lower (lower raw) = lower raw := by
  simp only [lower, map_map]
  exact map_congr_left fun b _ => lowerByte_idem b

theorem lower_append (a b : Text) : lower (a ++ b) = lower a ++ lower b := map_append

theorem eq_of_lowerByte {a b : UInt8} (h : lowerByte a = lowerByte b)
    (hb : isAlphabetic b = false) : a = b := by
  have hall : ∀ b, isAlphabetic b = false → ∀ a, lowerByte a = lowerByte b → a = b := by
    apply forall_byte
    intro n hn hb
    have hlower : lowerByte (UInt8.ofNat n) = UInt8.ofNat n := by
      rw [lowerByte, if_neg]
      intro hupper
      simp [isAlphabetic, hupper] at hb
    rw [hlower]
    intro a ha
    by_cases hupper : isUpper a
    · have hletter : isAlphabetic (lowerByte a) := (byte_checks a).2.1 hupper
      rw [ha, hb] at hletter
      cases hletter
    · rwa [lowerByte, if_neg hupper] at ha
  exact hall b hb a h

/-- What no letter has and the bytes of `raw` do not have, the other cases of `raw` do not
have. -/
theorem not_mem_of_lower {b : UInt8} {raw raw' : Text} (h : lower raw' = lower raw)
    (hb : isAlphabetic b = false) (hraw : b ∉ raw) : b ∉ raw' := by
  intro hmem
  have hlower : lowerByte b ∈ lower raw := h ▸ mem_map_of_mem hmem
  obtain ⟨a, ha, heq⟩ := mem_map.mp hlower
  exact hraw (eq_of_lowerByte heq hb ▸ ha)

/-! ## UTF-8 -/

theorem isUtf8_iff {bytes : Text} :
    isUtf8 bytes = true ↔ ∃ chars : List Char, bytes = chars.flatMap String.utf8EncodeChar := by
  rw [isUtf8, ByteArray.validateUTF8_eq_true_iff]
  constructor
  · rintro ⟨chars, hchars⟩
    refine ⟨chars, ?_⟩
    have := congrArg (fun array : ByteArray => array.data.toList) hchars
    simpa [utf8Encode] using this
  · rintro ⟨chars, rfl⟩
    refine ⟨chars, ?_⟩
    apply ByteArray.ext
    simp [utf8Encode]

theorem isUtf8_append {a b : Text} (ha : isUtf8 a = true) (hb : isUtf8 b = true) :
    isUtf8 (a ++ b) = true := by
  rw [isUtf8_iff] at ha hb ⊢
  obtain ⟨as, rfl⟩ := ha
  obtain ⟨bs, rfl⟩ := hb
  exact ⟨as ++ bs, by rw [flatMap_append]⟩

theorem isUtf8_ascii {raw : Text} (h : ∀ b ∈ raw, b < 0x80) : isUtf8 raw = true := by
  induction raw with
  | nil =>
    rw [isUtf8_iff]
    exact ⟨[], rfl⟩
  | cons b raw ih =>
    have hb : isUtf8 [b] = true := by
      rw [isUtf8_iff]
      refine ⟨[Char.ofNat b.toNat], ?_⟩
      exact (byte_checks b).2.2.2.2.2 (h b mem_cons_self)
    exact isUtf8_append hb (ih fun c hc => h c (mem_cons_of_mem b hc))

theorem lowerByte_high {b : UInt8} (h : 0x80 ≤ b) : lowerByte b = b := (byte_checks b).2.2.1 h

theorem lower_encodeChar (c : Char) :
    ∃ d : Char, lower (String.utf8EncodeChar c) = String.utf8EncodeChar d := by
  by_cases hc : c.toNat < 128
  · have hsmall : ∀ n < 128, lower (String.utf8EncodeChar (Char.ofNat n)) =
        String.utf8EncodeChar (Char.ofNat n).toLower := by decide +kernel
    have := hsmall c.toNat hc
    rw [Char.ofNat_toNat] at this
    exact ⟨_, this⟩
  · refine ⟨c, ?_⟩
    have hhigh : ∀ b ∈ String.utf8EncodeChar c, 0x80 ≤ b := by
      have hvalue : ¬ c.val.toNat ≤ 0x7f := by
        change ¬ c.val.toNat < 128 at hc
        omega
      intro b hb
      rw [UInt8.le_iff_toNat_le]
      unfold String.utf8EncodeChar at hb
      simp only [if_neg hvalue] at hb
      have hbyte : ∀ n, 128 ≤ n → n < 256 → (0x80 : UInt8).toNat ≤ (UInt8.ofNat n).toNat := by
        intro n hn hsmall
        rw [UInt8.toNat_ofNat_of_lt' hsmall]
        exact hn
      split_ifs at hb
      · simp only [mem_cons, not_mem_nil, or_false] at hb
        rcases hb with rfl | rfl <;> exact hbyte _ (by omega) (by omega)
      · simp only [mem_cons, not_mem_nil, or_false] at hb
        rcases hb with rfl | rfl | rfl <;> exact hbyte _ (by omega) (by omega)
      · simp only [mem_cons, not_mem_nil, or_false] at hb
        rcases hb with rfl | rfl | rfl | rfl <;> exact hbyte _ (by omega) (by omega)
    rw [lower, map_congr_left fun b hb => lowerByte_high (hhigh b hb), map_id']

theorem isUtf8_lower {raw : Text} (h : isUtf8 raw = true) : isUtf8 (lower raw) = true := by
  rw [isUtf8_iff] at h
  obtain ⟨chars, rfl⟩ := h
  induction chars with
  | nil => exact isUtf8_ascii (by simp [lower])
  | cons c chars ih =>
    obtain ⟨d, hd⟩ := lower_encodeChar c
    have hone : isUtf8 (String.utf8EncodeChar d) = true := by
      rw [isUtf8_iff]
      exact ⟨[d], by simp⟩
    rw [flatMap_cons, lower_append, hd]
    exact isUtf8_append hone ih

/-! ## Encodings -/

def isUnreserved (b : UInt8) : Bool :=
  isAlphanumeric b || b = DASH || b = DOT || b = 0x5f || b = 0x7e

/-- One pass of percent encoding over some of the bytes that `may` allows; what is escaped
already stays. -/
inductive Encodes (may : UInt8 → Bool) : Text → Text → Prop
  | nil : Encodes may [] []
  | literal {b : UInt8} {raw raw' : Text} : b ≠ PERCENT → Encodes may raw raw' →
      Encodes may (b :: raw) (b :: raw')
  | escape {high low : UInt8} {raw raw' : Text} : (escaped high low).isSome →
      Encodes may raw raw' → Encodes may (PERCENT :: high :: low :: raw)
        (PERCENT :: high :: low :: raw')
  | encoded {b high low : UInt8} {raw raw' : Text} : may b → escaped high low = some b →
      Encodes may raw raw' → Encodes may (b :: raw) (PERCENT :: high :: low :: raw')

/-- The bytes of a host that an encoding keeps apart from their case. -/
def isHostEncodable (b : UInt8) : Bool := isUnreserved b && !isUpper b

theorem unreserved_ne_percent {b : UInt8} (h : isUnreserved b = true) : b ≠ PERCENT := by
  rintro rfl
  exact absurd h (by decide)

theorem decodeBytes_cons {b : UInt8} (h : b ≠ PERCENT) (raw : Text) :
    decodeBytes (b :: raw) = (decodeBytes raw).map (b :: ·) := by
  rw [decodeBytes.eq_def]
  simp only [if_neg h]

theorem decodeBytes_escape {high low byte : UInt8} (h : escaped high low = some byte)
    (raw : Text) :
    decodeBytes (PERCENT :: high :: low :: raw) = (decodeBytes raw).map (byte :: ·) := by
  rw [decodeBytes.eq_def]
  simp only [↓reduceIte, h]
  cases decodeBytes raw <;> rfl

theorem decodeBytes_plain {raw : Text} (h : PERCENT ∉ raw) : decodeBytes raw = some raw := by
  induction raw with
  | nil => rfl
  | cons b raw ih =>
    rw [mem_cons, not_or] at h
    rw [decodeBytes_cons (Ne.symm h.1), ih h.2]
    rfl

theorem decodedIdentity_plain {raw : Text} (h : PERCENT ∉ raw) : decodedIdentity raw = raw := by
  simp [decodedIdentity, percentDecode, h]

theorem decodedIdentity_of_decodes {raw decoded : Text} (h : decodeBytes raw = some decoded)
    (hutf8 : isUtf8 decoded = true) : decodedIdentity raw = decoded := by
  by_cases hpercent : PERCENT ∈ raw
  · rw [decodedIdentity, percentDecode, if_pos hpercent, h, Option.filter_some, if_pos hutf8]
    rfl
  · rw [decodeBytes_plain hpercent] at h
    obtain rfl := Option.some.inj h
    exact decodedIdentity_plain hpercent

theorem hexValue_lower (b : UInt8) : hexValue (lowerByte b) = hexValue b :=
  (byte_checks b).2.2.2.1

theorem escaped_lower (high low : UInt8) :
    escaped (lowerByte high) (lowerByte low) = escaped high low := by
  simp only [escaped, hexValue_lower]

theorem hexValue_of_escaped {high low : UInt8} (h : (escaped high low).isSome) :
    (hexValue high).isSome ∧ (hexValue low).isSome := by
  unfold escaped at h
  cases hhigh : hexValue high with
  | none => simp [hhigh] at h
  | some _ =>
    cases hlow : hexValue low with
    | none => simp [hhigh, hlow] at h
    | some _ => exact ⟨rfl, rfl⟩

theorem alphanumeric_of_hexValue {b : UInt8} (h : (hexValue b).isSome) : isAlphanumeric b :=
  (byte_checks b).2.2.2.2.1 h

namespace Encodes

variable {may : UInt8 → Bool} {raw raw' : Text}

theorem decodes (hmay : ∀ b, may b = true → b ≠ PERCENT) (h : Encodes may raw raw') :
    decodeBytes raw' = decodeBytes raw := by
  induction h with
  | nil => rfl
  | literal hb _ ih => rw [decodeBytes_cons hb, decodeBytes_cons hb, ih]
  | escape hescaped _ ih =>
    obtain ⟨byte, hbyte⟩ := Option.isSome_iff_exists.mp hescaped
    rw [decodeBytes_escape hbyte, decodeBytes_escape hbyte, ih]
  | encoded hb hbyte _ ih => rw [decodeBytes_escape hbyte, decodeBytes_cons (hmay _ hb), ih]

theorem bytes (h : Encodes may raw raw') :
    ∀ b ∈ raw', b ∈ raw ∨ b = PERCENT ∨ isAlphanumeric b := by
  induction h with
  | nil => exact fun _ hb => .inl hb
  | literal _ _ ih =>
    intro b hb
    rcases mem_cons.mp hb with rfl | hb
    · exact .inl mem_cons_self
    · exact (ih b hb).imp_left (mem_cons_of_mem _)
  | escape hescaped _ ih =>
    intro b hb
    simp only [mem_cons] at hb ⊢
    rcases hb with hb | hb | hb | hb
    · exact .inr (.inl hb)
    · exact .inl (.inr (.inl hb))
    · exact .inl (.inr (.inr (.inl hb)))
    · exact (ih b hb).imp_left fun hb => .inr (.inr (.inr hb))
  | encoded _ hescaped _ ih =>
    obtain ⟨hhigh, hlow⟩ := hexValue_of_escaped (Option.isSome_iff_exists.mpr ⟨_, hescaped⟩)
    intro b hb
    simp only [mem_cons] at hb ⊢
    rcases hb with hb | rfl | rfl | hb
    · exact .inr (.inl hb)
    · exact .inr (.inr (alphanumeric_of_hexValue hhigh))
    · exact .inr (.inr (alphanumeric_of_hexValue hlow))
    · exact (ih b hb).imp_left .inr

theorem not_mem (h : Encodes may raw raw') {b : UInt8} (hb : b ≠ PERCENT)
    (hplain : isAlphanumeric b = false) (hraw : b ∉ raw) : b ∉ raw' := by
  intro hmem
  rcases h.bytes b hmem with hmem | rfl | halpha
  · exact hraw hmem
  · exact hb rfl
  · rw [hplain] at halpha
    cases halpha

theorem ne_nil (h : Encodes may raw raw') (hraw : raw ≠ []) : raw' ≠ [] := by
  cases h with
  | nil => exact hraw
  | _ => exact cons_ne_nil _ _

theorem lower (h : Encodes isHostEncodable raw raw') :
    Encodes isHostEncodable (lower raw) (lower raw') := by
  have hpercent : lowerByte PERCENT = PERCENT := by decide
  induction h with
  | nil => exact .nil
  | @literal b _ _ hb _ ih =>
    apply literal _ ih
    intro heq
    exact hb (eq_of_lowerByte (heq.trans hpercent.symm) (by decide))
  | @escape high low _ _ hescaped _ ih =>
    have := escape
      (by rwa [escaped_lower]) ih
    simpa only [EffectPolicy.lower, map_cons, hpercent] using this
  | @encoded b high low _ _ hb hescaped _ ih =>
    have hlower : lowerByte b = b := by
      rw [isHostEncodable, Bool.and_eq_true, Bool.not_eq_true'] at hb
      rw [lowerByte, if_neg (by rw [hb.2]; decide)]
    have := encoded
      hb (by rwa [escaped_lower]) ih
    simpa only [EffectPolicy.lower, map_cons, hpercent, hlower] using this

end Encodes

end Rivect.EffectPolicy
