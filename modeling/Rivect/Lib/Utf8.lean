import Mathlib.Data.List.Basic

/-! # UTF-8

What a run of bytes decodes to. `lossy` puts one replacement character for each maximal ill-formed
part; `fromUtf8` stops at the first of them. Bytes that arrive in parts decode as the whole does:
`decided_append` takes them up where the last part left an unfinished character.
-/

namespace Rivect.Utf8

open List

/-- How many bytes follow a lead byte, and the range of the first of them. -/
def utf8Lead (lead : UInt8) : Option (ℕ × UInt8 × UInt8) :=
  if 0xC2 ≤ lead ∧ lead ≤ 0xDF then some (1, 0x80, 0xBF)
  else if lead = 0xE0 then some (2, 0xA0, 0xBF)
  else if lead = 0xED then some (2, 0x80, 0x9F)
  else if 0xE1 ≤ lead ∧ lead ≤ 0xEF then some (2, 0x80, 0xBF)
  else if lead = 0xF0 then some (3, 0x90, 0xBF)
  else if 0xF1 ≤ lead ∧ lead ≤ 0xF3 then some (3, 0x80, 0xBF)
  else if lead = 0xF4 then some (3, 0x80, 0x8F)
  else none

/-- The valid continuation of a lead byte, at most `more` bytes. -/
def utf8Tail : ℕ → UInt8 → UInt8 → List UInt8 → List UInt8
  | more + 1, low, high, byte :: rest =>
    if low ≤ byte ∧ byte ≤ high then byte :: utf8Tail more 0x80 0xBF rest else []
  | _, _, _, _ => []

def utf8Char (lead : UInt8) (tail : List UInt8) : Char :=
  let head := if tail.length = 1 then lead.toNat % 32
    else if tail.length = 2 then lead.toNat % 16 else lead.toNat % 8
  Char.ofNat (tail.foldl (fun code byte => code * 64 + byte.toNat % 64) head)

/-- Each maximal ill-formed part becomes one replacement character. -/
def fromUtf8Lossy : ℕ → List UInt8 → List Char
  | fuel + 1, byte :: rest =>
    if byte < 0x80 then Char.ofNat byte.toNat :: fromUtf8Lossy fuel rest
    else match utf8Lead byte with
      | none => '\uFFFD' :: fromUtf8Lossy fuel rest
      | some (more, low, high) =>
        let tail := utf8Tail more low high rest
        let char := if tail.length = more then utf8Char byte tail else '\uFFFD'
        char :: fromUtf8Lossy fuel (rest.drop tail.length)
  | _, _ => []

def lossy (bytes : List UInt8) : List Char := fromUtf8Lossy bytes.length bytes

/-! ## One character -/

/-- What a lead byte begins, with the number of bytes after it. -/
inductive Scan where
  | char (c : Char) (more : ℕ)
  | invalid (more : ℕ)
  | incomplete
deriving DecidableEq

def scan (lead : UInt8) (rest : List UInt8) : Scan :=
  if lead < 0x80 then .char (Char.ofNat lead.toNat) 0
  else match utf8Lead lead with
    | none => .invalid 0
    | some (more, low, high) =>
      let tail := utf8Tail more low high rest
      if tail.length = more then .char (utf8Char lead tail) more
      else if tail.length = rest.length then .incomplete
      else .invalid tail.length

variable {lead low high : UInt8} {rest bytes : List UInt8} {more : ℕ} {c : Char}

theorem utf8Tail_length_le : (utf8Tail more low high rest).length ≤ more := by
  induction rest generalizing more low high with
  | nil => cases more <;> simp [utf8Tail]
  | cons byte rest ih =>
    cases more with
    | zero => simp [utf8Tail]
    | succ more =>
      rw [utf8Tail]
      split
      · exact Nat.succ_le_succ ih
      · exact Nat.zero_le _

theorem utf8Tail_length_le_rest : (utf8Tail more low high rest).length ≤ rest.length := by
  induction rest generalizing more low high with
  | nil => cases more <;> simp [utf8Tail]
  | cons byte rest ih =>
    cases more with
    | zero => simp [utf8Tail]
    | succ more =>
      rw [utf8Tail]
      split
      · exact Nat.succ_le_succ ih
      · exact Nat.zero_le _

/-- A continuation that ends before the bytes do ends there whatever follows. -/
theorem utf8Tail_append (t : List UInt8)
    (h : (utf8Tail more low high rest).length = more ∨
      (utf8Tail more low high rest).length ≠ rest.length) :
    utf8Tail more low high (rest ++ t) = utf8Tail more low high rest := by
  induction rest generalizing more low high with
  | nil =>
    cases more with
    | zero => simp [utf8Tail]
    | succ more => simp [utf8Tail] at h
  | cons byte rest ih =>
    cases more with
    | zero => simp [utf8Tail]
    | succ more =>
      rw [cons_append, utf8Tail, utf8Tail]
      rw [utf8Tail] at h
      split at h
      · rename_i hbyte
        rw [if_pos hbyte, if_pos hbyte, ih]
        simpa using h
      · rename_i hbyte
        rw [if_neg hbyte, if_neg hbyte]

theorem scan_ascii (h : lead < 0x80) : scan lead rest = .char (Char.ofNat lead.toNat) 0 := by
  rw [scan, if_pos h]

theorem scan_stray (h : ¬ lead < 0x80) (hmore : utf8Lead lead = none) :
    scan lead rest = .invalid 0 := by
  rw [scan, if_neg h, hmore]

theorem scan_lead (h : ¬ lead < 0x80) (hmore : utf8Lead lead = some (more, low, high)) :
    scan lead rest =
      if (utf8Tail more low high rest).length = more then
        .char (utf8Char lead (utf8Tail more low high rest)) more
      else if (utf8Tail more low high rest).length = rest.length then .incomplete
      else .invalid (utf8Tail more low high rest).length := by
  rw [scan, if_neg h, hmore]

theorem scan_append (t : List UInt8) (h : scan lead rest ≠ .incomplete) :
    scan lead (rest ++ t) = scan lead rest := by
  by_cases hlead : lead < 0x80
  · rw [scan_ascii hlead, scan_ascii hlead]
  cases hmore : utf8Lead lead with
  | none => rw [scan_stray hlead hmore, scan_stray hlead hmore]
  | some shape =>
    obtain ⟨more, low, high⟩ := shape
    rw [scan_lead hlead hmore] at h
    rw [scan_lead hlead hmore, scan_lead hlead hmore]
    split at h
    · rename_i hall
      rw [utf8Tail_append t (Or.inl hall), if_pos hall, if_pos hall]
    · rename_i hall
      split at h
      · exact absurd rfl h
      · rename_i hrest
        have hlt := Nat.lt_of_le_of_ne utf8Tail_length_le_rest hrest
        rw [utf8Tail_append t (Or.inr hrest), if_neg hall, if_neg hall, if_neg hrest, if_neg]
        rw [length_append]
        omega

theorem more_le_of_char (h : scan lead rest = .char c more) : more ≤ rest.length := by
  by_cases hlead : lead < 0x80
  · rw [scan_ascii hlead] at h
    obtain ⟨-, rfl⟩ := Scan.char.inj h
    exact Nat.zero_le _
  cases hmore : utf8Lead lead with
  | none =>
    rw [scan_stray hlead hmore] at h
    exact Scan.noConfusion h
  | some shape =>
    obtain ⟨owed, low, high⟩ := shape
    rw [scan_lead hlead hmore] at h
    split at h
    · rename_i hall
      obtain ⟨-, rfl⟩ := Scan.char.inj h
      exact hall ▸ utf8Tail_length_le_rest
    · split at h <;> exact Scan.noConfusion h

theorem more_le_of_invalid (h : scan lead rest = .invalid more) : more ≤ rest.length := by
  by_cases hlead : lead < 0x80
  · rw [scan_ascii hlead] at h
    exact Scan.noConfusion h
  cases hmore : utf8Lead lead with
  | none =>
    rw [scan_stray hlead hmore] at h
    obtain rfl := Scan.invalid.inj h
    exact Nat.zero_le _
  | some shape =>
    obtain ⟨owed, low, high⟩ := shape
    rw [scan_lead hlead hmore] at h
    split at h
    · exact Scan.noConfusion h
    · split at h
      · exact Scan.noConfusion h
      · obtain rfl := Scan.invalid.inj h
        exact utf8Tail_length_le_rest

/-- The bytes of a character are enough to see it. -/
theorem scan_take (k : ℕ) (h : scan lead rest = .char c more) :
    scan lead (rest.take (more + k)) = .char c more := by
  have hle := more_le_of_char h
  have hsplit := take_append_drop (more + k) rest
  by_cases hcut : scan lead (rest.take (more + k)) = .incomplete
  · exfalso
    by_cases hlead : lead < 0x80
    · rw [scan_ascii hlead] at hcut
      exact Scan.noConfusion hcut
    cases hmore : utf8Lead lead with
    | none =>
      rw [scan_stray hlead hmore] at hcut
      exact Scan.noConfusion hcut
    | some shape =>
      obtain ⟨owed, low, high⟩ := shape
      have hshort : (utf8Tail owed low high (rest.take (more + k))).length =
          (rest.take (more + k)).length ∧
          (utf8Tail owed low high (rest.take (more + k))).length ≠ owed := by
        rw [scan_lead hlead hmore] at hcut
        split at hcut
        · exact Scan.noConfusion hcut
        · split at hcut
          · exact ⟨‹_›, ‹_›⟩
          · exact Scan.noConfusion hcut
      have howed : owed = more := by
        rw [scan_lead hlead hmore] at h
        split at h
        · exact (Scan.char.inj h).2
        · split at h <;> exact Scan.noConfusion h
      have hbound := @utf8Tail_length_le low high (rest.take (more + k)) owed
      rw [length_take] at hshort
      omega
  · rw [← scan_append (rest.drop (more + k)) hcut, hsplit, h]

/-- The lossy text from a lead byte on. -/
def replaced (decode : List UInt8 → List Char) (rest : List UInt8) : Scan → List Char
  | .char c more => c :: decode (rest.drop more)
  | .invalid more => '\uFFFD' :: decode (rest.drop more)
  | .incomplete => ['\uFFFD']

theorem fromUtf8Lossy_cons (fuel : ℕ) (lead : UInt8) (rest : List UInt8) :
    fromUtf8Lossy (fuel + 1) (lead :: rest) =
      replaced (fromUtf8Lossy fuel) rest (scan lead rest) := by
  by_cases hlead : lead < 0x80
  · rw [scan_ascii hlead, fromUtf8Lossy, if_pos hlead]
    rfl
  rw [fromUtf8Lossy, if_neg hlead]
  cases hmore : utf8Lead lead with
  | none =>
    rw [scan_stray hlead hmore]
    rfl
  | some shape =>
    obtain ⟨more, low, high⟩ := shape
    rw [scan_lead hlead hmore]
    by_cases hall : (utf8Tail more low high rest).length = more
    · simp only [hall, if_true, replaced]
    · by_cases hrest : (utf8Tail more low high rest).length = rest.length
      · simp only [if_neg hall, if_pos hrest, replaced]
        rw [hrest, drop_length]
        cases fuel <;> rfl
      · simp only [if_neg hall, if_neg hrest, replaced]

/-! ## Bytes that arrive in parts -/

/-- The characters that no later byte changes, and the bytes that wait for one. -/
def decided : List UInt8 → List Char × List UInt8
  | [] => ([], [])
  | lead :: rest =>
    match scan lead rest with
    | .char c more => (c :: (decided (rest.drop more)).1, (decided (rest.drop more)).2)
    | .invalid more => ('\uFFFD' :: (decided (rest.drop more)).1, (decided (rest.drop more)).2)
    | .incomplete => ([], lead :: rest)
termination_by bytes => bytes.length
decreasing_by all_goals simp only [length_drop, length_cons]; omega

@[simp] theorem decided_nil : decided [] = ([], []) := by rw [decided]

theorem decided_char (h : scan lead rest = .char c more) :
    decided (lead :: rest) =
      (c :: (decided (rest.drop more)).1, (decided (rest.drop more)).2) := by
  rw [decided, h]

theorem decided_invalid (h : scan lead rest = .invalid more) :
    decided (lead :: rest) =
      ('\uFFFD' :: (decided (rest.drop more)).1, (decided (rest.drop more)).2) := by
  rw [decided, h]

theorem decided_incomplete (h : scan lead rest = .incomplete) :
    decided (lead :: rest) = ([], lead :: rest) := by
  rw [decided, h]

/-- The parts before a split, then what they left with the rest. -/
theorem decided_append (s t : List UInt8) :
    decided (s ++ t) =
      ((decided s).1 ++ (decided ((decided s).2 ++ t)).1, (decided ((decided s).2 ++ t)).2) := by
  fun_induction decided s with
  | case1 => rfl
  | case2 lead rest c more h ih =>
    have hscan : scan lead (rest ++ t) = .char c more := by rw [scan_append t (by simp [h]), h]
    rw [cons_append, decided_char hscan, drop_append_of_le_length (more_le_of_char h), ih]
    rfl
  | case3 lead rest more h ih =>
    have hscan : scan lead (rest ++ t) = .invalid more := by rw [scan_append t (by simp [h]), h]
    rw [cons_append, decided_invalid hscan,
      drop_append_of_le_length (more_le_of_invalid h), ih]
    rfl
  | case4 lead rest h => rfl

/-- The bytes that wait decide nothing by themselves. -/
theorem decided_held (s : List UInt8) : decided (decided s).2 = ([], (decided s).2) := by
  fun_induction decided s with
  | case1 => exact decided_nil
  | case2 lead rest c more h ih => exact ih
  | case3 lead rest more h ih => exact ih
  | case4 lead rest h => exact decided_incomplete h

theorem fromUtf8Lossy_eq (bytes : List UInt8) :
    ∀ fuel, bytes.length ≤ fuel → fromUtf8Lossy fuel bytes =
      (decided bytes).1 ++ if (decided bytes).2 = [] then [] else ['\uFFFD'] := by
  fun_induction decided bytes with
  | case1 => intro fuel _; cases fuel <;> rfl
  | case2 lead rest c more h ih =>
    intro fuel hfuel
    cases fuel with
    | zero => exact absurd hfuel (by simp)
    | succ fuel =>
      rw [length_cons] at hfuel
      rw [fromUtf8Lossy_cons, h, replaced, ih fuel (by rw [length_drop]; omega)]
      rfl
  | case3 lead rest more h ih =>
    intro fuel hfuel
    cases fuel with
    | zero => exact absurd hfuel (by simp)
    | succ fuel =>
      rw [length_cons] at hfuel
      rw [fromUtf8Lossy_cons, h, replaced, ih fuel (by rw [length_drop]; omega)]
      rfl
  | case4 lead rest h =>
    intro fuel hfuel
    cases fuel with
    | zero => exact absurd hfuel (by simp)
    | succ fuel =>
      rw [fromUtf8Lossy_cons, h, replaced, if_neg (cons_ne_nil _ _), nil_append]

theorem lossy_eq (bytes : List UInt8) :
    lossy bytes = (decided bytes).1 ++ if (decided bytes).2 = [] then [] else ['\uFFFD'] :=
  fromUtf8Lossy_eq bytes _ (Nat.le_refl _)

/-! ## An ASCII byte separates -/

theorem utf8Tail_stops {b : UInt8} (hb : b < 0x80) (hlow : 0x80 ≤ low) (t : List UInt8)
    (h : (utf8Tail more low high rest).length = rest.length) :
    (utf8Tail more low high (rest ++ b :: t)).length = rest.length := by
  induction rest generalizing more low high with
  | nil =>
    cases more with
    | zero => rfl
    | succ more =>
      have hout : ¬ (low ≤ b ∧ b ≤ high) := fun h =>
        absurd (UInt8.le_trans hlow h.1) (UInt8.not_le.mpr hb)
      rw [nil_append, utf8Tail, if_neg hout]
  | cons byte rest ih =>
    cases more with
    | zero => simp [utf8Tail] at h
    | succ more =>
      rw [utf8Tail] at h
      split at h
      · rename_i hbyte
        rw [cons_append, utf8Tail, if_pos hbyte, length_cons, length_cons,
          ih (by decide) (by simpa using h)]
      · simp at h

theorem low_of_utf8Lead (h : utf8Lead lead = some (more, low, high)) : 0x80 ≤ low := by
  unfold utf8Lead at h
  repeat' split at h
  all_goals
    first
      | cases h
        decide
      | cases h

theorem scan_separated {b : UInt8} (hb : b < 0x80) (t : List UInt8)
    (h : scan lead rest = .incomplete) :
    scan lead (rest ++ b :: t) = .invalid rest.length := by
  by_cases hlead : lead < 0x80
  · rw [scan_ascii hlead] at h
    exact Scan.noConfusion h
  cases hmore : utf8Lead lead with
  | none =>
    rw [scan_stray hlead hmore] at h
    exact Scan.noConfusion h
  | some shape =>
    obtain ⟨more, low, high⟩ := shape
    rw [scan_lead hlead hmore] at h
    split at h
    · exact Scan.noConfusion h
    · rename_i hshort
      split at h
      · rename_i hall
        have hstops := utf8Tail_stops hb (low_of_utf8Lead hmore) t hall
        rw [scan_lead hlead hmore, hstops, if_neg (by omega), if_neg]
        rw [length_append, length_cons]
        omega
      · exact Scan.noConfusion h

/-- The parts around an ASCII byte decode apart. -/
theorem lossy_append_ascii {b : UInt8} (hb : b < 0x80) (s t : List UInt8) :
    lossy (s ++ b :: t) = lossy s ++ Char.ofNat b.toNat :: lossy t := by
  have hascii : decided (b :: t) = (Char.ofNat b.toNat :: (decided t).1, (decided t).2) := by
    rw [decided_char (scan_ascii hb), drop_zero]
  have hheld := decided_held s
  rw [lossy_eq, lossy_eq s, lossy_eq t, decided_append]
  generalize (decided s).1 = chars
  generalize (decided s).2 = held at hheld
  cases held with
  | nil =>
    rw [nil_append, hascii]
    simp
  | cons lead rest =>
    -- What waited for more bytes is cut short by the ASCII byte.
    have hcut : scan lead rest = .incomplete := by
      cases hscan : scan lead rest with
      | char c more =>
        rw [decided_char hscan] at hheld
        cases hheld
      | invalid more =>
        rw [decided_invalid hscan] at hheld
        cases hheld
      | incomplete => rfl
    rw [cons_append, decided_invalid (scan_separated hb t hcut), drop_left, hascii]
    simp

theorem lossy_ascii (h : ∀ b ∈ bytes, b < 0x80) :
    lossy bytes = bytes.map fun b => Char.ofNat b.toNat := by
  induction bytes with
  | nil => rfl
  | cons b bytes ih =>
    have hsplit := lossy_append_ascii (h b mem_cons_self) [] bytes
    rw [nil_append] at hsplit
    rw [hsplit, ih fun c hc => h c (mem_cons_of_mem b hc)]
    rfl

/-! ## Where an ASCII character comes from -/

theorem range_of_utf8Tail {b : UInt8} {tail : List UInt8}
    (h : utf8Tail more low high rest = b :: tail) : low ≤ b ∧ b ≤ high := by
  cases more with
  | zero => cases rest <;> cases h
  | succ more =>
    cases rest with
    | nil => cases h
    | cons byte rest =>
      rw [utf8Tail] at h
      split at h
      · rename_i hrange
        obtain ⟨rfl, -⟩ := List.cons.inj h
        exact hrange
      · cases h

/-- The shapes of a lead byte: the lowest ones bound the byte after them from below. -/
theorem shape_of_utf8Lead (h : utf8Lead lead = some (more, low, high)) :
    (more = 1 ∧ 0xC2 ≤ lead.toNat ∧ lead.toNat ≤ 0xDF) ∨
      (more = 2 ∧ lead.toNat = 0xE0 ∧ low = 0xA0 ∧ high = 0xBF) ∨
      (more = 2 ∧ 0xE1 ≤ lead.toNat ∧ lead.toNat ≤ 0xEF) ∨
      (more = 3 ∧ lead.toNat = 0xF0 ∧ low = 0x90 ∧ high = 0xBF) ∨
      (more = 3 ∧ 0xF1 ≤ lead.toNat ∧ lead.toNat ≤ 0xF4) := by
  simp only [utf8Lead, UInt8.le_iff_toNat_le, ← UInt8.toNat_inj, UInt8.reduceToNat] at h
  repeat' split at h
  all_goals cases h
  all_goals simp
  all_goals omega

/-- The number that several bytes spell is no ASCII code. -/
theorem utf8Char_toNat (hmore : utf8Lead lead = some (more, low, high))
    (hall : (utf8Tail more low high rest).length = more) :
    (utf8Char lead (utf8Tail more low high rest)).toNat = 0 ∨
      0x80 ≤ (utf8Char lead (utf8Tail more low high rest)).toNat := by
  have hrange := @range_of_utf8Tail low high rest more
  generalize utf8Tail more low high rest = tail at hall hrange ⊢
  have hcode : ∀ code : ℕ, 0x80 ≤ code →
      (Char.ofNat code).toNat = 0 ∨ 0x80 ≤ (Char.ofNat code).toNat := by
    intro code hcode
    by_cases hvalid : code.isValidChar
    · rw [Char.ofNat, dif_pos hvalid]
      exact .inr hcode
    · rw [Char.ofNat, dif_neg hvalid]
      exact .inl rfl
  refine hcode _ ?_
  have hshape := shape_of_utf8Lead hmore
  cases tail with
  | nil =>
    simp only [length_nil] at hall
    omega
  | cons b tail =>
    obtain ⟨hlow, hhigh⟩ := hrange rfl
    rw [UInt8.le_iff_toNat_le] at hlow hhigh
    have hlows : (0xA0 : UInt8).toNat = 0xA0 ∧ (0x90 : UInt8).toNat = 0x90 ∧
        (0xBF : UInt8).toNat = 0xBF := by decide
    rcases tail with - | ⟨c, - | ⟨d, - | ⟨e, tail⟩⟩⟩
    · simp only [length_cons, length_nil] at hall
      change 0x80 ≤ lead.toNat % 32 * 64 + b.toNat % 64
      omega
    · simp only [length_cons, length_nil] at hall
      change 0x80 ≤ (lead.toNat % 16 * 64 + b.toNat % 64) * 64 + c.toNat % 64
      rcases hshape with h | ⟨h, hlead, rfl, rfl⟩ | h | h | h <;> omega
    · simp only [length_cons, length_nil] at hall
      change 0x80 ≤ ((lead.toNat % 8 * 64 + b.toNat % 64) * 64 + c.toNat % 64) * 64 + d.toNat % 64
      rcases hshape with h | h | h | ⟨h, hlead, rfl, rfl⟩ | h <;> omega
    · simp only [length_cons] at hall
      omega

theorem mem_of_mem_lossy {c : Char} (hc : c.toNat < 0x80) (hzero : c.toNat ≠ 0)
    (h : c ∈ lossy bytes) : ∃ b ∈ bytes, c = Char.ofNat b.toNat := by
  have hreplaced : c ≠ '\uFFFD' := by
    rintro rfl
    revert hc
    decide
  rw [lossy_eq, mem_append] at h
  have hchars : c ∈ (decided bytes).1 := by
    refine h.resolve_right fun hmem => ?_
    split at hmem
    · cases hmem
    · exact hreplaced (mem_singleton.mp hmem)
  clear h
  fun_induction decided bytes with
  | case1 => cases hchars
  | case2 lead rest d more hscan ih =>
    rcases mem_cons.mp hchars with rfl | hchars
    · by_cases hlead : lead < 0x80
      · rw [scan_ascii hlead] at hscan
        obtain ⟨rfl, -⟩ := Scan.char.inj hscan
        exact ⟨lead, mem_cons_self, rfl⟩
      · cases hmore : utf8Lead lead with
        | none =>
          rw [scan_stray hlead hmore] at hscan
          cases hscan
        | some shape =>
          obtain ⟨owed, low, high⟩ := shape
          rw [scan_lead hlead hmore] at hscan
          split at hscan
          · rename_i hall
            obtain ⟨rfl, -⟩ := Scan.char.inj hscan
            have := utf8Char_toNat hmore hall
            omega
          · split at hscan <;> cases hscan
    · obtain ⟨b, hb, rfl⟩ := ih hchars
      exact ⟨b, mem_cons_of_mem _ (mem_of_mem_drop hb), rfl⟩
  | case3 lead rest more hscan ih =>
    rcases mem_cons.mp hchars with rfl | hchars
    · exact absurd rfl hreplaced
    · obtain ⟨b, hb, rfl⟩ := ih hchars
      exact ⟨b, mem_cons_of_mem _ (mem_of_mem_drop hb), rfl⟩
  | case4 lead rest hscan => cases hchars

/-! ## The strict decoding -/

/-- `std::str::Utf8Error`: without a length where the bytes end inside a character. -/
structure Utf8Error where
  validUpTo : ℕ
  errorLen : Option ℕ
deriving DecidableEq

/-- The answer for a character of `width` bytes and what follows it. -/
def prepend (c : Char) (width : ℕ) : Except Utf8Error (List Char) → Except Utf8Error (List Char)
  | .ok text => .ok (c :: text)
  | .error e => .error { e with validUpTo := width + e.validUpTo }

def validate : ℕ → List UInt8 → Except Utf8Error (List Char)
  | fuel + 1, lead :: rest =>
    match scan lead rest with
    | .char c more => prepend c (more + 1) (validate fuel (rest.drop more))
    | .invalid more => .error { validUpTo := 0, errorLen := some (more + 1) }
    | .incomplete => .error { validUpTo := 0, errorLen := none }
  | _, _ => .ok []

/-- `std::str::from_utf8`. -/
def fromUtf8 (bytes : List UInt8) : Except Utf8Error (List Char) := validate bytes.length bytes

def isUtf8 (bytes : List UInt8) : Bool := (fromUtf8 bytes).isOk

theorem validate_ascii (fuel : ℕ) (h : ∀ b ∈ bytes, b < 0x80) :
    ∃ text, validate fuel bytes = .ok text := by
  induction fuel generalizing bytes with
  | zero => exact ⟨[], rfl⟩
  | succ fuel ih =>
    cases bytes with
    | nil => exact ⟨[], rfl⟩
    | cons lead rest =>
      obtain ⟨text, htext⟩ := ih fun b hb => h b (mem_cons_of_mem _ hb)
      refine ⟨Char.ofNat lead.toNat :: text, ?_⟩
      rw [validate, scan_ascii (h lead mem_cons_self)]
      simp only [drop_zero, htext, prepend]

theorem isUtf8_ascii (h : ∀ b ∈ bytes, b < 0x80) : isUtf8 bytes = true := by
  obtain ⟨text, htext⟩ := validate_ascii bytes.length h
  rw [isUtf8, fromUtf8, htext]
  rfl

example : fromUtf8 [0x61, 0xE2, 0x82, 0xAC] = .ok ['a', '€'] := by decide

example : fromUtf8 [0x61, 0xE2, 0x82, 0x41] = .error ⟨1, some 2⟩ := by decide

/-- What an answer of `from_utf8` says of the characters that the bytes decide. -/
def Agrees (bytes : List UInt8) : Except Utf8Error (List Char) → Prop
  | .ok text => decided bytes = (text, [])
  | .error ⟨upTo, none⟩ =>
    decided bytes = (lossy (bytes.take upTo), bytes.drop upTo) ∧ bytes.drop upTo ≠ []
  | .error ⟨upTo, some len⟩ =>
    decided bytes =
      (lossy (bytes.take upTo) ++ '\uFFFD' :: (decided (bytes.drop (upTo + len))).1,
        (decided (bytes.drop (upTo + len))).2) ∧ 0 < len ∧ upTo + len ≤ bytes.length

theorem lossy_char (h : scan lead rest = .char c more) :
    lossy (lead :: rest) = c :: lossy (rest.drop more) := by
  rw [lossy_eq, lossy_eq, decided_char h]
  rfl

theorem agrees_char (h : scan lead rest = .char c more) (answer : Except Utf8Error (List Char))
    (hagrees : Agrees (rest.drop more) answer) :
    Agrees (lead :: rest) (prepend c (more + 1) answer) := by
  have htake : ∀ upTo, lossy ((lead :: rest).take (more + 1 + upTo)) =
      c :: lossy ((rest.drop more).take upTo) := by
    intro upTo
    rw [Nat.add_right_comm, take_succ_cons, lossy_char (scan_take upTo h), drop_take,
      Nat.add_sub_cancel_left]
  have hdrop : ∀ upTo, (lead :: rest).drop (more + 1 + upTo) = (rest.drop more).drop upTo := by
    intro upTo
    rw [Nat.add_right_comm, drop_succ_cons, drop_drop]
  match answer with
  | .ok text =>
    have hrest : decided (rest.drop more) = (text, []) := hagrees
    change decided (lead :: rest) = (c :: text, [])
    rw [decided_char h, hrest]
  | .error ⟨upTo, none⟩ =>
    obtain ⟨hrest, hne⟩ := hagrees
    refine ⟨?_, by rw [hdrop]; exact hne⟩
    rw [decided_char h, hrest, htake, hdrop]
  | .error ⟨upTo, some len⟩ =>
    obtain ⟨hrest, hpos, hle⟩ := hagrees
    have hmore := more_le_of_char h
    refine ⟨?_, hpos, ?_⟩
    · rw [decided_char h, hrest, htake, Nat.add_assoc (more + 1), hdrop]
      rfl
    · simp only [length_drop, length_cons] at hle ⊢
      omega

theorem validate_agrees (fuel : ℕ) (bytes : List UInt8) (hfuel : bytes.length ≤ fuel) :
    Agrees bytes (validate fuel bytes) := by
  induction fuel generalizing bytes with
  | zero =>
    obtain rfl := length_eq_zero_iff.1 (Nat.le_zero.1 hfuel)
    exact decided_nil
  | succ fuel ih =>
    cases bytes with
    | nil => exact decided_nil
    | cons lead rest =>
      simp only [length_cons] at hfuel
      rw [validate]
      split
      · rename_i c more h
        exact agrees_char h _ (ih _ (by rw [length_drop]; omega))
      · rename_i more h
        have hle := more_le_of_invalid h
        refine ⟨?_, Nat.succ_pos _, by rw [length_cons]; omega⟩
        rw [Nat.zero_add, decided_invalid h]
        rfl
      · rename_i h
        refine ⟨?_, cons_ne_nil _ _⟩
        rw [decided_incomplete h]
        rfl

theorem fromUtf8_agrees (bytes : List UInt8) : Agrees bytes (fromUtf8 bytes) :=
  validate_agrees _ _ (Nat.le_refl _)

end Rivect.Utf8
