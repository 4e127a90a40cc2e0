import Rivect.Policy.Ipv4

/-! # The texts of a login

`src/providers/login_common.rs` and the callback of its producers: base64url, percent encoding, and
the redirect that brings an authorization back.
-/

namespace Rivect.Login

open Lib EffectPolicy List Option

def AMPERSAND : UInt8 := 0x26

def EQUALS : UInt8 := 0x3d

def UNDERSCORE : UInt8 := 0x5f

/-! ## Base64url -/

def ALPHABET : Text := ascii "ABCDEFGHIJKLMNOPQRSTUVWXYZabcdefghijklmnopqrstuvwxyz0123456789-_"

def digit (n : ℕ) : UInt8 := ALPHABET.getD (n % 64) 0

def triple (b0 b1 b2 : UInt8) : ℕ := b0.toNat * 2 ^ 16 + b1.toNat * 2 ^ 8 + b2.toNat

def digits (t : ℕ) : Text := [digit (t / 2 ^ 18), digit (t / 2 ^ 12), digit (t / 2 ^ 6), digit t]

def base64url : Text → Text
  | b0 :: b1 :: b2 :: rest => digits (triple b0 b1 b2) ++ base64url rest
  | [b0, b1] => (digits (triple b0 b1 0)).take 3
  | [b0] => (digits (triple b0 0 0)).take 2
  | [] => []

/-- The URL alphabet and the standard one are both read. -/
def digitValue (b : UInt8) : Option ℕ :=
  if isUpper b then some (b.toNat - 0x41)
  else if isLower b then some (b.toNat - 0x61 + 26)
  else if isDigit b then some (b.toNat - 0x30 + 52)
  else if b = DASH ∨ b = PLUS then some 62
  else if b = UNDERSCORE ∨ b = SLASH then some 63
  else none

/-- The buffer is a `u32` whose low `bits` have not been put out. -/
def decodeFrom (buffer bits : ℕ) : Text → Option Text
  | [] => some []
  | b :: rest =>
    match digitValue b with
    | none => if b = EQUALS then some [] else none
    | some value =>
      let buffer := (buffer * 64 + value) % 2 ^ 32
      if 8 ≤ bits + 6 then
        (decodeFrom buffer (bits + 6 - 8) rest).map (UInt8.ofNat (buffer / 2 ^ (bits + 6 - 8)) :: ·)
      else decodeFrom buffer (bits + 6) rest

def base64urlDecode (raw : Text) : Option Text := decodeFrom 0 0 raw

theorem digitValue_digit (n : ℕ) : digitValue (digit n) = some (n % 64) := by
  have hlt : n % 64 < 64 := Nat.mod_lt _ (by decide)
  unfold digit
  generalize n % 64 = m at hlt
  interval_cases m <;> decide

theorem decodeFrom_digit (buffer bits n : ℕ) (rest : Text) :
    decodeFrom buffer bits (digit n :: rest) =
      if 8 ≤ bits + 6 then
        (decodeFrom ((buffer * 64 + n % 64) % 2 ^ 32) (bits + 6 - 8) rest).map
          (UInt8.ofNat ((buffer * 64 + n % 64) % 2 ^ 32 / 2 ^ (bits + 6 - 8)) :: ·)
      else decodeFrom ((buffer * 64 + n % 64) % 2 ^ 32) (bits + 6) rest := by
  rw [decodeFrom, digitValue_digit]

theorem ofNat_eq {n : ℕ} {b : UInt8} (h : n % 256 = b.toNat) : UInt8.ofNat n = b := by
  rw [← UInt8.toNat_inj, UInt8.toNat_ofNat']
  exact h

/-- Four digits put out their three bytes, whatever the buffer held before. -/
theorem decodeFrom_digits (buffer : ℕ) (b0 b1 b2 : UInt8) (rest : Text) :
    ∃ buffer', decodeFrom buffer 0 (digits (triple b0 b1 b2) ++ rest) =
      (decodeFrom buffer' 0 rest).map ([b0, b1, b2] ++ ·) := by
  have h0 := b0.toNat_lt
  have h1 := b1.toNat_lt
  have h2 := b2.toNat_lt
  simp only [digits, cons_append, nil_append, decodeFrom_digit, Nat.reduceAdd,
    Nat.reduceLeDiff, if_false, if_true, Nat.reduceSub, Option.map_map]
  refine ⟨_, congrArg (Option.map · _) (funext fun bytes => ?_)⟩
  simp only [Function.comp_apply, List.cons.injEq, and_true]
  have ht : triple b0 b1 b2 = b0.toNat * 2 ^ 16 + b1.toNat * 2 ^ 8 + b2.toNat := rfl
  generalize triple b0 b1 b2 = t at ht
  refine ⟨ofNat_eq ?_, ofNat_eq ?_, ofNat_eq ?_⟩
  · omega
  · omega
  · omega

/-- Nothing more is read at the end or from the padding on. -/
theorem decodeFrom_end {tail : Text} (h : Opens [EQUALS] tail) (buffer bits : ℕ) :
    decodeFrom buffer bits tail = some [] := by
  cases tail with
  | nil => rfl
  | cons b tail =>
    obtain rfl := mem_singleton.mp (h b rfl)
    rfl

theorem decodeFrom_base64url {tail : Text} (h : Opens [EQUALS] tail) (bytes : Text)
    (buffer : ℕ) : decodeFrom buffer 0 (base64url bytes ++ tail) = some bytes := by
  induction bytes using base64url.induct generalizing buffer with
  | case1 b0 b1 b2 rest ih =>
    obtain ⟨buffer', hdigits⟩ := decodeFrom_digits buffer b0 b1 b2 (base64url rest ++ tail)
    rw [base64url, append_assoc, hdigits, ih]
    rfl
  | case2 b0 b1 =>
    have h0 := b0.toNat_lt
    have h1 := b1.toNat_lt
    simp [base64url, digits, decodeFrom_digit, decodeFrom_end h]
    have ht : triple b0 b1 0 = b0.toNat * 2 ^ 16 + b1.toNat * 2 ^ 8 := by simp [triple]
    generalize triple b0 b1 0 = t at ht
    refine ⟨ofNat_eq ?_, ofNat_eq ?_⟩
    · omega
    · omega
  | case3 b0 =>
    have h0 := b0.toNat_lt
    simp [base64url, digits, decodeFrom_digit, decodeFrom_end h]
    have ht : triple b0 0 0 = b0.toNat * 2 ^ 16 := by simp [triple]
    generalize triple b0 0 0 = t at ht
    apply ofNat_eq
    omega
  | case4 => exact decodeFrom_end h buffer 0

/-- A digit of the standard alphabet as the URL alphabet spells it. -/
def urlSafe (b : UInt8) : UInt8 := if b = PLUS then DASH else if b = SLASH then UNDERSCORE else b

theorem urlSafe_reads (b : UInt8) :
    digitValue (urlSafe b) = digitValue b ∧ (urlSafe b = EQUALS ↔ b = EQUALS) :=
  forall_byte (P := fun b => digitValue (urlSafe b) = digitValue b ∧
    (urlSafe b = EQUALS ↔ b = EQUALS)) (by decide +kernel) b

theorem decodeFrom_urlSafe (buffer bits : ℕ) (raw : Text) :
    decodeFrom buffer bits (raw.map urlSafe) = decodeFrom buffer bits raw := by
  induction raw generalizing buffer bits with
  | nil => rfl
  | cons b raw ih =>
    rw [map_cons, decodeFrom, decodeFrom, (urlSafe_reads b).1]
    simp only [(urlSafe_reads b).2, ih]

/-- **What is minted is read back**, in either alphabet, with or without padding. -/
theorem base64url_read_back (bytes : Text) {front tail : Text}
    (hfront : front.map urlSafe = base64url bytes) (htail : Opens [EQUALS] tail) :
    base64urlDecode (front ++ tail) = some bytes := by
  have hpadding : Opens [EQUALS] (tail.map urlSafe) := by
    cases tail with
    | nil => exact nofun
    | cons b tail =>
      obtain rfl := mem_singleton.mp (htail b rfl)
      exact fun _ h => some.inj h ▸ mem_singleton_self _
  rw [base64urlDecode, ← decodeFrom_urlSafe, map_append, hfront]
  exact decodeFrom_base64url hpadding bytes 0

/-- A padded text of the standard alphabet. -/
theorem base64url_read_back_padded : base64urlDecode (ascii "+/8=") = some [0xfb, 0xff] :=
  base64url_read_back [0xfb, 0xff] (by decide : (ascii "+/8").map urlSafe = _)
    fun _ h => some.inj h ▸ mem_singleton_self _

/-! ## Percent encoding -/

def upperHex (n : UInt8) : UInt8 := if n < 10 then 0x30 + n else 0x37 + n

/-- Everything outside the unreserved set is encoded. -/
def percentEncodeComponent (raw : Text) : Text := raw.flatMap fun b =>
  if isUnreserved b then [b] else [PERCENT, upperHex (b / 16), upperHex (b % 16)]

def percentDecode (raw : Text) : Option Text := (decodeBytes raw).filter isUtf8

def field (f : Text × Text) : Text :=
  percentEncodeComponent f.1 ++ EQUALS :: percentEncodeComponent f.2

def formBody (fields : List (Text × Text)) : Text := [AMPERSAND].intercalate (fields.map field)

theorem encoded_byte (b : UInt8) :
    escaped (upperHex (b / 16)) (upperHex (b % 16)) = some b ∧
      (isUnreserved b → b ∉ [AMPERSAND, EQUALS]) ∧
      upperHex (b / 16) ∉ [AMPERSAND, EQUALS] ∧ upperHex (b % 16) ∉ [AMPERSAND, EQUALS] := by
  revert b
  exact forall_byte (by decide +kernel)

theorem decodeBytes_encode (raw : Text) : decodeBytes (percentEncodeComponent raw) = some raw := by
  induction raw with
  | nil => rfl
  | cons b raw ih =>
    rw [percentEncodeComponent, flatMap_cons, ← percentEncodeComponent]
    by_cases hb : isUnreserved b = true
    · rw [if_pos hb, singleton_append, decodeBytes_cons (unreserved_ne_percent hb), ih]
      rfl
    · rw [if_neg hb]
      simp only [cons_append, nil_append]
      rw [decodeBytes_escape (encoded_byte b).1, ih]
      rfl

theorem encode_inj {a b : Text} (h : percentEncodeComponent a = percentEncodeComponent b) :
    a = b := by
  have hdecode := decodeBytes_encode a
  rw [h, decodeBytes_encode] at hdecode
  exact (some.inj hdecode).symm

theorem mem_encode {d : UInt8} {raw : Text} (h : d ∈ percentEncodeComponent raw) :
    d ∉ [AMPERSAND, EQUALS] := by
  obtain ⟨b, -, hd⟩ := mem_flatMap.mp h
  obtain ⟨-, hplain, hhigh, hlow⟩ := encoded_byte b
  by_cases hb : isUnreserved b = true
  · rw [if_pos hb] at hd
    rw [mem_singleton.mp hd]
    exact hplain hb
  · rw [if_neg hb, mem_cons, mem_cons, mem_singleton] at hd
    rcases hd with rfl | rfl | rfl
    · decide
    · exact hhigh
    · exact hlow

/-! ## The callback -/

inductive LoginError where
  | notARedirect
  | originMismatch
  | stateMismatch
  | cancelled
  /-- The peer's own code, not yet bounded. -/
  | denied (code : Text)
  | missingCode
deriving DecidableEq

/-- Where a producer's callback is served. -/
structure Route where
  authority : Text
  path : Text
  plain : SLASH ∉ authority ∧ path.head? = some SLASH ∧ QUESTION ∉ path

def openaiRoute : Route := ⟨ascii "localhost:1455", ascii "/auth/callback", by decide⟩

def anthropicRoute : Route := ⟨ascii "127.0.0.1:54545", ascii "/callback", by decide⟩

structure Callback where
  code : Option Text
  state : Option Text
  error : Option Text
deriving DecidableEq

/-- A recorded key may appear once. -/
def unique (slot : Option Text) (value : Text) : Except LoginError Text :=
  if slot.isSome then .error .notARedirect else .ok value

def Callback.record (callback : Callback) (key value : Text) : Except LoginError Callback :=
  if key = ascii "code" then
    (unique callback.code value).map fun v => { callback with code := some v }
  else if key = ascii "state" then
    (unique callback.state value).map fun v => { callback with state := some v }
  else if key = ascii "error" then
    (unique callback.error value).map fun v => { callback with error := some v }
  else .ok callback

def Callback.member (callback : Callback) (pair : Text) : Except LoginError Callback := do
  let (key, value) ← found (splitOnce EQUALS pair) .notARedirect
  let value ← found (percentDecode value) .notARedirect
  callback.record key value

/-- Origin and route are compared as they are spelled. -/
def parseCallback (route : Route) (redirect : Text) : Except LoginError Callback := do
  let rest ← found (stripPrefix (ascii "http://") redirect) .notARedirect
  let (authority, target) ← found (splitOnce SLASH rest) .notARedirect
  require (authority = route.authority) .originMismatch
  let (path, query) := (splitOnce QUESTION (SLASH :: target)).getD (SLASH :: target, [])
  require (path = route.path) .originMismatch
  ((split AMPERSAND query).filter (· ≠ [])).foldlM Callback.member ⟨none, none, none⟩

/-- The code that a login goes on to exchange. -/
def redirectCode (route : Route) (sessionState redirect : Text) : Except LoginError Text := do
  let callback ← parseCallback route redirect
  require (callback.state = some sessionState) .stateMismatch
  match callback.error with
  | some error => .error (if error = ascii "access_denied" then .cancelled else .denied error)
  | none => found callback.code .missingCode

/-- The redirect that a peer builds of some fields. -/
def redirectOf (route : Route) (fields : List (Text × Text)) : Text :=
  ascii "http://" ++ route.authority ++ route.path ++ QUESTION :: formBody fields

/-- What may stand in one slot of a callback. -/
def slot : List Text → Except LoginError (Option Text)
  | [] => .ok none
  | [value] => .ok (some value)
  | _ => .error .notARedirect

def valuesOf (key : String) (fields : List (Text × Text)) : List Text :=
  (fields.filter (·.1 = ascii key)).map Prod.snd

/-- What a callback with these slots takes of some fields, each slot its own key's values. -/
def Callback.taking (callback : Callback) (fields : List (Text × Text)) :
    Except LoginError Callback := do
  let code ← slot (callback.code.toList ++ valuesOf "code" fields)
  let state ← slot (callback.state.toList ++ valuesOf "state" fields)
  let error ← slot (callback.error.toList ++ valuesOf "error" fields)
  .ok ⟨code, state, error⟩

theorem encode_eq_iff {key : String} (hkey : percentEncodeComponent (ascii key) = ascii key)
    (name : Text) : percentEncodeComponent name = ascii key ↔ name = ascii key :=
  ⟨fun h => encode_inj (h.trans hkey.symm), fun h => h ▸ hkey⟩

theorem member_field (callback : Callback) {f : Text × Text} (hutf8 : isUtf8 f.2 = true) :
    callback.member (field f) = callback.record f.1 f.2 := by
  have hsplit : splitOnce EQUALS (field f) =
      some (percentEncodeComponent f.1, percentEncodeComponent f.2) :=
    splitOnce_append (fun h => mem_encode h (by decide)) _
  have hdecode : percentDecode (percentEncodeComponent f.2) = some f.2 := by
    rw [percentDecode, decodeBytes_encode, filter_some, if_pos hutf8]
  simp only [Callback.member, hsplit, hdecode, found_some, ok_bind, Callback.record,
    encode_eq_iff (show percentEncodeComponent (ascii "code") = ascii "code" by decide +kernel),
    encode_eq_iff (show percentEncodeComponent (ascii "state") = ascii "state" by decide +kernel),
    encode_eq_iff (show percentEncodeComponent (ascii "error") = ascii "error" by decide +kernel)]

theorem valuesOf_cons (key : String) (f : Text × Text) (fields : List (Text × Text)) :
    valuesOf key (f :: fields) =
      if f.1 = ascii key then f.2 :: valuesOf key fields else valuesOf key fields := by
  unfold valuesOf
  by_cases h : f.1 = ascii key <;> simp [h]

theorem slot_fails {β : Type} (values : List Text) :
    (slot values >>= fun _ => (.error .notARedirect : Except LoginError β)) =
      .error .notARedirect := by
  rcases values with _ | ⟨value, _ | ⟨other, values⟩⟩ <;> rfl

theorem slots_fail {β : Type} (values values' : List Text) :
    (slot values >>= fun _ => slot values' >>= fun _ =>
      (.error .notARedirect : Except LoginError β)) = .error .notARedirect := by
  simp only [slot_fails]

theorem foldlM_member (fields : List (Text × Text)) (hutf8 : ∀ f ∈ fields, isUtf8 f.2 = true)
    (callback : Callback) :
    (fields.map field).foldlM Callback.member callback = callback.taking fields := by
  induction fields generalizing callback with
  | nil =>
    obtain ⟨code, state, error⟩ := callback
    cases code <;> cases state <;> cases error <;> rfl
  | cons f fields ih =>
    rw [forall_mem_cons] at hutf8
    rw [map_cons, foldlM_cons, member_field callback hutf8.1]
    obtain ⟨code, state, error⟩ := callback
    simp only [Callback.taking, valuesOf_cons, Callback.record]
    by_cases hcode : f.1 = ascii "code"
    · rw [hcode]
      cases code with
      | none => exact ih hutf8.2 ⟨some f.2, state, error⟩
      | some first => rfl
    by_cases hstate : f.1 = ascii "state"
    · rw [hstate]
      cases state with
      | none => exact ih hutf8.2 ⟨code, some f.2, error⟩
      | some first => exact (slot_fails _).symm
    by_cases herror : f.1 = ascii "error"
    · rw [herror]
      cases error with
      | none => exact ih hutf8.2 ⟨code, state, some f.2⟩
      | some first => exact (slots_fail _ _).symm
    simp only [if_neg hcode, if_neg hstate, if_neg herror, ok_bind]
    exact ih hutf8.2 ⟨code, state, error⟩

theorem split_formBody (fields : List (Text × Text)) :
    (split AMPERSAND (formBody fields)).filter (· ≠ []) = fields.map field := by
  have hkept : (fields.map field).filter (· ≠ []) = fields.map field := by
    rw [filter_eq_self]
    intro pair hpair
    obtain ⟨f, -, rfl⟩ := mem_map.mp hpair
    simp [field]
  cases fields with
  | nil => rfl
  | cons f fields =>
    rw [split_eq, formBody, splitOn_intercalate, hkept]
    · intro pair hpair hmem
      obtain ⟨g, -, rfl⟩ := mem_map.mp hpair
      rw [field, mem_append, mem_cons] at hmem
      rcases hmem with h | h | h
      · exact mem_encode h (by decide)
      · cases h
      · exact mem_encode h (by decide)
    · simp

theorem parseCallback_redirectOf (route : Route) (fields : List (Text × Text))
    (hutf8 : ∀ f ∈ fields, isUtf8 f.2 = true) :
    parseCallback route (redirectOf route fields) =
      (⟨none, none, none⟩ : Callback).taking fields := by
  obtain ⟨authority, path, hauthority, hhead, hpath⟩ := route
  obtain ⟨rest, rfl⟩ : ∃ rest, path = SLASH :: rest := by
    cases path with
    | nil => cases hhead
    | cons b rest => exact ⟨rest, by rw [some.inj hhead]⟩
  have htarget : splitOnce SLASH (authority ++ SLASH :: (rest ++ QUESTION :: formBody fields)) =
      some (authority, rest ++ QUESTION :: formBody fields) := splitOnce_append hauthority _
  have hquery : splitOnce QUESTION (SLASH :: (rest ++ QUESTION :: formBody fields)) =
      some (SLASH :: rest, formBody fields) := splitOnce_append hpath _
  simp only [parseCallback, redirectOf, append_assoc, cons_append, stripPrefix_append,
    found_some, ok_bind, htarget, hquery, getD_some, require_pos, split_formBody]
  exact foldlM_member fields hutf8 _

theorem slot_eq_ok {values : List Text} {value : Option Text} :
    slot values = .ok value ↔ values = value.toList := by
  rcases values with _ | ⟨first, _ | ⟨other, values⟩⟩ <;> cases value <;> simp [slot]

/-- **The redirect is read back.** Of a redirect that a peer builds of any fields, in any order, a
login exchanges a code exactly where the session's state comes once, an error not at all and the
code once; and it is the code that the peer encoded. -/
theorem redirect_read_back (route : Route) (sessionState : Text) (fields : List (Text × Text))
    (hutf8 : ∀ f ∈ fields, isUtf8 f.2 = true) (code : Text) :
    redirectCode route sessionState (redirectOf route fields) = .ok code ↔
      valuesOf "state" fields = [sessionState] ∧ valuesOf "error" fields = [] ∧
        valuesOf "code" fields = [code] := by
  rw [redirectCode, parseCallback_redirectOf route fields hutf8]
  constructor
  · intro h
    obtain ⟨callback, hcallback, h⟩ := bind_eq_ok h
    obtain ⟨found, hcode, hcallback⟩ := bind_eq_ok hcallback
    obtain ⟨state, hstate, hcallback⟩ := bind_eq_ok hcallback
    obtain ⟨error, herror, hcallback⟩ := bind_eq_ok hcallback
    obtain rfl := Except.ok.inj hcallback
    obtain ⟨_, hsession, h⟩ := bind_eq_ok h
    obtain rfl : state = some sessionState := require_eq_ok hsession
    cases error with
    | some error => cases h
    | none =>
      obtain rfl : found = some code := found_eq_ok h
      exact ⟨slot_eq_ok.mp hstate, slot_eq_ok.mp herror, slot_eq_ok.mp hcode⟩
  · rintro ⟨hstate, herror, hcode⟩
    simp [Callback.taking, hstate, herror, hcode, slot]

theorem redirect_read_back_once :
    redirectCode openaiRoute (ascii "s t")
      (redirectOf openaiRoute [(ascii "state", ascii "s t"), (ascii "code", ascii "a&b")]) =
        .ok (ascii "a&b") :=
  (redirect_read_back openaiRoute _ _ (by decide +kernel) _).mpr (by decide +kernel)

end Rivect.Login
