import Rivect.Policy.Resolution
import Rivect.Policy.Spelling

/-! # Respelled egress targets

An enrolled URL stays denied however a request spells it: both sides have one normal form up to
percent escapes, and the comparison decodes these.
-/

namespace Rivect.EffectPolicy

open List

/-- One pass over all bytes: the marks that no word of a spelling has. -/
theorem word_checks (b : UInt8) :
    (isAlphanumeric b → b ≠ AT ∧ b ≠ COLON) ∧ (isHostEncodable b → b ≠ AT ∧ b ≠ COLON) ∧
      ((Char.ofNat b.toNat).isDigit → isDigit b) ∧
      (isDigit b → b ∉ [SLASH, QUESTION, HASH] ∧ SPACE < b) := by
  revert b
  exact forall_byte (by decide +kernel)

theorem mark_checks (b : UInt8) :
    (b ∈ [SLASH, QUESTION, HASH] →
        b ∈ [SLASH, BACKSLASH, QUESTION, HASH, AT] ∧ isAlphabetic b = false) ∧
      (b < 0x80 → lowerByte b < 0x80) ∧ (isAlphabetic b → SPACE < b) ∧
      (SPACE < b → (!(b = TAB || b = LF || b = CR)) = true ∧ isBlankByte b = false) := by
  revert b
  exact forall_byte (by decide +kernel)

/-! ## Authorities that decode alike -/

theorem Encodes.append {may : UInt8 → Bool} {a a' b b' : Text} (ha : Encodes may a a')
    (hb : Encodes may b b') : Encodes may (a ++ b) (a' ++ b') := by
  induction ha with
  | nil => exact hb
  | literal h _ ih => exact .literal h ih
  | escape h _ ih => exact .escape h ih
  | encoded hmay h _ ih => exact .encoded hmay h ih

theorem hostEncodable_ne_percent {b : UInt8} (h : isHostEncodable b = true) : b ≠ PERCENT := by
  rw [isHostEncodable, Bool.and_eq_true] at h
  exact unreserved_ne_percent h.1

theorem decodedIdentity_encodes {raw raw' : Text} (h : Encodes isHostEncodable raw raw')
    (hplain : PERCENT ∉ raw) (htext : isUtf8 raw = true) :
    decodedIdentity raw' = decodedIdentity raw := by
  have hdecodes := h.decodes fun _ => hostEncodable_ne_percent
  rw [decodeBytes_plain hplain] at hdecodes
  rw [decodedIdentity_of_decodes hdecodes htext, decodedIdentity_plain hplain]

/-- The runs between the delimiters of `run ++ raw` are text: it is ASCII, or it has none. -/
def TextRuns (run raw : Text) : Prop :=
  (∀ b ∈ run ++ raw, b < 0x80) ∨ isUtf8 (run ++ raw) = true ∧ AT ∉ raw ∧ COLON ∉ raw

theorem TextRuns.run {run : Text} (h : TextRuns run []) : isUtf8 run = true := by
  rw [TextRuns, append_nil] at h
  rcases h with h | h
  · exact isUtf8_ascii h
  · exact h.1

theorem TextRuns.move {run raw : Text} {b : UInt8} (h : TextRuns run (b :: raw)) :
    TextRuns (run ++ [b]) raw := by
  have hsame : run ++ [b] ++ raw = run ++ b :: raw := by simp
  rw [TextRuns, hsame]
  refine h.imp_right fun ⟨htext, hat, hcolon⟩ => ⟨htext, ?_, ?_⟩
  · exact fun hmem => hat (mem_cons_of_mem b hmem)
  · exact fun hmem => hcolon (mem_cons_of_mem b hmem)

theorem TextRuns.split {run raw : Text} {b : UInt8} (h : TextRuns run (b :: raw))
    (hb : b = AT ∨ b = COLON) : isUtf8 run = true ∧ TextRuns [] raw := by
  rcases h with h | ⟨-, hat, hcolon⟩
  · refine ⟨isUtf8_ascii fun c hc => h c (mem_append_left _ hc), .inl fun c hc => ?_⟩
    exact h c (mem_append_right run (mem_cons_of_mem b hc))
  · rcases hb with rfl | rfl
    · exact absurd mem_cons_self hat
    · exact absurd mem_cons_self hcolon

theorem authorityTokensFrom_append (run rest : Text) {part : Text}
    (h : ∀ b ∈ part, b ≠ AT ∧ b ≠ COLON) :
    authorityTokensFrom run (part ++ rest) = authorityTokensFrom (run ++ part) rest := by
  induction part generalizing run with
  | nil => simp
  | cons b part ih =>
    have hb := h b mem_cons_self
    rw [cons_append, authorityTokensFrom, if_neg (by simp [hb.1, hb.2]),
      ih _ fun c hc => h c (mem_cons_of_mem b hc)]
    simp

theorem authorityTokensFrom_encodes {run run' raw raw' rest : Text}
    (hraw : Encodes isHostEncodable raw raw') (hrest : Opens [COLON] rest) :
    Encodes isHostEncodable run run' → TextRuns run raw → PERCENT ∉ run → PERCENT ∉ raw →
    authorityTokensFrom run' (raw' ++ rest) = authorityTokensFrom run (raw ++ rest) := by
  induction hraw generalizing run run' with
  | nil =>
    intro hrun htext hplain _
    have hsame := decodedIdentity_encodes hrun hplain htext.run
    cases rest with
    | nil => simp only [nil_append, authorityTokensFrom, hsame]
    | cons b rest =>
      obtain rfl : b = COLON := by simpa using hrest b rfl
      simp only [nil_append, authorityTokensFrom, or_true, ↓reduceIte, hsame]
  | @literal b raw raw' hb hraw ih =>
    intro hrun htext hplain hpercent
    rw [mem_cons, not_or] at hpercent
    simp only [cons_append, authorityTokensFrom]
    split_ifs with hdelimiter
    · obtain ⟨hrunText, htext⟩ := htext.split hdelimiter
      rw [decodedIdentity_encodes hrun hplain hrunText,
        ih .nil htext not_mem_nil hpercent.2]
    · apply ih (hrun.append (.literal hb .nil)) htext.move _ hpercent.2
      rw [mem_append, mem_singleton, not_or]
      exact ⟨hplain, Ne.symm hb⟩
  | escape _ _ _ => exact fun _ _ _ hpercent => absurd mem_cons_self hpercent
  | @encoded b high low raw raw' hmay hescaped hraw ih =>
    intro hrun htext hplain hpercent
    rw [mem_cons, not_or] at hpercent
    obtain ⟨hhigh, hlow⟩ := hexValue_of_escaped (Option.isSome_iff_exists.mpr ⟨_, hescaped⟩)
    have hword : ∀ c : UInt8, isAlphanumeric c → c ≠ AT ∧ c ≠ COLON := fun c => (word_checks c).1
    have hpart : ∀ c ∈ [PERCENT, high, low], c ≠ AT ∧ c ≠ COLON := by
      intro c hc
      simp only [mem_cons, not_mem_nil, or_false] at hc
      rcases hc with rfl | rfl | rfl
      · decide
      · exact hword _ (alphanumeric_of_hexValue hhigh)
      · exact hword _ (alphanumeric_of_hexValue hlow)
    have hb : b ≠ AT ∧ b ≠ COLON := (word_checks b).2.1 hmay
    have hleft := authorityTokensFrom_append run' (raw' ++ rest) hpart
    have hright : authorityTokensFrom run ([b] ++ (raw ++ rest)) = _ :=
      authorityTokensFrom_append run (raw ++ rest) (by simpa using hb)
    calc authorityTokensFrom run' (PERCENT :: high :: low :: raw' ++ rest)
        = authorityTokensFrom (run' ++ [PERCENT, high, low]) (raw' ++ rest) := hleft
      _ = authorityTokensFrom (run ++ [b]) (raw ++ rest) := by
          apply ih (hrun.append (.encoded hmay hescaped .nil)) htext.move _ hpercent.2
          rw [mem_append, mem_singleton, not_or]
          exact ⟨hplain, hpercent.1⟩
      _ = authorityTokensFrom run (b :: raw ++ rest) := hright.symm

/-! ## Ports -/

theorem decimal_digits (n : ℕ) : ∀ b ∈ decimal n, isDigit b := by
  have hdigit : ∀ m < 256, (Char.ofNat m).isDigit → isDigit (UInt8.ofNat m) := by
    intro m hm hchar
    refine (word_checks (UInt8.ofNat m)).2.2.1 ?_
    rwa [UInt8.toNat_ofNat_of_lt' hm]
  intro b hb
  obtain ⟨c, hc, rfl⟩ := mem_map.mp hb
  have hc' := Nat.isDigit_of_mem_toDigits (by decide) (by decide) hc
  have hlt : c.toNat < 256 := by
    rw [Char.isDigit, Bool.and_eq_true, decide_eq_true_eq, decide_eq_true_eq] at hc'
    have hle : c.toNat ≤ 57 := UInt32.le_iff_toNat_le.mp hc'.2
    omega
  exact hdigit c.toNat hlt (by rwa [Char.ofNat_toNat])

theorem normalPort_bytes (knowledge : SchemeKnowledge) (scheme : Text) {digits : Text}
    (h : digits.all isDigit = true) :
    Opens [COLON] (normalPort knowledge scheme digits) ∧
      ∀ b ∈ normalPort knowledge scheme digits, b ∉ [SLASH, QUESTION, HASH] := by
  have hport : ∀ digits : Text, (∀ b ∈ digits, isDigit b) →
      Opens [COLON] (COLON :: digits) ∧ ∀ b ∈ COLON :: digits, b ∉ [SLASH, QUESTION, HASH] := by
    intro digits hdigits
    refine ⟨fun b hb => by simp_all, fun b hb hmem => ?_⟩
    rcases mem_cons.mp hb with rfl | hb
    · exact absurd hmem (by decide)
    · exact ((word_checks b).2.2.2 (hdigits b hb)).1 hmem
  have hnil : Opens [COLON] [] ∧ ∀ b ∈ ([] : Text), b ∉ [SLASH, QUESTION, HASH] := by
    constructor
    · exact nofun
    · exact nofun
  unfold normalPort
  split_ifs
  · exact hnil
  · split
    · split_ifs
      · exact hnil
      · exact hnil
      · exact hport _ (decimal_digits _)
    · exact hport _ (all_eq_true.mp h)

/-- The spellings of a scheme's own port. -/
inductive DefaultPort (scheme : Text) : Option Text → Prop
  | absent : DefaultPort scheme none
  | empty : DefaultPort scheme (some [])
  | http (zeros : ℕ) : scheme = ascii "http" →
      DefaultPort scheme (some (List.replicate zeros 0x30 ++ ascii "80"))
  | https (zeros : ℕ) : scheme = ascii "https" →
      DefaultPort scheme (some (List.replicate zeros 0x30 ++ ascii "443"))

theorem parseU16_zeros (zeros : ℕ) {b : UInt8} {digits : Text} (h : b ≠ PLUS) :
    parseU16 (List.replicate zeros 0x30 ++ b :: digits) = parseU16 (b :: digits) := by
  have hparse : ∀ (c : UInt8) (rest : Text), c ≠ PLUS → parseU16 (c :: rest) =
      ((c :: rest).foldlM (fun value digit => (digitValue 10 digit).map (value * 10 + ·)) 0).filter
        (· < 2 ^ 16) := by
    intro c rest hc
    simp [parseU16, parseRadix, hc]
  induction zeros with
  | zero => rfl
  | succ zeros ih =>
    rw [replicate_succ, cons_append, hparse _ _ (by decide), foldlM_cons]
    have hzero : (digitValue 10 0x30).map (0 * 10 + ·) = some 0 := by decide
    rw [hzero, Option.bind_eq_bind, Option.bind_some, ← ih]
    cases zeros with
    | zero => exact (hparse b digits h).symm
    | succ zeros =>
      rw [replicate_succ, cons_append]
      exact (hparse _ _ (by decide)).symm

theorem normalPort_default {scheme : Text} {port : Option Text} (h : DefaultPort scheme port) :
    normalPort .carried scheme (port.getD []) = [] := by
  have hparsed : ∀ (digits : Text) (number : ℕ), parseU16 digits = some number →
      isDefaultPort scheme number = true → normalPort .carried scheme digits = [] := by
    intro digits number hnumber hdefault
    unfold normalPort
    split_ifs
    · rfl
    · simp [hnumber, hdefault]
  cases h with
  | absent => rfl
  | empty => rfl
  | http zeros hscheme =>
    apply hparsed _ 80
    · exact (parseU16_zeros zeros (by decide)).trans (by decide)
    · simp [isDefaultPort, hscheme]
  | https zeros hscheme =>
    apply hparsed _ 443
    · exact (parseU16_zeros zeros (by decide)).trans (by decide)
    · simp [isDefaultPort, hscheme]

/-- One port: the same digits, or two spellings of the scheme's own. -/
def SamePort (scheme : Text) (port port' : Option Text) : Prop :=
  port' = port ∨ DefaultPort scheme port ∧ DefaultPort scheme port'

theorem SamePort.normal {scheme : Text} {port port' : Option Text}
    (h : SamePort scheme port port') :
    normalPort .carried scheme (port'.getD []) = normalPort .carried scheme (port.getD []) := by
  rcases h with rfl | ⟨h, h'⟩
  · rfl
  · rw [normalPort_default h, normalPort_default h']

/-! ## Normal forms that decode alike -/

theorem hostText_lower (bracketed : Bool) (host : Text) :
    lower (hostText bracketed host) = hostText bracketed (lower host) := by
  have hopen : lowerByte OPEN = OPEN := by decide
  have hclose : lowerByte CLOSE = CLOSE := by decide
  cases bracketed with
  | false => rfl
  | true => simp [hostText, lower, hopen, hclose]

theorem Encodes.hostText {bracketed : Bool} {host host' : Text}
    (h : Encodes isHostEncodable host host') :
    Encodes isHostEncodable (hostText bracketed host) (hostText bracketed host') := by
  cases bracketed with
  | false => exact h
  | true => exact .literal (by decide) (h.append (.literal (by decide) .nil))

namespace Url

variable {u d : Url}

theorem urlBlobSegments_normal (h : u.Valid) :
    urlBlobSegments (u.normal .carried) =
      some ⟨lower u.scheme ++ [COLON, SLASH, SLASH],
        authorityTokens (hostText u.bracketed (lower u.host) ++
          normalPort .carried (lower u.scheme) (u.port.getD [])),
        decodedIdentity u.path⟩ := by
  have hscheme : lower (lower u.scheme) ∈ AUTHORITY_SCHEMES := by
    rw [lower_lower]
    exact h.scheme
  set port := normalPort .carried (lower u.scheme) (u.port.getD []) with hportdef
  have hport : ∀ b ∈ port, b ∉ [SLASH, QUESTION, HASH] := by
    apply (normalPort_bytes _ _ _).2
    cases hdigits : u.port with
    | none => rfl
    | some digits => exact h.port digits hdigits
  have hauthority : ∀ b ∈ hostText u.bracketed (lower u.host) ++ port,
      b ∉ [SLASH, QUESTION, HASH] := by
    intro b hmem hmarker
    rcases mem_append.mp hmem with hmem | hmem
    · have hmarker' := (mark_checks b).1 hmarker
      have hraw : b ∉ hostText u.bracketed u.host := fun hraw =>
        not_mem_hostPort h hmarker'.1 (mem_append_left _ hraw)
      rw [← hostText_lower] at hmem
      exact not_mem_of_lower (lower_lower _) hmarker'.2 hraw hmem
    · exact hport b hmem hmarker
  have hopens : Opens [SLASH, QUESTION, HASH] u.path := by
    have := opens_path h []
    rwa [append_nil] at this
  have hnormal : u.normal .carried = lower u.scheme ++ COLON ::
      ([SLASH, SLASH] ++ (hostText u.bracketed (lower u.host) ++ port ++ u.path)) := by
    simp [normal, hostText_lower, hportdef]
  rw [hnormal]
  exact urlBlobSegments_letters (authorityScheme_letters hscheme) hauthority hopens

/-- Two URLs with one target: the same scheme, hosts and paths that decode alike, and one
port. -/
structure SameTarget (d u : Url) : Prop where
  scheme : lower u.scheme = lower d.scheme
  bracketed : u.bracketed = d.bracketed
  host : Encodes isHostEncodable (lower d.host) (lower u.host)
  host_plain : PERCENT ∉ d.host
  host_text : (d.bracketed = true ∧ ∀ b ∈ d.host, b < 0x80) ∨
    (d.bracketed = false ∧ isUtf8 d.host = true ∧ AT ∉ d.host ∧ COLON ∉ d.host)
  port : SamePort (lower d.scheme) d.port u.port
  path : decodedIdentity u.path = decodedIdentity d.path

theorem lowerByte_ascii {b : UInt8} (h : b < 0x80) : lowerByte b < 0x80 :=
  (mark_checks b).2.1 h

theorem textRuns_host (h : SameTarget d u) :
    TextRuns [] (hostText d.bracketed (lower d.host)) := by
  rcases h.host_text with ⟨hbracketed, hascii⟩ | ⟨hbracketed, htext, hat, hcolon⟩
  · left
    rw [hbracketed, nil_append]
    intro b hb
    simp only [hostText, ↓reduceIte, mem_append, mem_cons, not_mem_nil,
      or_false] at hb
    rcases hb with (rfl | hb) | rfl
    · decide
    · obtain ⟨a, ha, rfl⟩ := mem_map.mp hb
      exact lowerByte_ascii (hascii a ha)
    · decide
  · right
    rw [hbracketed, nil_append]
    refine ⟨isUtf8_lower htext, ?_, ?_⟩
    · exact not_mem_of_lower (lower_lower _) (by decide) hat
    · exact not_mem_of_lower (lower_lower _) (by decide) hcolon

theorem bracketed_host (h : SameTarget d u) : Encodes isHostEncodable
    (hostText d.bracketed (lower d.host)) (hostText d.bracketed (lower u.host)) :=
  h.host.hostText

theorem not_mem_hostText {bracketed : Bool} {host : Text} {b : UInt8} (h : b ∉ host)
    (hopen : b ≠ OPEN) (hclose : b ≠ CLOSE) : b ∉ hostText bracketed host := by
  cases bracketed with
  | false => exact h
  | true => simp [hostText, h, hopen, hclose]

theorem sameDecodedIdentity_normal (hd : d.Valid) (hu : u.Valid) (h : SameTarget d u) :
    sameDecodedIdentity (u.normal .carried) (d.normal .carried) = true := by
  have hport : normalPort .carried (lower u.scheme) (u.port.getD []) =
      normalPort .carried (lower d.scheme) (d.port.getD []) := by
    rw [h.scheme, h.port.normal]
  have hdigits : (d.port.getD []).all isDigit = true := by
    cases hdigits : d.port with
    | none => rfl
    | some digits => exact hd.port digits hdigits
  have hpercent : PERCENT ∉ hostText d.bracketed (lower d.host) := by
    apply not_mem_hostText _ (by decide) (by decide)
    exact not_mem_of_lower (lower_lower _) (by decide) h.host_plain
  have htokens := authorityTokensFrom_encodes (bracketed_host h)
    (normalPort_bytes .carried (lower d.scheme) hdigits).1 .nil
    (textRuns_host h) not_mem_nil hpercent
  rw [sameDecodedIdentity, urlBlobSegments_normal hu, urlBlobSegments_normal hd, hport]
  simp only [decide_eq_true_eq, UrlBlobSegments.mk.injEq, h.scheme, h.bracketed, h.path,
    authorityTokens, and_true, true_and]
  exact htokens

end Url

/-! ## Respellings -/

def isHostByte (bracketed : Bool) (b : UInt8) : Bool :=
  SPACE < b && b ≠ PERCENT && b ∉ AUTHORITY_MARKERS &&
    if bracketed then b < 0x80 else b ≠ COLON

def isPathByte (b : UInt8) : Bool := SPACE < b && b ∉ [BACKSLASH, QUESTION, HASH]

theorem path_checks (b : UInt8) :
    (¬ isBlankByte b = false → b ≠ PERCENT ∧ isAlphanumeric b = false ∧ isPathByte b = false) ∧
      (isBlankByte (Url.foldByte b) = false → isBlankByte b = false) := by
  revert b
  exact forall_byte (by decide +kernel)

/-- A URL `scheme://host[:port]/path` to enroll: the host is a name, or an address in brackets. -/
structure DenyUrl where
  scheme : Text
  bracketed : Bool
  host : Text
  port : Option Text
  path : Text
  scheme_mem : scheme ∈ AUTHORITY_SCHEMES
  host_ne : host ≠ []
  host_bytes : host.all (isHostByte bracketed) = true
  host_text : isUtf8 host = true
  port_digits : ∀ digits ∈ port, digits.all isDigit = true
  path_bytes : path.all isPathByte = true

def DenyUrl.url (deny : DenyUrl) : Url :=
  { scheme := deny.scheme
    run := [SLASH, SLASH]
    userinfo := none
    bracketed := deny.bracketed
    host := deny.host
    port := deny.port
    path := SLASH :: deny.path
    suffix := [] }

def DenyUrl.spelling (deny : DenyUrl) : Text := deny.url.spelling

/-- `raw'` is `raw` with some of its slashes written as backslashes. -/
def Backslashes (raw raw' : Text) : Prop :=
  Forall₂ (fun b b' => b' = b ∨ b = SLASH ∧ b' = BACKSLASH) raw raw'

/-- Another spelling of an enrolled URL: scheme and host in any letter case, a run of separators
of any length, userinfo, the default port spelled or left out, unreserved bytes of host and path
percent-encoded, backslashes for slashes, and a query or a fragment. A letter of the host is
encoded in its lower case, and a path is encoded where its own escapes decode. -/
structure Url.Respells (deny : DenyUrl) (u : Url) : Prop where
  scheme : lower u.scheme = deny.scheme
  run : u.run.all isSeparator = true
  userinfo : ∀ text ∈ u.userinfo, ∀ b ∈ text, b ∉ [SLASH, BACKSLASH, QUESTION, HASH]
  bracketed : u.bracketed = deny.bracketed
  host : ∃ cased, lower cased = lower deny.host ∧ Encodes isHostEncodable cased u.host
  port : SamePort deny.scheme deny.port u.port
  path : ∃ encoded, Backslashes (SLASH :: encoded) u.path ∧
    (encoded = deny.path ∨ Encodes isUnreserved deny.path encoded ∧
      ∃ decoded, decodeBytes deny.path = some decoded ∧ isUtf8 decoded = true)
  suffix : Opens [QUESTION, HASH] u.suffix

/-- A request that spells the URL between blanks, with tabs and line breaks anywhere. -/
def Respells (deny : DenyUrl) (request : Text) : Prop :=
  ∃ u lead trail, Url.Respells deny u ∧ lead.all isBlankByte = true ∧
    trail.all isBlankByte = true ∧
    request.filter (fun b => !(b = TAB || b = LF || b = CR)) = lead ++ u.spelling ++ trail

namespace DenyUrl

variable (deny : DenyUrl)

theorem lower_scheme : lower deny.scheme = deny.scheme := by
  have : ∀ scheme ∈ AUTHORITY_SCHEMES, lower scheme = scheme := by decide
  exact this _ deny.scheme_mem

theorem host_not_mem {b : UInt8} (h : isHostByte deny.bracketed b = false) : b ∉ deny.host := by
  intro hmem
  have := all_eq_true.mp deny.host_bytes b hmem
  rw [h] at this
  cases this

theorem path_not_mem {b : UInt8} (h : isPathByte b = false) : b ∉ deny.path := by
  intro hmem
  have := all_eq_true.mp deny.path_bytes b hmem
  rw [h] at this
  cases this

theorem marker_not_mem {b : UInt8} (h : b ∈ AUTHORITY_MARKERS) : b ∉ deny.host := by
  apply deny.host_not_mem
  simp [isHostByte, h]

theorem percent_not_mem : PERCENT ∉ deny.host := by
  apply deny.host_not_mem
  simp [isHostByte]

theorem colon_not_mem (h : deny.bracketed = false) : COLON ∉ deny.host := by
  apply deny.host_not_mem
  simp [isHostByte, h]

theorem url_valid : deny.url.Valid where
  scheme := by
    change lower deny.scheme ∈ _
    rw [deny.lower_scheme]
    exact deny.scheme_mem
  run := rfl
  userinfo := nofun
  host_ne := deny.host_ne
  host b hb := by
    refine ⟨fun hmarker => deny.marker_not_mem hmarker hb, fun hbracketed => ?_⟩
    rintro rfl
    exact deny.colon_not_mem hbracketed hb
  port := deny.port_digits
  path := by
    refine ⟨deny.path, rfl, fun b hb hmem => deny.path_not_mem ?_ hb⟩
    simp only [mem_cons, not_mem_nil, or_false] at hmem
    rcases hmem with rfl | rfl <;> decide
  suffix := nofun

theorem spelling_printable : ∀ b ∈ deny.spelling, SPACE < b := by
  have hletters := authorityScheme_letters deny.url_valid.scheme
  obtain ⟨-, -, -, hletters⟩ := hletters
  have hhost : ∀ b ∈ hostText deny.bracketed deny.host, SPACE < b := by
    have hhost : ∀ b ∈ deny.host, SPACE < b := by
      intro b hb
      have := all_eq_true.mp deny.host_bytes b hb
      simp only [isHostByte, Bool.and_eq_true, decide_eq_true_eq] at this
      exact this.1.1.1
    unfold hostText
    split_ifs
    · intro b hb
      simp only [mem_append, mem_cons, not_mem_nil, or_false] at hb
      rcases hb with (rfl | hb) | rfl
      · decide
      · exact hhost b hb
      · decide
    · exact hhost
  have hport : ∀ b ∈ portText deny.port, SPACE < b := by
    cases hdigits : deny.port with
    | none => exact nofun
    | some digits =>
      intro b hb
      rcases mem_cons.mp hb with rfl | hb
      · decide
      · have hdigit := all_eq_true.mp (deny.port_digits digits hdigits) b hb
        exact ((word_checks b).2.2.2 hdigit).2
  have hpath : ∀ b ∈ deny.path, SPACE < b := by
    intro b hb
    have := all_eq_true.mp deny.path_bytes b hb
    simp only [isPathByte, Bool.and_eq_true, decide_eq_true_eq] at this
    exact this.1
  intro b hb
  simp only [spelling, Url.spelling, url, Url.authority, userinfoText, mem_append,
    mem_cons, not_mem_nil, or_false, false_or] at hb
  rcases hb with hb | rfl | (rfl | rfl) | (hb | hb) | rfl | hb
  · exact (mark_checks b).2.2.1 (hletters b hb)
  · decide
  · decide
  · decide
  · exact hhost b hb
  · exact hport b hb
  · decide
  · exact hpath b hb

theorem preprocess_spelling : preprocessEgressTarget deny.spelling = deny.spelling := by
  have hfilter : deny.spelling.filter (fun b => !(b = TAB || b = LF || b = CR)) = deny.spelling := by
    rw [filter_eq_self]
    intro b hb
    exact ((mark_checks b).2.2.2 (deny.spelling_printable b hb)).1
  have hlast : ∃ b ∈ deny.url.path.getLast?, isBlankByte b = false := by
    have hpath : ∀ b ∈ deny.url.path, isBlankByte b = false := by
      intro b hb
      have hmem : b ∈ deny.spelling := by
        simp only [spelling, Url.spelling, mem_append, mem_cons]
        tauto
      exact ((mark_checks b).2.2.2 (deny.spelling_printable b hmem)).2
    have hne : deny.url.path ≠ [] := cons_ne_nil _ _
    exact ⟨_, getLast?_eq_some_getLast hne, hpath _ (getLast_mem hne)⟩
  have hauthority : BACKSLASH ∉ deny.url.authority := fun hmem =>
    Url.authority_bytes deny.url_valid BACKSLASH hmem (by decide)
  have hpath : deny.url.path.map Url.foldByte = deny.url.path := by
    apply Url.fold_plain
    exact fun hmem => deny.path_not_mem (by decide) (mem_of_ne_of_mem (by decide) hmem)
  have hurl : deny.url.preprocessed [] = deny.url := by
    simp only [Url.preprocessed, hpath]
    rfl
  have hrequest : deny.spelling.filter (fun b => !(b = TAB || b = LF || b = CR)) =
      [] ++ deny.url.spelling ++ [] := by
    rw [hfilter, nil_append, append_nil]
    rfl
  rw [Url.preprocess_spelling deny.url_valid.scheme hauthority hlast rfl hrequest, hurl]
  rfl

end DenyUrl

/-! ## The deny stands -/

theorem fold_backslashes {raw raw' : Text} (h : Backslashes raw raw') (hraw : BACKSLASH ∉ raw) :
    raw'.map Url.foldByte = raw := by
  induction h with
  | nil => rfl
  | @cons b b' raw raw' hb _ ih =>
    rw [mem_cons, not_or] at hraw
    rw [map_cons, ih hraw.2]
    rcases hb with rfl | ⟨rfl, rfl⟩
    · rw [Url.foldByte, if_neg (Ne.symm hraw.1)]
    · rfl

namespace Url.Respells

variable {deny : DenyUrl} {u : Url}

theorem host_not_mem (h : u.Respells deny) {b : UInt8} (hb : b ≠ PERCENT)
    (hplain : isAlphanumeric b = false) (hhost : b ∉ deny.host) : b ∉ u.host := by
  obtain ⟨cased, hcased, hencodes⟩ := h.host
  have hletter : isAlphabetic b = false := by
    rw [isAlphanumeric, Bool.or_eq_false_iff] at hplain
    exact hplain.1
  exact hencodes.not_mem hb hplain (not_mem_of_lower hcased hletter hhost)

theorem encoded_path (h : u.Respells deny) : ∃ encoded,
    Backslashes (SLASH :: encoded) u.path ∧
    (∀ b, b ≠ PERCENT → isAlphanumeric b = false → b ∉ deny.path → b ∉ encoded) ∧
    decodedIdentity (SLASH :: encoded) = decodedIdentity (SLASH :: deny.path) := by
  obtain ⟨encoded, hslashes, rfl | ⟨hencodes, decoded, hdecoded, htext⟩⟩ := h.path
  · exact ⟨deny.path, hslashes, fun _ _ _ hb => hb, rfl⟩
  · refine ⟨encoded, hslashes, fun b hb hplain hpath => hencodes.not_mem hb hplain hpath, ?_⟩
    have hone : isUtf8 [SLASH] = true := isUtf8_ascii (forall_mem rfl)
    have hslash : isUtf8 (SLASH :: decoded) = true := isUtf8_append hone htext
    have hdecodes : ∀ raw, decodeBytes raw = some decoded →
        decodedIdentity (SLASH :: raw) = SLASH :: decoded := by
      intro raw hraw
      apply decodedIdentity_of_decodes _ hslash
      rw [decodeBytes_cons (by decide), hraw]
      rfl
    have hsame := hencodes.decodes fun _ => unreserved_ne_percent
    rw [hdecodes deny.path hdecoded, hdecodes encoded (hsame.trans hdecoded)]

theorem preprocessed_path (h : u.Respells deny) (trail : Text) : ∃ encoded,
    (u.preprocessed trail).path = SLASH :: encoded ∧
    (∀ b ∈ encoded, b ∉ [QUESTION, HASH]) ∧ (∃ b ∈ u.path.getLast?, isBlankByte b = false) ∧
    decodedIdentity (SLASH :: encoded) = decodedIdentity (SLASH :: deny.path) := by
  obtain ⟨encoded, hslashes, hbytes, hdecodes⟩ := h.encoded_path
  have hout : ∀ b ∈ [BACKSLASH, QUESTION, HASH], b ∉ encoded := by
    intro b hb
    simp only [mem_cons, not_mem_nil, or_false] at hb
    rcases hb with rfl | rfl | rfl <;>
      exact hbytes _ (by decide) (by decide) (deny.path_not_mem (by decide))
  have hback : BACKSLASH ∉ SLASH :: encoded := by
    rw [mem_cons, not_or]
    exact ⟨by decide, hout _ (by decide)⟩
  have hfold := fold_backslashes hslashes hback
  refine ⟨encoded, hfold, fun b hb hmem => hout b (mem_cons_of_mem _ hmem) hb, ?_, hdecodes⟩
  have hprintable : ∀ b ∈ SLASH :: encoded, isBlankByte b = false := by
    intro b hb
    rcases mem_cons.mp hb with rfl | hb
    · decide
    · by_contra hblank
      have hwhite := (path_checks b).1 hblank
      exact hbytes b hwhite.1 hwhite.2.1 (deny.path_not_mem hwhite.2.2) hb
  have hne : u.path ≠ [] := by
    intro hnil
    rw [hnil] at hfold
    cases hfold
  refine ⟨_, getLast?_eq_some_getLast hne, ?_⟩
  have hmem : Url.foldByte (u.path.getLast hne) ∈ SLASH :: encoded :=
    hfold ▸ mem_map_of_mem (getLast_mem hne)
  exact (path_checks _).2 (hprintable _ hmem)

theorem valid (h : u.Respells deny) {trail : Text} (htrail : trail.all isBlankByte = true) :
    (u.preprocessed trail).Valid := by
  obtain ⟨encoded, hpath, hbytes, -, -⟩ := h.preprocessed_path trail
  refine
    { scheme := ?_
      run := isSeparator_fold h.run
      userinfo := h.userinfo
      host_ne := ?_
      host := fun b hb => ⟨fun hmarker => ?_, fun hbracketed => ?_⟩
      port := ?_
      path := ⟨encoded, hpath, hbytes⟩
      suffix := opens_fold (opens_trim h.suffix htrail) }
  · change lower u.scheme ∈ _
    rw [h.scheme]
    exact deny.scheme_mem
  · obtain ⟨cased, hcased, hencodes⟩ := h.host
    apply hencodes.ne_nil
    rintro rfl
    exact deny.host_ne (map_eq_nil_iff.mp hcased.symm)
  · have hkind : ∀ b ∈ AUTHORITY_MARKERS, b ≠ PERCENT ∧ isAlphanumeric b = false :=
      forall_mem rfl
    obtain ⟨hpercent, hplain⟩ := hkind b hmarker
    exact h.host_not_mem hpercent hplain (deny.marker_not_mem hmarker) hb
  · rintro rfl
    exact h.host_not_mem (by decide) (by decide)
      (deny.colon_not_mem (h.bracketed ▸ hbracketed)) hb
  · intro digits hdigits
    change digits ∈ u.port at hdigits
    rcases h.port with hport | ⟨-, hdefault⟩
    · exact deny.port_digits digits (hport ▸ hdigits)
    · rw [Option.mem_def] at hdigits
      rw [hdigits] at hdefault
      cases hdefault with
      | empty => rfl
      | http zeros _ => simp [all_append, show isDigit 0x30 = true from rfl, ascii]; decide
      | https zeros _ => simp [all_append, show isDigit 0x30 = true from rfl, ascii]; decide

theorem sameTarget (h : u.Respells deny) (trail : Text) :
    Url.SameTarget deny.url (u.preprocessed trail) := by
  obtain ⟨encoded, hpath, -, -, hdecodes⟩ := h.preprocessed_path trail
  obtain ⟨cased, hcased, hencodes⟩ := h.host
  refine
    { scheme := h.scheme.trans deny.lower_scheme.symm
      bracketed := h.bracketed
      host := hcased ▸ hencodes.lower
      host_plain := deny.percent_not_mem
      host_text := ?_
      port := ?_
      path := ?_ }
  · cases hbracketed : deny.bracketed with
    | false =>
      exact .inr ⟨hbracketed, deny.host_text, deny.marker_not_mem (by decide),
        deny.colon_not_mem hbracketed⟩
    | true =>
      refine .inl ⟨hbracketed, fun b hb => ?_⟩
      have := all_eq_true.mp deny.host_bytes b hb
      simp only [isHostByte, hbracketed, Bool.and_eq_true, ↓reduceIte, decide_eq_true_eq] at this
      exact this.2
  · change SamePort (lower deny.scheme) deny.port u.port
    rw [deny.lower_scheme]
    exact h.port
  · rw [hpath, hdecodes]
    rfl

end Url.Respells

theorem egressDenied_respells {deny : DenyUrl} {request : Text} {rawDenies : List Text}
    (hdeny : deny.spelling ∈ rawDenies) (h : Respells deny request) :
    egressDenied rawDenies (preprocessEgressTarget request) = true := by
  obtain ⟨u, lead, trail, hu, hlead, htrail, hrequest⟩ := h
  have hvalid := hu.valid htrail
  obtain ⟨-, -, -, hlast, -⟩ := hu.preprocessed_path trail
  have hscheme : lower u.scheme ∈ AUTHORITY_SCHEMES := hvalid.scheme
  have hauthority : BACKSLASH ∉ u.authority := fun hmem =>
    Url.authority_bytes hvalid BACKSLASH hmem (by decide)
  rw [Url.preprocess_spelling hscheme hauthority hlast hlead hrequest, egressDenied,
    any_eq_true]
  refine ⟨deny.spelling, hdeny, ?_⟩
  have hleading : hasLeadingScheme deny.spelling = true :=
    hasLeadingScheme_special deny.url_valid.scheme _
  have hform : normalizeEgressUrl deny.spelling .carried = some (deny.url.normal .carried) :=
    Url.normalizeEgressUrl_spelling deny.url_valid .carried
  simp only [deny.preprocess_spelling, hleading, ↓reduceIte, hform,
    Url.normalizeEgressUrl_spelling hvalid, Option.any_some, urlFormMatches,
    Url.sameDecodedIdentity_normal deny.url_valid hvalid (hu.sameTarget trail), Bool.or_true]

theorem after_rawDenies (unicode : Unicode) {policy : Policy} {raw : Text}
    (h : raw ∈ policy.rawDenies) (calls : List PolicyCall) :
    raw ∈ (policy.after unicode calls).rawDenies := by
  induction calls generalizing policy with
  | nil => exact h
  | cons call calls ih =>
    apply ih
    cases call with
    | grantClasses scopeRoot classes => exact h
    | revoke grantId => exact h
    | enrollDeny fs path =>
      simp only [Policy.perform, Policy.enrollDeny]
      cases canonicalizePath unicode fs path <;> exact h
    | enrollDenyTarget raw' =>
      simp only [Policy.perform, Policy.enrollDenyTarget]
      split_ifs
      · exact h
      · exact mem_append_left _ h
    | revokeDeny fs path =>
      simp only [Policy.perform, Policy.revokeDeny]
      cases canonicalizePath unicode fs path <;> exact h

/-- An enrolled target denies what matches it, in every mode and whatever else the policy is
given. -/
theorem decide_of_enrolled (unicode : Unicode) {raw request : Text} (htext : isUtf8 request = true)
    (h : ∀ rawDenies, raw ∈ rawDenies →
      egressDenied rawDenies (preprocessEgressTarget request) = true)
    (policy : Policy) (calls : List PolicyCall) (fs : Snapshot) (ctx : AdmissionContext) :
    ((policy.enrollDenyTarget raw).after unicode calls).decide unicode fs request .egress ctx =
      .deny := by
  have henrolled : raw ∈ (policy.enrollDenyTarget raw).rawDenies := by
    unfold Policy.enrollDenyTarget
    split_ifs with hmem
    · exact hmem
    · exact mem_append_right _ mem_cons_self
  have hdenied := h _ (after_rawDenies unicode henrolled calls)
  simp [Policy.decide, Policy.targetDenied, htext, hdenied]

/-- An enrolled URL denies every respelling of it, in every mode and whatever else the policy is
given. -/
theorem respelling_denied (unicode : Unicode) (deny : DenyUrl) (request : Text)
    (h : Respells deny request) (htext : isUtf8 request = true) (policy : Policy)
    (calls : List PolicyCall) (fs : Snapshot) (ctx : AdmissionContext) :
    ((policy.enrollDenyTarget deny.spelling).after unicode calls).decide unicode fs request
      .egress ctx = .deny :=
  decide_of_enrolled unicode htext (fun _ hdeny => egressDenied_respells hdeny h) policy calls fs ctx

/-! ## One respelling, and a path below the rule -/

theorem Encodes.refl {may : UInt8 → Bool} {raw : Text} (h : PERCENT ∉ raw) : Encodes may raw raw := by
  induction raw with
  | nil => exact .nil
  | cons b raw ih =>
    rw [mem_cons, not_or] at h
    exact .literal (Ne.symm h.1) (ih h.2)

def adminDeny : DenyUrl :=
  { scheme := ascii "https"
    bracketed := false
    host := ascii "evil.example"
    port := none
    path := ascii "admin"
    scheme_mem := by decide
    host_ne := by decide
    host_bytes := by decide
    host_text := isUtf8_ascii (forall_mem rfl)
    port_digits := nofun
    path_bytes := by decide }

/-- `HTTPs:/\\user@Ev%69l.example:0443\%61dmin?q`. -/
def adminRespelled : Url :=
  { scheme := ascii "HTTPs"
    run := [SLASH, BACKSLASH, SLASH]
    userinfo := some (ascii "user")
    bracketed := false
    host := ascii "Ev%69l.example"
    port := some (ascii "0443")
    path := BACKSLASH :: ascii "%61dmin"
    suffix := ascii "?q" }

theorem adminRespelled_respells : adminRespelled.Respells adminDeny where
  scheme := by decide
  run := rfl
  userinfo := by
    intro text htext
    obtain rfl := Option.some.inj htext
    exact forall_mem rfl
  bracketed := rfl
  host := by
    refine ⟨ascii "Evil.example", by decide, ?_⟩
    have hfront : Encodes isHostEncodable (ascii "Ev") (ascii "Ev") := .refl (by decide)
    have hback : Encodes isHostEncodable (ascii "l.example") (ascii "l.example") :=
      .refl (by decide)
    exact hfront.append (.encoded (b := 0x69) rfl rfl hback)
  port := .inr ⟨.absent, .https 1 rfl⟩
  path := by
    refine ⟨ascii "%61dmin", ?_, .inr ⟨?_, ascii "admin", by decide, isUtf8_ascii (forall_mem rfl)⟩⟩
    · exact .cons (.inr ⟨rfl, rfl⟩) (forall₂_same.mpr fun _ _ => .inl rfl)
    · have hback : Encodes isUnreserved (ascii "dmin") (ascii "dmin") := .refl (by decide)
      exact .encoded (b := 0x61) rfl rfl hback
  suffix := by
    intro b hb
    obtain rfl := Option.some.inj hb
    decide

/-- The text between blanks, with a tab in it. -/
theorem respelled_request_denied :
    ((Policy.fresh.enrollDenyTarget adminDeny.spelling).after plainUnicode
        [.grantClasses (ascii "/") [.egress]]).decide plainUnicode (fun _ => .missing)
      (SPACE :: TAB :: adminRespelled.spelling ++ [SPACE]) .egress yolo = .deny := by
  apply respelling_denied plainUnicode adminDeny
  · exact ⟨adminRespelled, [SPACE], [SPACE], adminRespelled_respells, rfl, rfl, by decide⟩
  · exact isUtf8_ascii (forall_mem rfl)

/-- A rule does not cover the paths below its own: `/admin` leaves `/admin/x` to the mode. -/
theorem appended_segment_allowed :
    ¬ ∀ (unicode : Unicode) (policy : Policy) (deny : DenyUrl) (segments : Text) (fs : Snapshot)
      (ctx : AdmissionContext),
      (policy.enrollDenyTarget deny.spelling).decide unicode fs
        (deny.spelling ++ SLASH :: segments) .egress ctx = .deny := by
  intro h
  have hdeny := h plainUnicode Policy.fresh adminDeny (ascii "x") (fun _ => .missing) yolo
  have htext : isUtf8 (adminDeny.spelling ++ SLASH :: ascii "x") = true :=
    isUtf8_ascii (forall_mem rfl)
  have hraw : egressDenied (Policy.fresh.enrollDenyTarget adminDeny.spelling).rawDenies
      (preprocessEgressTarget (adminDeny.spelling ++ SLASH :: ascii "x")) = false := by
    decide +kernel
  have hshape : egressFilesystemShape
      (preprocessEgressTarget (adminDeny.spelling ++ SLASH :: ascii "x")) = .notFilesystem := by
    decide +kernel
  simp [Policy.decide, Policy.targetDenied, htext, hraw, hshape, Policy.modeDecision, yolo]
    at hdeny

end Rivect.EffectPolicy
