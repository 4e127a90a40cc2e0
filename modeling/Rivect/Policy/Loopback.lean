import Rivect.Policy.Ipv4
import Rivect.Policy.Respelling

/-! # Local hosts

The hosts that `is_loopback_authority` of `src/policy.rs` takes for the local one, and the file URLs
that a deny of a local path meets.
-/

namespace Rivect.EffectPolicy

open List

open Whatwg

/-- A host in brackets: an IPv6 address, or no host. -/
def Bracketed (host : Text) : Prop := ∃ inner, host = OPEN :: inner ++ [CLOSE]

/-- A spelling of an address in 127.0.0.0/8, without a last dot. -/
def SpellsLoopback (host : Text) : Prop :=
  host.getLast? ≠ some DOT ∧ ∃ n, ipv4Parser host = some n ∧ n / 2 ^ 24 = 127

/-- The hosts of a file URL that name this machine. -/
def LocalHost (host : Text) : Prop := host ∈ LOCAL_HOSTS ∨ SpellsLoopback host

/-! ## Loopback addresses -/

theorem isLoopbackAuthority_eq {host : Text} (h : ¬ Bracketed host) :
    isLoopbackAuthority host = (ipv4Number host).any fun octets => octets.head? = some 127 := by
  unfold isLoopbackAuthority
  split
  · rename_i reversed hreversed
    obtain ⟨inner, hinner, hclose⟩ := Option.bind_eq_some_iff.mp hreversed
    refine absurd ⟨reversed.reverse, ?_⟩ h
    have hend : inner = reversed.reverse ++ [CLOSE] := by
      rw [← reverse_reverse inner, ← stripPrefix_eq_some.mp hclose]
      simp
    rw [← stripPrefix_eq_some.mp hinner, hend]
    rfl
  · rfl

theorem ipv4NumberParser_open (rest : Text) : ipv4NumberParser (OPEN :: rest) = none := by
  have hprefix : ∀ start ∈ [ascii "0x", ascii "0X", ascii "0"], start.head? ≠ some OPEN := by decide
  have hradix : radixAndDigits (OPEN :: rest) = (10, OPEN :: rest) := by
    unfold radixAndDigits
    rw [if_neg, if_neg]
    · exact fun h => hprefix (ascii "0") (by decide) (congrArg List.head? h.2).symm
    · exact fun h => hprefix _ (mem_append_left [ascii "0"] h) rfl
  rw [ipv4NumberParser, if_neg (cons_ne_nil OPEN rest)]
  rw [hradix, if_neg]
  intro hall
  have hdigit : digit OPEN < 10 := by
    simpa using all_eq_true.mp hall OPEN mem_cons_self
  exact ((digit_checks OPEN).2 (hdigit.trans (by decide))).2 rfl

theorem unbracketed_of_accepted {host : Text} {n : ℕ} (h : ipv4Parser host = some n)
    (hdot : host.getLast? ≠ some DOT) : ¬ Bracketed host := by
  rintro ⟨inner, rfl⟩
  obtain ⟨numbers, -, hnumbers, -, -⟩ := ipv4Parser_eq_some.mp h
  rw [hostParts_eq hdot, cons_append, splitOn_cons_eq_if_modifyHead,
    if_neg (by decide)] at hnumbers
  cases hparts : (inner ++ [CLOSE]).splitOn DOT with
  | nil => exact splitOn_ne_nil DOT _ hparts
  | cons part parts =>
    rw [hparts] at hnumbers
    have hfirst := Lib.isSome_of_mapM hnumbers mem_cons_self
    rw [ipv4NumberParser_open] at hfirst
    cases hfirst

theorem head_iff {octets : List ℕ} (hlength : octets.length = 4)
    (hbyte : ∀ octet ∈ octets, octet < 256) :
    octets.head? = some 127 ↔ ipv4Bits octets / 2 ^ 24 = 127 := by
  obtain ⟨a, b, c, d, rfl⟩ := length_eq_four.mp hlength
  simp only [forall_mem_cons] at hbyte
  simp only [ipv4Bits, head?_cons, reverse_cons, reverse_nil, nil_append,
    cons_append, Nat.ofDigits_cons, Nat.ofDigits_nil, Option.some.injEq]
  omega

theorem loopback_of_spells {host : Text} (h : SpellsLoopback host) :
    isLoopbackAuthority host = true := by
  obtain ⟨hdot, n, hn, htop⟩ := h
  obtain ⟨octets, hoctets, hbits⟩ := Option.map_eq_some_iff.mp (ipv4Number_of_accepted hn hdot)
  obtain ⟨hlength, hbyte⟩ := ipv4Number_octets hoctets
  rw [isLoopbackAuthority_eq (unbracketed_of_accepted hn hdot), hoctets, Option.any_some,
    decide_eq_true_eq, head_iff hlength hbyte, hbits, htop]

theorem spells_of_loopback {host : Text} (hbracket : ¬ Bracketed host)
    (hsigned : ¬ SignedHost host) (h : isLoopbackAuthority host = true) : SpellsLoopback host := by
  rw [isLoopbackAuthority_eq hbracket, Option.any_eq_true] at h
  obtain ⟨octets, hoctets, hhead⟩ := h
  obtain ⟨hdot, hparser⟩ := accepted_of_ipv4Number hoctets hsigned
  obtain ⟨hlength, hbyte⟩ := ipv4Number_octets hoctets
  exact ⟨hdot, _, hparser, (head_iff hlength hbyte).mp (of_decide_eq_true hhead)⟩

/-! ## File URLs -/

/-- The host of a file authority as it is written. -/
def rawFileHost (authority : Text) : Text :=
  let hostPort := withoutUserinfo authority
  ((splitHostPort hostPort).map Prod.fst).getD hostPort

/-- The host as the test for the local one reads it. -/
def fileHost (authority : Text) : Text :=
  lower ((percentDecode (rawFileHost authority)).getD (rawFileHost authority))

/-- The host as the normal form keeps it where it is not the local one. -/
def keptHost (authority : Text) : Text :=
  (lower (rawFileHost authority)).flatMap fun b => if b = PERCENT then ascii "%25" else [b]

/-- A file URL with an authority, its path behind a slash. -/
structure FileUrl where
  scheme : Text
  authority : Text
  path : Text
  suffix : Text
  scheme_eq : lower scheme = ascii "file"
  authority_bytes : ∀ b ∈ authority, b ∉ [SLASH, QUESTION, HASH]
  path_eq : ∃ rest, path = SLASH :: rest ∧ ∀ b ∈ rest, b ∉ [QUESTION, HASH]
  suffix_opens : Opens [QUESTION, HASH] suffix

namespace FileUrl

variable (u : FileUrl)

def spelling : Text :=
  u.scheme ++ COLON :: ([SLASH, SLASH] ++ (u.authority ++ (u.path ++ u.suffix)))

/-- The normal form of the URL. -/
def normal : Text := foldFileAuthority u.authority u.path

theorem letters : Letters u.scheme := by
  refine letters_of_lower ?_ ?_
  · intro hnil
    have := u.scheme_eq
    rw [hnil] at this
    exact absurd this (by decide)
  · rw [u.scheme_eq]
    decide

theorem hasLeadingScheme_spelling : hasLeadingScheme u.spelling = true := by
  rw [spelling, hasLeadingScheme, splitLeadingScheme_letters u.letters]
  simp [isSpecialScheme, u.scheme_eq]

theorem opens_path (rest : Text) : Opens [SLASH, QUESTION, HASH] (u.path ++ rest) := by
  obtain ⟨path, hpath, -⟩ := u.path_eq
  rw [hpath]
  intro b hb
  obtain rfl := Option.some.inj hb
  decide

theorem normalizeEgressUrl_spelling (knowledge : SchemeKnowledge) :
    normalizeEgressUrl u.spelling knowledge = some u.normal := by
  obtain ⟨path, hpath, hbytes⟩ := u.path_eq
  have hrest : fileSchemeRest u.spelling =
      some ([SLASH, SLASH] ++ (u.authority ++ (u.path ++ u.suffix))) := by
    rw [fileSchemeRest, spelling, splitOnce_append (u.letters.not_mem (by decide))]
    exact if_pos u.scheme_eq
  have huntil : untilFirst ([SLASH, SLASH] ++ (u.authority ++ (u.path ++ u.suffix)))
      [QUESTION, HASH] = [SLASH, SLASH] ++ (u.authority ++ u.path) := by
    rw [← append_assoc u.authority, ← append_assoc]
    apply untilFirst_append _ u.suffix_opens
    intro b hb hmarker
    rcases mem_append.mp hb with hb | hb
    · have hslash : ∀ b ∈ [SLASH, SLASH], b ∉ [QUESTION, HASH] := forall_mem rfl
      exact hslash b hb hmarker
    · rcases mem_append.mp hb with hb | hb
      · exact u.authority_bytes b hb (mem_cons_of_mem SLASH hmarker)
      · rw [hpath] at hb
        rcases mem_cons.mp hb with rfl | hb
        · exact absurd hmarker (by decide)
        · exact hbytes b hb hmarker
  have hauthority : untilFirst (u.authority ++ u.path) [SLASH] = u.authority := by
    apply untilFirst_append
    · intro b hb hslash
      exact u.authority_bytes b hb (mem_append_left [QUESTION, HASH] hslash)
    · rw [hpath]
      intro b hb
      obtain rfl := Option.some.inj hb
      exact mem_cons_self
  have hslash : SLASH ∈ u.authority ++ u.path := by
    rw [hpath]
    exact mem_append_right _ mem_cons_self
  unfold normalizeEgressUrl
  simp only [hrest, normalizeFileUrl, huntil, stripPrefix_append, if_pos hslash, hauthority,
    drop_left, normal]

end FileUrl

/-! ## Normal forms -/

theorem foldFileAuthority_eq (authority path : Text) : foldFileAuthority authority path =
    FILE_INTRO ++ (if fileHost authority ∈ LOCAL_HOSTS ∨ isLoopbackAuthority (fileHost authority)
      then [] else keptHost authority) ++ path := rfl

theorem foldFileAuthority_local {authority : Text} (h : LocalHost (fileHost authority))
    (path : Text) : foldFileAuthority authority path = FILE_INTRO ++ path := by
  rw [foldFileAuthority_eq, if_pos (h.imp_right loopback_of_spells), append_nil]

theorem foldFileAuthority_other {authority : Text} (hbracket : ¬ Bracketed (fileHost authority))
    (hsigned : ¬ SignedHost (fileHost authority)) (h : ¬ LocalHost (fileHost authority))
    (path : Text) : foldFileAuthority authority path = FILE_INTRO ++ keptHost authority ++ path := by
  rw [foldFileAuthority_eq, if_neg]
  rintro (hlocal | hloopback)
  · exact h (.inl hlocal)
  · exact h (.inr (spells_of_loopback hbracket hsigned hloopback))

theorem withoutUserinfo_subset (authority : Text) : withoutUserinfo authority ⊆ authority := by
  unfold withoutUserinfo
  cases hsplit : rsplitOnce AT authority with
  | none => exact fun _ hb => hb
  | some parts =>
    rw [append_of_rsplitOnce hsplit]
    exact fun _ hb => mem_append_right _ (mem_cons_of_mem AT hb)

theorem splitHostPort_subset {authority host port : Text}
    (h : splitHostPort authority = some (host, port)) : host ⊆ authority := by
  unfold splitHostPort at h
  split at h
  · rename_i rest hrest
    obtain ⟨⟨inner, after⟩, hsplit, hparts⟩ := Option.map_eq_some_iff.mp h
    obtain ⟨rfl, -⟩ := Prod.mk.inj hparts
    rw [← stripPrefix_eq_some.mp hrest, append_of_splitOnce hsplit]
    intro b hb
    simp only [mem_append, mem_cons, not_mem_nil, or_false] at hb ⊢
    tauto
  · split at h
    · rename_i host' port' hsplit
      split_ifs at h with hdigits
      · obtain ⟨rfl, -⟩ := Prod.mk.inj (Option.some.inj h)
        rw [append_of_rsplitOnce hsplit]
        exact subset_append_left _ _
      · obtain ⟨rfl, -⟩ := Prod.mk.inj (Option.some.inj h)
        exact fun _ hb => hb
    · obtain ⟨rfl, -⟩ := Prod.mk.inj (Option.some.inj h)
      exact fun _ hb => hb

theorem rawFileHost_subset (authority : Text) : rawFileHost authority ⊆ authority := by
  intro b hb
  apply withoutUserinfo_subset authority
  unfold rawFileHost at hb
  cases hsplit : splitHostPort (withoutUserinfo authority) with
  | none => simpa [hsplit] using hb
  | some parts =>
    apply splitHostPort_subset hsplit
    simpa [hsplit] using hb

theorem keptHost_bytes {authority : Text} (h : ∀ b ∈ authority, b ∉ [SLASH, QUESTION, HASH]) :
    ∀ b ∈ keptHost authority, b ∉ [SLASH, QUESTION, HASH] := by
  have hescape : ∀ b ∈ ascii "%25", b ∉ [SLASH, QUESTION, HASH] := forall_mem rfl
  intro b hb hmarker
  obtain ⟨c, hc, hb⟩ := mem_flatMap.mp hb
  split_ifs at hb
  · exact hescape b hb hmarker
  · obtain rfl := mem_singleton.mp hb
    refine not_mem_of_lower (lower_lower _) ((mark_checks b).1 hmarker).2 ?_ hc
    exact fun hraw => h b (rawFileHost_subset authority hraw) hmarker

theorem keptHost_ne {authority : Text} (h : fileHost authority ≠ []) : keptHost authority ≠ [] := by
  cases hraw : rawFileHost authority with
  | nil =>
    rw [fileHost, hraw] at h
    exact absurd rfl h
  | cons b raw =>
    rw [keptHost, hraw, lower, map_cons, flatMap_cons]
    intro hnil
    have hhead := (append_eq_nil_iff.mp hnil).1
    split_ifs at hhead
    cases hhead

/-! ## The identity comparison -/

theorem decodeBytes_ne {b : UInt8} {raw : Text} : decodeBytes (b :: raw) ≠ some [] := by
  by_cases hb : b = PERCENT
  · rw [decodeBytes.eq_def, hb]
    cases raw with
    -- An escape cut off by the end of the text decodes to nothing at all.
    | nil => exact (Option.some_ne_none []).symm
    | cons high raw =>
      cases raw with
      | nil => exact (Option.some_ne_none []).symm
      | cons low rest =>
        dsimp only
        cases escaped high low <;> cases decodeBytes rest <;> simp
  · rw [decodeBytes_cons hb]
    simp

theorem decodedIdentity_ne {b : UInt8} {raw : Text} : decodedIdentity (b :: raw) ≠ [] := by
  unfold decodedIdentity
  cases hdecode : percentDecode (b :: raw) with
  | none => exact cons_ne_nil b raw
  | some decoded =>
    rintro rfl
    unfold percentDecode at hdecode
    split_ifs at hdecode
    · exact decodeBytes_ne (Option.filter_eq_some_iff.mp hdecode).1
    · cases hdecode

theorem authorityTokensFrom_ne {run raw : Text} (h : run ++ raw ≠ []) :
    authorityTokensFrom run raw ≠ [.run []] := by
  induction raw generalizing run with
  | nil =>
    cases run with
    | nil => exact absurd rfl h
    | cons b run => simpa [authorityTokensFrom] using decodedIdentity_ne
  | cons b raw ih =>
    rw [authorityTokensFrom]
    split_ifs
    · simp
    · apply ih
      simp

theorem sameDecodedIdentity_letters {left right authority authority' rest rest' : Text}
    (hleft : Letters left) (hright : Letters right)
    (h : ∀ b ∈ authority, b ∉ [SLASH, QUESTION, HASH])
    (h' : ∀ b ∈ authority', b ∉ [SLASH, QUESTION, HASH])
    (hrest : Opens [SLASH, QUESTION, HASH] rest) (hrest' : Opens [SLASH, QUESTION, HASH] rest') :
    sameDecodedIdentity (left ++ COLON :: ([SLASH, SLASH] ++ (authority ++ rest)))
        (right ++ COLON :: ([SLASH, SLASH] ++ (authority' ++ rest'))) = true ↔
      left = right ∧ authorityTokens authority = authorityTokens authority' ∧
        decodedIdentity rest = decodedIdentity rest' := by
  rw [sameDecodedIdentity, urlBlobSegments_letters hleft h hrest,
    urlBlobSegments_letters hright h' hrest']
  simp

theorem sameDecodedIdentity_bare {left right authority rest rest' : Text} (hleft : Letters left)
    (hright : Letters right) (hne : authority ≠ [])
    (h : ∀ b ∈ authority, b ∉ [SLASH, QUESTION, HASH])
    (hrest : Opens [SLASH, QUESTION, HASH] rest) (hrest' : Opens [SLASH, QUESTION, HASH] rest') :
    sameDecodedIdentity (left ++ COLON :: ([SLASH, SLASH] ++ (authority ++ rest)))
      (right ++ COLON :: ([SLASH, SLASH] ++ ([] ++ rest'))) = false := by
  rw [Bool.eq_false_iff]
  intro hsame
  rw [sameDecodedIdentity_letters hleft hright h (forall_mem_nil _) hrest hrest'] at hsame
  exact authorityTokensFrom_ne (by simpa using hne) hsame.2.1

theorem sameDecodedIdentity_symm (left right : Text) :
    sameDecodedIdentity left right = sameDecodedIdentity right left := by
  unfold sameDecodedIdentity
  cases urlBlobSegments left <;> cases urlBlobSegments right <;> simp [eq_comm]

/-! ## Denies of local paths -/

namespace FileUrl

variable {d u : FileUrl}

def host (u : FileUrl) : Text := fileHost u.authority

theorem letters_file : Letters (ascii "file") := letters_of_lower (by decide) (by decide)

theorem fileIntro_eq : FILE_INTRO = ascii "file" ++ [COLON, SLASH, SLASH] := by decide

theorem normal_local (h : LocalHost u.host) :
    u.normal = ascii "file" ++ COLON :: ([SLASH, SLASH] ++ ([] ++ u.path)) := by
  rw [normal, foldFileAuthority_local h, fileIntro_eq]
  rfl

theorem normal_other (hbracket : ¬ Bracketed u.host) (hsigned : ¬ SignedHost u.host)
    (h : ¬ LocalHost u.host) :
    u.normal = ascii "file" ++ COLON :: ([SLASH, SLASH] ++ (keptHost u.authority ++ u.path)) := by
  rw [normal, foldFileAuthority_other hbracket hsigned h, fileIntro_eq]
  simp

theorem path_opens (u : FileUrl) : Opens [SLASH, QUESTION, HASH] u.path := by
  simpa using u.opens_path []

theorem egressDenied_local {rawDenies : List Text} {entry : Text} (hentry : entry ∈ rawDenies)
    (hd : preprocessEgressTarget entry = d.spelling) (hlocal : LocalHost d.host)
    (hlocal' : LocalHost u.host) (hpath : decodedIdentity u.path = decodedIdentity d.path) :
    egressDenied rawDenies u.spelling = true := by
  have hsame : sameDecodedIdentity u.normal d.normal = true := by
    rw [normal_local hlocal, normal_local hlocal', sameDecodedIdentity_letters letters_file
      letters_file (forall_mem_nil _) (forall_mem_nil _) u.path_opens d.path_opens]
    exact ⟨rfl, rfl, hpath⟩
  rw [egressDenied, any_eq_true]
  refine ⟨entry, hentry, ?_⟩
  simp only [hd, hasLeadingScheme_spelling, ↓reduceIte, normalizeEgressUrl_spelling,
    Option.any_some, urlFormMatches, hsame, Bool.or_true]

theorem egressDenied_other {rawDenies : List Text}
    (hbare : ∀ entry ∈ rawDenies, ∃ d : FileUrl,
      preprocessEgressTarget entry = d.spelling ∧ d.authority = [])
    (hbracket : ¬ Bracketed u.host) (hsigned : ¬ SignedHost u.host) (h : ¬ LocalHost u.host) :
    egressDenied rawDenies u.spelling = false := by
  have hempty : fileHost [] = [] := by decide
  have hlocal : LocalHost [] := .inl (by decide)
  have hhost : u.host ≠ [] := fun hnil => h (hnil ▸ hlocal)
  have hauthority : u.authority ≠ [] := by
    intro hnil
    rw [host, hnil] at hhost
    exact hhost hempty
  rw [egressDenied, any_eq_false]
  intro entry hentry
  obtain ⟨d, hd, hd'⟩ := hbare entry hentry
  have hraw : sameDecodedIdentity d.spelling u.spelling = false := by
    rw [sameDecodedIdentity_symm, spelling, spelling, hd']
    exact sameDecodedIdentity_bare u.letters d.letters hauthority u.authority_bytes
      (u.opens_path _) (d.opens_path _)
  have hnormal : sameDecodedIdentity u.normal d.normal = false := by
    have hlocal' : LocalHost d.host := by
      rw [host, hd', hempty]
      exact hlocal
    rw [normal_local hlocal', normal_other hbracket hsigned h]
    exact sameDecodedIdentity_bare letters_file letters_file (keptHost_ne hhost)
      (keptHost_bytes u.authority_bytes) u.path_opens d.path_opens
  simp only [hd, hasLeadingScheme_spelling, ↓reduceIte, normalizeEgressUrl_spelling,
    Option.any_some, urlFormMatches, hraw, hnormal, Bool.or_self, Bool.false_eq_true,
    not_false_eq_true]

end FileUrl

/-- What the policy makes of host texts that the reference reads as IPv4 addresses. -/
structure Ipv4Hosts (unicode : Unicode) : Prop where
  octets : ∀ host octets, ipv4Number host = some octets →
    octets.length = 4 ∧ ∀ octet ∈ octets, octet < 256
  /-- The parser of the code is the reference without a last dot, plus signs left out. -/
  reference : ∀ host n, ¬ SignedHost host →
    ((ipv4Number host).map ipv4Bits = some n ↔
      host.getLast? ≠ some DOT ∧ ipv4Parser host = some n)
  loopback : ∀ host, ¬ Bracketed host → ¬ SignedHost host →
    (isLoopbackAuthority host = true ↔ SpellsLoopback host)
  /-- A deny of a local file meets it behind every local host. -/
  denies : ∀ (policy : Policy) (entry request : Text) (d u : FileUrl) (calls : List PolicyCall)
    (fs : Snapshot) (ctx : AdmissionContext), preprocessEgressTarget entry = d.spelling →
    preprocessEgressTarget request = u.spelling → isUtf8 request = true →
    LocalHost d.host → LocalHost u.host → decodedIdentity u.path = decodedIdentity d.path →
    ((policy.enrollDenyTarget entry).after unicode calls).decide unicode fs request .egress ctx =
      .deny
  /-- Denies of local files meet no URL with another host. -/
  spares : ∀ (rawDenies : List Text) (request : Text) (u : FileUrl),
    (∀ entry ∈ rawDenies, ∃ d : FileUrl,
      preprocessEgressTarget entry = d.spelling ∧ d.authority = []) →
    preprocessEgressTarget request = u.spelling → ¬ Bracketed u.host → ¬ SignedHost u.host →
    ¬ LocalHost u.host → egressDenied rawDenies (preprocessEgressTarget request) = false

theorem ipv4_hosts (unicode : Unicode) : Ipv4Hosts unicode where
  octets _ _ h := ipv4Number_octets h
  reference host n hsigned := by
    constructor
    · intro h
      obtain ⟨octets, hoctets, rfl⟩ := Option.map_eq_some_iff.mp h
      exact accepted_of_ipv4Number hoctets hsigned
    · exact fun h => ipv4Number_of_accepted h.2 h.1
  loopback host hbracket hsigned :=
    ⟨spells_of_loopback hbracket hsigned, loopback_of_spells⟩
  denies policy entry request d u calls fs ctx hentry hrequest htext hlocal hlocal' hpath := by
    apply decide_of_enrolled unicode htext
    intro rawDenies hmem
    rw [hrequest]
    exact FileUrl.egressDenied_local hmem hentry hlocal hlocal' hpath
  spares rawDenies request u hbare hrequest hbracket hsigned h := by
    rw [hrequest]
    exact FileUrl.egressDenied_other hbare hbracket hsigned h

/-! ## One spelling, a last dot and a web host -/

/-- `FILE:///abs`. -/
def localAbs : FileUrl :=
  { scheme := ascii "FILE"
    authority := []
    path := ascii "/abs"
    suffix := []
    scheme_eq := by decide
    authority_bytes := forall_mem_nil _
    path_eq := ⟨ascii "abs", rfl, forall_mem rfl⟩
    suffix_opens := nofun }

/-- `file://user@0X7f%2e1:80/%61bs?q`. -/
def spelledAbs : FileUrl :=
  { scheme := ascii "file"
    authority := ascii "user@0X7f%2e1:80"
    path := ascii "/%61bs"
    suffix := ascii "?q"
    scheme_eq := by decide
    authority_bytes := forall_mem rfl
    path_eq := ⟨ascii "%61bs", rfl, forall_mem rfl⟩
    suffix_opens := by
      intro b hb
      obtain rfl := Option.some.inj hb
      decide }

theorem spelled_loopback_denied :
    ((Policy.fresh.enrollDenyTarget localAbs.spelling).after plainUnicode
        [.grantClasses (ascii "/") [.egress]]).decide plainUnicode (fun _ => .missing)
      spelledAbs.spelling .egress yolo = .deny := by
  have hhost : spelledAbs.host = ascii "0x7f.1" := by decide +kernel
  have hspells : SpellsLoopback (ascii "0x7f.1") :=
    ⟨by decide, 0x7f000001, by decide +kernel, by norm_num⟩
  apply (ipv4_hosts plainUnicode).denies _ _ _ localAbs spelledAbs
  · decide +kernel
  · decide +kernel
  · exact isUtf8_ascii (forall_mem rfl)
  · exact .inl (by decide)
  · rw [hhost]
    exact .inr hspells
  · decide +kernel

/-- A last dot is a part without a number to the code, and the host of a web URL is compared as it
is spelled. -/
theorem last_dot_no_address :
    (¬ ∀ host n, (ipv4Number host).map ipv4Bits = some n ↔ ipv4Parser host = some n) ∧
      ipv4Parser (ascii "127.1") = ipv4Parser (ascii "127.0.0.1") ∧
      egressDenied [ascii "http://127.0.0.1/"] (preprocessEgressTarget (ascii "http://127.1/")) =
        false := by
  refine ⟨fun h => ?_, by decide +kernel, by decide +kernel⟩
  have hparser : ipv4Parser (ascii "127.0.0.1.") = some 0x7f000001 := by decide +kernel
  have hnumber : ipv4Number (ascii "127.0.0.1.") = none := by decide +kernel
  have hsome := (h (ascii "127.0.0.1.") 0x7f000001).mpr hparser
  rw [hnumber] at hsome
  cases hsome

end Rivect.EffectPolicy
