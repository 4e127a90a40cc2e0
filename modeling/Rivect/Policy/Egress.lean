import Rivect.Policy.Text

/-! # Egress targets

The normal forms under which `src/policy.rs` compares an egress request with the enrolled raw
denies, and the filesystem path that a request may spell.
-/

namespace Rivect.EffectPolicy

/-! ## Schemes -/

/-- A scheme-shaped prefix and the bytes after its colon. -/
def splitLeadingScheme (raw : Text) : Option (Text × Text) :=
  match splitOnce COLON raw with
  | none => none
  | some (scheme, rest) =>
    match scheme with
    | [] => none
    | b :: bytes =>
      if isAlphabetic b ∧ bytes.all fun b => isAlphanumeric b || b = PLUS || b = DASH || b = DOT then
        some (scheme, rest)
      else none

/-- The schemes whose authority opens under any slash run. -/
def AUTHORITY_SCHEMES : List Text := ["http", "https", "ws", "wss", "ftp"].map ascii

def isSpecialScheme (scheme : Text) : Bool :=
  lower scheme ∈ AUTHORITY_SCHEMES ++ [ascii "file"]

def isSeparator (b : UInt8) : Bool := b = SLASH || b = BACKSLASH

/-- Two separator bytes in any mix. -/
def hasAuthorityIntro (raw : Text) : Bool := 2 ≤ raw.length && (raw.take 2).all isSeparator

/-- A host with an explicit port, unlike a drive letter. -/
def portShaped (host : Text) : Bool :=
  match splitOnce COLON host with
  | none => false
  | some (word, tail) =>
    !(word.length = 1 && word.all isAlphabetic) && (tail.isEmpty || tail.all isDigit)

/-- Whether a backslash reads as a separator. -/
def webShaped (raw : Text) : Bool :=
  let opened := match splitLeadingScheme raw with
    | some (scheme, rest) =>
      if isSpecialScheme scheme || startsWith [SLASH, SLASH] rest then
        some (isSpecialScheme scheme)
      else none
    | none => none
  opened.getD (hasAuthorityIntro raw ||
    (!startsWith [SLASH] raw &&
      let host := untilFirst raw [SLASH, BACKSLASH]
      host.contains DOT || portShaped host))

def isBlankByte (b : UInt8) : Bool := b ≤ SPACE

/-- Drops blanks at both ends. -/
def trimBlanks (raw : Text) : Text :=
  ((raw.dropWhile isBlankByte).reverse.dropWhile isBlankByte).reverse

/-- The input preprocessing before any classification. -/
def preprocessEgressTarget (raw : Text) : Text :=
  let trimmed := trimBlanks (raw.filter fun b => !(b = TAB || b = LF || b = CR))
  if webShaped trimmed then trimmed.map fun b => if b = BACKSLASH then SLASH else b else trimmed

def hasLeadingScheme (raw : Text) : Bool :=
  match splitLeadingScheme raw with
  | none => false
  | some (scheme, rest) => startsWith [SLASH, SLASH] rest || isSpecialScheme scheme

/-! ## Identity -/

/-- The decoded spelling, the raw one when the decode fails. -/
def decodedIdentity (raw : Text) : Text := (percentDecode raw).getD raw

/-- A raw delimiter of an authority, or the decoded run between two of them. -/
inductive AuthorityToken where
  | delimiter (b : UInt8)
  | run (decoded : Text)
deriving DecidableEq

/-- The tokens of an authority whose current run is `run`. -/
def authorityTokensFrom (run : Text) : Text → List AuthorityToken
  | [] => [.run (decodedIdentity run)]
  | b :: rest =>
    if b = AT ∨ b = COLON then
      .run (decodedIdentity run) :: .delimiter b :: authorityTokensFrom [] rest
    else authorityTokensFrom (run ++ [b]) rest

def authorityTokens (authority : Text) : List AuthorityToken := authorityTokensFrom [] authority

structure UrlBlobSegments where
  intro : Text
  authority : List AuthorityToken
  tail : Text
deriving DecidableEq

/-- The introduction of a URL-shaped spelling and what follows it. -/
def urlIntro (raw : Text) : Option (Text × Text) :=
  match stripPrefix [SLASH, SLASH] raw with
  | some body => some ([SLASH, SLASH], body)
  | none =>
    match splitLeadingScheme raw with
    | none => none
    | some (scheme, rest) =>
      (stripPrefix [SLASH, SLASH] rest).map fun body =>
        (scheme ++ [COLON, SLASH, SLASH], body)

def urlBlobSegments (raw : Text) : Option UrlBlobSegments :=
  (urlIntro raw).map fun parts =>
    let authority := untilFirst parts.2 [SLASH, QUESTION, HASH]
    ⟨parts.1, authorityTokens authority, decodedIdentity (parts.2.drop authority.length)⟩

/-- Whether two egress spellings name the same target. -/
def sameDecodedIdentity (left right : Text) : Bool :=
  match urlBlobSegments left, urlBlobSegments right with
  | some left, some right => left = right
  | _, _ => decodedIdentity left = decodedIdentity right

/-! ## Normal forms -/

/-- A carried scheme folds its own default port, a guessed one either web default. -/
inductive SchemeKnowledge where
  | carried
  | guessed
deriving DecidableEq

def isDefaultPort (scheme : Text) (port : ℕ) : Bool :=
  (scheme = ascii "http" && port = 80) || (scheme = ascii "https" && port = 443)

def isAnyDefaultPort (port : ℕ) : Bool := port = 80 || port = 443

/-- Host and port; brackets keep an address whole, and an empty port is no port. -/
def splitHostPort (authority : Text) : Option (Text × Text) :=
  match stripPrefix [OPEN] authority with
  | some rest =>
    (splitOnce CLOSE rest).map fun parts =>
      (OPEN :: parts.1 ++ [CLOSE], (stripPrefix [COLON] parts.2).getD [])
  | none =>
    match rsplitOnce COLON authority with
    | some (host, port) => if port.all isDigit then some (host, port) else some (authority, [])
    | none => some (authority, [])

/-- The port as a normal form writes it. -/
def normalPort (knowledge : SchemeKnowledge) (scheme port : Text) : Text :=
  if port = [] then []
  else
    match parseU16 port with
    | some number =>
      if knowledge = .carried ∧ isDefaultPort scheme number then []
      else if knowledge = .guessed ∧ isAnyDefaultPort number then []
      else COLON :: decimal number
    -- an overflowing port keeps its spelling
    | none => COLON :: port

/-- The part after the last `@`. -/
def withoutUserinfo (authority : Text) : Text :=
  ((rsplitOnce AT authority).map Prod.snd).getD authority

/-! ### Local hosts -/

/-- Numeric value of one IPv4 part. -/
def ipv4Part (part : Text) : Option ℕ :=
  let digits : Text × ℕ :=
    match stripPrefix (ascii "0x") part <|> stripPrefix (ascii "0X") part with
    | some hex => (hex, 16)
    | none => if 1 < part.length ∧ startsWith (ascii "0") part then (part.drop 1, 8) else (part, 10)
  if part = [] then none
  else if digits.1 = [] then some 0
  else parseRadix digits.2 (2 ^ 64) digits.1

/-- The four octets of an address; the last part fills the bytes that the others leave. -/
def ipv4Number (host : Text) : Option (List ℕ) := do
  let parts := split DOT host
  if 4 < parts.length then none
  else
    let numbers ← parts.mapM ipv4Part
    let heads := numbers.dropLast
    let tail ← numbers.getLast?
    let fill := 5 - numbers.length
    if (heads.any fun number => 255 < number) || 2 ^ (8 * fill) ≤ tail then none
    else some (heads ++ (List.range fill).reverse.map fun i => tail / 2 ^ (8 * i) % 256)

/-- One group of an IPv6 address. -/
def ipv6Group (group : Text) : Option ℕ :=
  if group = [] ∨ 4 < group.length then none
  else group.foldlM (fun value digit => (digitValue 16 digit).map (value * 16 + ·)) 0

/-- One octet of a dotted address inside an IPv6 address: no leading zero. -/
def dottedOctet (part : Text) : Option ℕ :=
  if part = [] ∨ 3 < part.length ∨ (1 < part.length ∧ startsWith (ascii "0") part) then none
  else (part.foldlM (fun value digit => (digitValue 10 digit).map (value * 10 + ·)) 0).filter
    (· < 256)

/-- A dotted address as the two groups it fills. -/
def dottedGroups (text : Text) : Option (List ℕ) :=
  match (split DOT text).mapM dottedOctet with
  | some [a, b, c, d] => some [a * 256 + b, c * 256 + d]
  | _ => none

/-- Groups between colons; the last may be a dotted address where `dotted` allows one. -/
def ipv6Groups (dotted : Bool) : List Text → Option (List ℕ)
  | [] => some []
  | [last] =>
    match ipv6Group last with
    | some group => some [group]
    | none => if dotted then dottedGroups last else none
  | group :: rest =>
    match ipv6Group group, ipv6Groups dotted rest with
    | some group, some groups => some (group :: groups)
    | _, _ => none

/-- The pieces around the first run of two colons. -/
def splitCompression : Text → Option (Text × Text)
  | [] => none
  | b :: rest =>
    match stripPrefix [COLON, COLON] (b :: rest) with
    | some after => some ([], after)
    | none => (splitCompression rest).map fun parts => (b :: parts.1, parts.2)

def groupsOf (dotted : Bool) (text : Text) : Option (List ℕ) :=
  if text = [] then some [] else ipv6Groups dotted (split COLON text)

/-- The eight groups of an address. -/
def parseIpv6 (text : Text) : Option (List ℕ) :=
  match splitCompression text with
  | none => (groupsOf true text).filter (·.length = 8)
  | some (head, tail) =>
    match groupsOf false head, groupsOf true tail with
    | some head, some tail =>
      if head.length + tail.length ≤ 7 then
        some (head ++ List.replicate (8 - head.length - tail.length) 0 ++ tail)
      else none
    | _, _ => none

def isIpv6Loopback (groups : List ℕ) : Bool :=
  groups = [0, 0, 0, 0, 0, 0, 0, 1] ||
    (groups.take 6 = [0, 0, 0, 0, 0, 0xffff] && (groups.drop 6).head?.any fun group =>
      group / 256 = 127)

def isLoopbackAuthority (host : Text) : Bool :=
  match (stripPrefix [OPEN] host).bind fun inner => stripPrefix [CLOSE] inner.reverse with
  | some reversed =>
    let v6 := reversed.reverse
    (parseIpv6 (((rsplitOnce PERCENT v6).map Prod.fst).getD v6)).any isIpv6Loopback
  | none => (ipv4Number host).any fun octets => octets.head? = some 127

def LOCAL_HOSTS : List Text := ["", "localhost", "localhost.localdomain"].map ascii

def FILE_INTRO : Text := ascii "file://"

/-- Local form of one file-URL authority and path. -/
def foldFileAuthority (authority path : Text) : Text :=
  let hostPort := withoutUserinfo authority
  let rawHost := ((splitHostPort hostPort).map Prod.fst).getD hostPort
  let lowered := lower ((percentDecode rawHost).getD rawHost)
  let host :=
    if lowered ∈ LOCAL_HOSTS ∨ isLoopbackAuthority lowered then []
    else (lower rawHost).flatMap fun b => if b = PERCENT then ascii "%25" else [b]
  FILE_INTRO ++ host ++ path

/-- Canonical local form of what follows `file:`. -/
def normalizeFileUrl (rest : Text) : Text :=
  let rest := untilFirst rest [QUESTION, HASH]
  match stripPrefix [SLASH, SLASH] rest with
  | none => foldFileAuthority [] rest
  | some afterIntro =>
    if SLASH ∈ afterIntro then
      let authority := untilFirst afterIntro [SLASH]
      foldFileAuthority authority (afterIntro.drop authority.length)
    else
      match (percentDecode afterIntro).filter (startsWith [SLASH]) with
      | some decoded => FILE_INTRO ++ decoded
      | none => foldFileAuthority afterIntro [SLASH]

/-- The bytes after a `file:` prefix. -/
def fileSchemeRest (raw : Text) : Option Text :=
  match splitOnce COLON raw with
  | some (scheme, rest) => if lower scheme = ascii "file" then some rest else none
  | none => none

/-- What follows the separators that open an authority. -/
def openAuthority (scheme rest : Text) : Option Text :=
  if scheme ∈ AUTHORITY_SCHEMES then some (rest.dropWhile isSeparator)
  else stripPrefix [SLASH, SLASH] rest

/-- Scheme, host, port and path of a URL, without userinfo, query and fragment. -/
def normalizeEgressUrl (raw : Text) (knowledge : SchemeKnowledge) : Option Text :=
  match fileSchemeRest raw with
  | some rest => some (normalizeFileUrl rest)
  | none =>
    match splitLeadingScheme raw with
    | none => none
    | some (rawScheme, rest) =>
      let scheme := lower rawScheme
      match openAuthority scheme rest with
      | none => none
      | some rest =>
        let authority := untilFirst rest [SLASH, QUESTION, HASH]
        let tail := rest.drop authority.length
        let path := untilFirst ((stripPrefix [SLASH] tail).getD []) [QUESTION, HASH]
        (splitHostPort (withoutUserinfo authority)).map fun parts =>
          scheme ++ [COLON, SLASH, SLASH] ++ lower parts.1 ++
            normalPort knowledge scheme parts.2 ++ SLASH :: path

/-- Authority plus path of a normalized URL. -/
def splitSeparator : Text → Option Text
  | [] => none
  | b :: rest =>
    match stripPrefix [COLON, SLASH, SLASH] (b :: rest) with
    | some after => some after
    | none => splitSeparator rest

def urlKey (normalized : Text) : Text := (splitSeparator normalized).getD normalized

/-- Retry of a schemeless spelling under the default scheme. -/
def schemelessRetry (raw : Text) : Option Text :=
  match stripPrefix [SLASH, SLASH] raw with
  | some rest =>
    normalizeEgressUrl (ascii "https://" ++ rest.dropWhile isSeparator) .guessed
  | none =>
    if raw.head?.any isSeparator then none
    else normalizeEgressUrl (ascii "https://" ++ raw) .guessed

def schemelessDenyForm (denied : Text) : Option Text :=
  if SLASH ∈ denied then schemelessRetry denied else none

def urlFormMatches (request schemeless : Option Text) (denied : Text) : Bool :=
  match request, schemeless with
  | some request, _ => sameDecodedIdentity request denied
  | none, some schemeless => sameDecodedIdentity (urlKey schemeless) (urlKey denied)
  | none, none => false

def urlKeyMatches (request schemeless folded : Option Text) (denied : Text) : Bool :=
  [request, schemeless, folded].any fun spelling =>
    spelling.any fun spelling => sameDecodedIdentity (urlKey spelling) (urlKey denied)

/-- Raw-deny consult for one preprocessed egress target. -/
def egressDenied (rawDenies : List Text) (raw : Text) : Bool :=
  let request := normalizeEgressUrl raw .carried
  let schemeless :=
    if request.isNone && !hasLeadingScheme raw then schemelessRetry raw else none
  let folded := normalizeEgressUrl raw .guessed
  rawDenies.any fun entry =>
    let denied := preprocessEgressTarget entry
    sameDecodedIdentity denied raw ||
      if hasLeadingScheme denied then
        (normalizeEgressUrl denied .carried).any (urlFormMatches request schemeless)
      else (schemelessDenyForm denied).any (urlKeyMatches request schemeless folded)

/-! ## Filesystem shape -/

inductive EgressFsShape where
  | absolute (path : Text)
  | unresolvable
  | notFilesystem
deriving DecidableEq

/-- Decoded path that a `file:` URL names. -/
def fileUrlPath (rest : Text) : Option Text :=
  match stripPrefix [SLASH, SLASH] rest with
  | none => percentDecode rest
  | some afterIntro =>
    if SLASH ∈ afterIntro then
      percentDecode (afterIntro.drop (untilFirst afterIntro [SLASH]).length)
    else
      (percentDecode afterIntro).map fun decoded =>
        if startsWith [SLASH] decoded then decoded else [SLASH]

def egressFilesystemShape (raw : Text) : EgressFsShape :=
  match fileSchemeRest raw with
  | some rest =>
    match (fileUrlPath (untilFirst rest [QUESTION, HASH])).filter (startsWith [SLASH]) with
    | some path => .absolute path
    | none => .unresolvable
  | none =>
    match percentDecode raw with
    | some path => if startsWith [SLASH] path then .absolute path else .notFilesystem
    | none =>
      if startsWith [SLASH] (percentDecodeLenient raw) then .unresolvable else .notFilesystem

end Rivect.EffectPolicy
