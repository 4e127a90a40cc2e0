import Mathlib.Data.List.DropRight
import Rivect.Policy.Encoding

/-! # URLs put together from parts

A spelling of a web URL as its parts, and what the preprocessing, the normal form and the
identity comparison of `src/policy.rs` make of them.
-/

namespace Rivect.EffectPolicy

open List

/-- The parts of a URL. The run of separators stands between the colon and the authority, the path
opens with a separator and the suffix is the query and the fragment. -/
structure Url where
  scheme : Text
  run : Text
  userinfo : Option Text
  bracketed : Bool
  host : Text
  port : Option Text
  path : Text
  suffix : Text
deriving DecidableEq

def hostText (bracketed : Bool) (host : Text) : Text :=
  if bracketed then OPEN :: host ++ [CLOSE] else host

def portText : Option Text → Text
  | none => []
  | some digits => COLON :: digits

def userinfoText : Option Text → Text
  | none => []
  | some userinfo => userinfo ++ [AT]

def Url.authority (u : Url) : Text :=
  userinfoText u.userinfo ++ (hostText u.bracketed u.host ++ portText u.port)

def Url.spelling (u : Url) : Text :=
  u.scheme ++ COLON :: (u.run ++ (u.authority ++ (u.path ++ u.suffix)))

/-- The bytes that end a part of the authority before its time. -/
def AUTHORITY_MARKERS : List UInt8 := [SLASH, BACKSLASH, QUESTION, HASH, AT, OPEN, CLOSE]

/-- A URL with an authority, its path behind one slash. -/
structure Url.Valid (u : Url) : Prop where
  scheme : lower u.scheme ∈ AUTHORITY_SCHEMES
  run : u.run.all isSeparator = true
  userinfo : ∀ text ∈ u.userinfo, ∀ b ∈ text, b ∉ [SLASH, BACKSLASH, QUESTION, HASH]
  host_ne : u.host ≠ []
  host : ∀ b ∈ u.host, b ∉ AUTHORITY_MARKERS ∧ (u.bracketed = false → b ≠ COLON)
  port : ∀ digits ∈ u.port, digits.all isDigit = true
  path : ∃ rest, u.path = SLASH :: rest ∧ ∀ b ∈ rest, b ∉ [QUESTION, HASH]
  suffix : Opens [QUESTION, HASH] u.suffix

/-- The normal form of the URL. -/
def Url.normal (u : Url) (knowledge : SchemeKnowledge) : Text :=
  lower u.scheme ++ [COLON, SLASH, SLASH] ++ (lower (hostText u.bracketed u.host) ++
    normalPort knowledge (lower u.scheme) (u.port.getD []) ++ u.path)

/-! ## Schemes -/

theorem letter_checks (b : UInt8) :
    (isLower (lowerByte b) → isAlphabetic b) ∧ (isAlphabetic b → isBlankByte b = false) ∧
      (b ∈ [QUESTION, HASH] → isBlankByte b = false) := by
  revert b
  exact forall_byte (by decide +kernel)

/-- A scheme of letters. -/
def Letters (scheme : Text) : Prop := ∃ b bytes, scheme = b :: bytes ∧ ∀ a ∈ scheme, isAlphabetic a

theorem letters_of_lower {scheme : Text} (hne : scheme ≠ []) (h : (lower scheme).all isLower = true) :
    Letters scheme := by
  rw [all_eq_true] at h
  cases scheme with
  | nil => exact absurd rfl hne
  | cons b bytes =>
    refine ⟨b, bytes, rfl, fun a ha => ?_⟩
    exact (letter_checks a).1 (h _ (mem_map_of_mem ha))

theorem authorityScheme_letters {scheme : Text} (h : lower scheme ∈ AUTHORITY_SCHEMES) :
    Letters scheme := by
  have hletters : ∀ raw ∈ AUTHORITY_SCHEMES, raw ≠ [] ∧ raw.all isLower := forall_mem rfl
  obtain ⟨hne, hlower⟩ := hletters _ h
  refine letters_of_lower ?_ hlower
  rintro rfl
  exact hne rfl

theorem Letters.not_mem {scheme : Text} (h : Letters scheme) {b : UInt8}
    (hb : isAlphabetic b = false) : b ∉ scheme := by
  obtain ⟨_, _, _, hletters⟩ := h
  intro hmem
  have := hletters b hmem
  rw [hb] at this
  cases this

theorem splitLeadingScheme_letters {scheme : Text} (h : Letters scheme) (rest : Text) :
    splitLeadingScheme (scheme ++ COLON :: rest) = some (scheme, rest) := by
  have hcolon := h.not_mem (b := COLON) (by decide)
  obtain ⟨b, bytes, rfl, hletters⟩ := h
  rw [splitLeadingScheme, splitOnce_append hcolon]
  have hbytes : bytes.all fun b => isAlphanumeric b || b = PLUS || b = DASH || b = DOT := by
    rw [all_eq_true]
    intro a ha
    simp [isAlphanumeric, hletters a (mem_cons_of_mem b ha)]
  exact if_pos ⟨hletters b mem_cons_self, hbytes⟩

theorem urlBlobSegments_letters {scheme authority rest : Text} (h : Letters scheme)
    (hauthority : ∀ b ∈ authority, b ∉ [SLASH, QUESTION, HASH])
    (hrest : Opens [SLASH, QUESTION, HASH] rest) :
    urlBlobSegments (scheme ++ COLON :: ([SLASH, SLASH] ++ (authority ++ rest))) =
      some ⟨scheme ++ [COLON, SLASH, SLASH], authorityTokens authority, decodedIdentity rest⟩ := by
  have hslash := h.not_mem (b := SLASH) (by decide)
  have hsplit := splitLeadingScheme_letters h ([SLASH, SLASH] ++ (authority ++ rest))
  obtain ⟨b, bytes, rfl, -⟩ := h
  have hstrip : stripPrefix [SLASH, SLASH]
      (b :: bytes ++ COLON :: ([SLASH, SLASH] ++ (authority ++ rest))) = none := by
    apply stripPrefix_cons_ne
    rintro rfl
    exact hslash mem_cons_self
  have hintro : urlIntro (b :: bytes ++ COLON :: ([SLASH, SLASH] ++ (authority ++ rest))) =
      some (b :: bytes ++ [COLON, SLASH, SLASH], authority ++ rest) := by
    simp only [urlIntro, hstrip, hsplit, stripPrefix_append, Option.map_some]
  rw [urlBlobSegments, hintro, Option.map_some]
  simp only [untilFirst_append hauthority hrest, drop_left]

theorem isSpecialScheme_of_authority {scheme : Text} (h : lower scheme ∈ AUTHORITY_SCHEMES) :
    isSpecialScheme scheme = true := by
  simp [isSpecialScheme, h]

theorem webShaped_special {scheme : Text} (h : lower scheme ∈ AUTHORITY_SCHEMES) (rest : Text) :
    webShaped (scheme ++ COLON :: rest) = true := by
  simp [webShaped, splitLeadingScheme_letters (authorityScheme_letters h), isSpecialScheme_of_authority h]

theorem hasLeadingScheme_special {scheme : Text} (h : lower scheme ∈ AUTHORITY_SCHEMES)
    (rest : Text) : hasLeadingScheme (scheme ++ COLON :: rest) = true := by
  simp [hasLeadingScheme, splitLeadingScheme_letters (authorityScheme_letters h), isSpecialScheme_of_authority h]

theorem fileSchemeRest_special {scheme : Text} (h : lower scheme ∈ AUTHORITY_SCHEMES)
    (rest : Text) : fileSchemeRest (scheme ++ COLON :: rest) = none := by
  have hfile : lower scheme ≠ ascii "file" := by
    have : ∀ raw ∈ AUTHORITY_SCHEMES, raw ≠ ascii "file" := by decide
    exact this _ h
  rw [fileSchemeRest, splitOnce_append ((authorityScheme_letters h).not_mem (by decide))]
  simp [hfile]

/-! ## The authority -/

namespace Url

variable {u : Url}

theorem not_mem_port (h : u.Valid) {b : UInt8} (hb : b ≠ COLON) (hdigit : isDigit b = false) :
    b ∉ portText u.port := by
  cases hport : u.port with
  | none => exact not_mem_nil
  | some digits =>
    intro hmem
    rcases mem_cons.mp hmem with rfl | hmem
    · exact hb rfl
    · have := all_eq_true.mp (h.port digits hport) b hmem
      rw [hdigit] at this
      cases this

theorem not_mem_hostPort (h : u.Valid) {b : UInt8} (hb : b ∈ [SLASH, BACKSLASH, QUESTION, HASH, AT]) :
    b ∉ hostText u.bracketed u.host ++ portText u.port := by
  have hkind : ∀ b ∈ [SLASH, BACKSLASH, QUESTION, HASH, AT],
      b ∈ AUTHORITY_MARKERS ∧ b ≠ COLON ∧ isDigit b = false ∧ b ≠ OPEN ∧ b ≠ CLOSE :=
    forall_mem rfl
  obtain ⟨hmarker, hcolon, hdigit, hopen, hclose⟩ := hkind b hb
  have hhost : b ∉ u.host := fun hmem => (h.host b hmem).1 hmarker
  rw [mem_append, not_or]
  refine ⟨?_, not_mem_port h hcolon hdigit⟩
  unfold hostText
  split_ifs
  · simp [hhost, hopen, hclose]
  · exact hhost

theorem authority_bytes (h : u.Valid) :
    ∀ b ∈ u.authority, b ∉ [SLASH, BACKSLASH, QUESTION, HASH] := by
  intro b hb hmarker
  rcases mem_append.mp hb with hb | hb
  · cases huser : u.userinfo with
    | none =>
      rw [huser] at hb
      exact not_mem_nil hb
    | some text =>
      rw [huser, userinfoText, mem_append, mem_singleton] at hb
      rcases hb with hb | rfl
      · exact h.userinfo text huser b hb hmarker
      · exact absurd hmarker (by decide)
  · exact not_mem_hostPort h (mem_append_left [AT] hmarker) hb

theorem withoutUserinfo_authority (h : u.Valid) :
    withoutUserinfo u.authority = hostText u.bracketed u.host ++ portText u.port := by
  have hat := not_mem_hostPort h (b := AT) (by decide)
  cases huser : u.userinfo with
  | none =>
    rw [authority, huser, userinfoText, nil_append, withoutUserinfo, rsplitOnce_none hat]
    rfl
  | some text =>
    rw [authority, huser, userinfoText, append_assoc, singleton_append, withoutUserinfo,
      rsplitOnce_append hat]
    rfl

theorem splitHostPort_hostPort (h : u.Valid) :
    splitHostPort (hostText u.bracketed u.host ++ portText u.port) =
      some (hostText u.bracketed u.host, u.port.getD []) := by
  cases hbracketed : u.bracketed with
  | true =>
    have hclose : CLOSE ∉ u.host := fun hmem => (h.host CLOSE hmem).1 (by decide)
    have hsplit : splitOnce CLOSE (u.host ++ CLOSE :: portText u.port) =
        some (u.host, portText u.port) := splitOnce_append hclose _
    have hopen : stripPrefix [OPEN] (OPEN :: (u.host ++ CLOSE :: portText u.port)) =
        some (u.host ++ CLOSE :: portText u.port) := stripPrefix_append [OPEN] _
    simp only [hostText, ↓reduceIte, cons_append, append_assoc, nil_append,
      splitHostPort, hopen, hsplit, Option.map_some]
    cases u.port with
    | none => rfl
    | some digits =>
      have hcolon : stripPrefix [COLON] (portText (some digits)) = some digits :=
        stripPrefix_append [COLON] digits
      rw [hcolon]
  | false =>
    have hcolon : COLON ∉ u.host := fun hmem => (h.host COLON hmem).2 hbracketed rfl
    have hopen : stripPrefix [OPEN] (u.host ++ portText u.port) = none := by
      cases hhost : u.host with
      | nil => exact absurd hhost h.host_ne
      | cons b bytes =>
        apply stripPrefix_cons_ne
        rintro rfl
        exact (h.host OPEN (by rw [hhost]; exact mem_cons_self)).1 (by decide)
    simp only [hostText, Bool.false_eq_true, ↓reduceIte, splitHostPort, hopen]
    cases hport : u.port with
    | none => simp [portText, rsplitOnce_none hcolon]
    | some digits =>
      have hdigits := h.port digits hport
      have hplain : COLON ∉ digits := by
        intro hmem
        exact absurd (all_eq_true.mp hdigits COLON hmem) (by decide)
      simp [portText, rsplitOnce_append hplain, hdigits]

theorem authority_head (h : u.Valid) (rest : Text) :
    ∀ b ∈ (u.authority ++ rest).head?, isSeparator b = false := by
  have hne : u.authority ≠ [] := by
    intro hnil
    have hhost : hostText u.bracketed u.host = [] := by
      rw [authority, append_eq_nil_iff, append_eq_nil_iff] at hnil
      exact hnil.2.1
    unfold hostText at hhost
    split_ifs at hhost
    · cases hhost
    · exact h.host_ne hhost
  have hbytes := authority_bytes h
  intro b hb
  cases hauthority : u.authority with
  | nil => exact absurd hauthority hne
  | cons a bytes =>
    rw [hauthority] at hb hbytes
    obtain rfl := Option.some.inj hb
    have := hbytes a mem_cons_self
    simp only [mem_cons, not_or] at this
    simp [isSeparator, this.1, this.2.1]

theorem opens_path (h : u.Valid) (rest : Text) :
    Opens [SLASH, QUESTION, HASH] (u.path ++ rest) := by
  obtain ⟨path, hpath, -⟩ := h.path
  rw [hpath]
  intro b hb
  obtain rfl := Option.some.inj hb
  decide

/-! ## The normal form -/

theorem normalizeEgressUrl_spelling (h : u.Valid) (knowledge : SchemeKnowledge) :
    normalizeEgressUrl u.spelling knowledge = some (u.normal knowledge) := by
  obtain ⟨rest, hpath, hrest⟩ := h.path
  have hopen : openAuthority (lower u.scheme) (u.run ++ (u.authority ++ (u.path ++ u.suffix))) =
      some (u.authority ++ (u.path ++ u.suffix)) := by
    rw [openAuthority, if_pos h.scheme, dropWhile_run h.run (authority_head h _)]
  have hauthority : untilFirst (u.authority ++ (u.path ++ u.suffix)) [SLASH, QUESTION, HASH] =
      u.authority := by
    apply untilFirst_append _ (opens_path h _)
    intro b hb hmem
    apply authority_bytes h b hb
    simp only [mem_cons] at hmem ⊢
    tauto
  have htail : stripPrefix [SLASH] (u.path ++ u.suffix) = some (rest ++ u.suffix) := by
    rw [hpath]
    exact stripPrefix_append [SLASH] _
  have hrest : untilFirst (rest ++ u.suffix) [QUESTION, HASH] = rest :=
    untilFirst_append hrest h.suffix
  unfold spelling normalizeEgressUrl
  simp only [fileSchemeRest_special h.scheme, splitLeadingScheme_letters (authorityScheme_letters h.scheme), hopen,
    hauthority, drop_left, htail, Option.getD_some, hrest, withoutUserinfo_authority h,
    splitHostPort_hostPort h, Option.map_some]
  simp only [normal, hpath, append_assoc]

/-! ## Preprocessing -/

theorem rdropWhile_append {front rest : Text} (h : ∃ b ∈ front.getLast?, isBlankByte b = false) :
    (front ++ rest).rdropWhile isBlankByte = front ++ rest.rdropWhile isBlankByte := by
  obtain ⟨b, hb, hblank⟩ := h
  have hfront : front.reverse.dropWhile isBlankByte = front.reverse := by
    rw [← head?_reverse] at hb
    cases hreverse : front.reverse with
    | nil => rfl
    | cons a back =>
      rw [hreverse] at hb
      obtain rfl := Option.some.inj hb
      simp [hblank]
  unfold rdropWhile
  rw [reverse_append, dropWhile_append]
  split_ifs with hnil
  · rw [hfront, isEmpty_iff.mp hnil]
    simp
  · simp

/-- The backslash reads as a separator. -/
def foldByte (b : UInt8) : UInt8 := if b = BACKSLASH then SLASH else b

theorem fold_checks (b : UInt8) : (isSeparator b → isSeparator (foldByte b)) ∧
    (b ∈ [QUESTION, HASH] → foldByte b ∈ [QUESTION, HASH]) := by
  revert b
  exact forall_byte (by decide +kernel)

theorem fold_plain {raw : Text} (h : BACKSLASH ∉ raw) : raw.map foldByte = raw := by
  rw [map_congr_left (g := id), map_id]
  intro b hb
  rw [foldByte, if_neg]
  · rfl
  · rintro rfl
    exact h hb

theorem isSeparator_fold {run : Text} (h : run.all isSeparator = true) :
    (run.map foldByte).all isSeparator = true := by
  rw [all_map, all_eq_true]
  intro b hb
  exact (fold_checks b).1 (all_eq_true.mp h b hb)

theorem opens_fold {rest : Text} (h : Opens [QUESTION, HASH] rest) :
    Opens [QUESTION, HASH] (rest.map foldByte) := by
  cases rest with
  | nil => exact h
  | cons b rest =>
    intro a ha
    obtain rfl := Option.some.inj ha
    exact (fold_checks b).2 (h b rfl)

theorem opens_trim {suffix trail : Text} (h : Opens [QUESTION, HASH] suffix)
    (htrail : trail.all isBlankByte = true) :
    Opens [QUESTION, HASH] ((suffix ++ trail).rdropWhile isBlankByte) := by
  cases suffix with
  | nil =>
    have hnil : trail.rdropWhile isBlankByte = [] :=
      rdropWhile_eq_nil_iff.mpr (all_eq_true.mp htrail)
    rw [nil_append, hnil]
    exact fun b hb => by cases hb
  | cons b suffix =>
    have hb := h b rfl
    have hblank : isBlankByte b = false := (letter_checks b).2.2 hb
    have hsplit : b :: suffix ++ trail = [b] ++ (suffix ++ trail) := rfl
    rw [hsplit, rdropWhile_append ⟨b, rfl, hblank⟩]
    intro a ha
    obtain rfl := Option.some.inj ha
    exact hb

/-- The URL as the preprocessing leaves it, with the blanks `trail` after its suffix. -/
def preprocessed (u : Url) (trail : Text) : Url :=
  { u with
    run := u.run.map foldByte
    path := u.path.map foldByte
    suffix := ((u.suffix ++ trail).rdropWhile isBlankByte).map foldByte }

/-- What the preprocessing leaves of a URL between blanks, once the breaks are gone. -/
theorem preprocess_spelling {lead trail request : Text} (hscheme : lower u.scheme ∈ AUTHORITY_SCHEMES)
    (hauthority : BACKSLASH ∉ u.authority)
    (hpath : ∃ b ∈ u.path.getLast?, isBlankByte b = false)
    (hlead : lead.all isBlankByte = true)
    (hrequest : request.filter (fun b => !(b = TAB || b = LF || b = CR)) =
      lead ++ u.spelling ++ trail) :
    preprocessEgressTarget request = (u.preprocessed trail).spelling := by
  have hletters := authorityScheme_letters hscheme
  have hspelling : u.spelling ++ trail =
      (u.scheme ++ COLON :: (u.run ++ (u.authority ++ u.path))) ++ (u.suffix ++ trail) := by
    simp [spelling]
  have hlast : (u.scheme ++ COLON :: (u.run ++ (u.authority ++ u.path))).getLast? =
      u.path.getLast? := by
    obtain ⟨b, hb, -⟩ := hpath
    cases hp : u.path with
    | nil =>
      rw [hp] at hb
      cases hb
    | cons a rest =>
      have : u.scheme ++ COLON :: (u.run ++ (u.authority ++ a :: rest)) =
          (u.scheme ++ COLON :: (u.run ++ u.authority)) ++ a :: rest := by simp
      rw [this, getLast?_append_of_ne_nil _ (cons_ne_nil _ _)]
  have hhead : ∀ b ∈ (u.spelling ++ trail).head?, isBlankByte b = false := by
    obtain ⟨b, bytes, hb, hall⟩ := hletters
    intro a ha
    rw [spelling, hb] at ha
    obtain rfl := Option.some.inj ha
    exact (letter_checks b).2.1 (hall b (by rw [hb]; exact mem_cons_self))
  have htrim : trimBlanks (lead ++ u.spelling ++ trail) =
      u.scheme ++ COLON :: (u.run ++ (u.authority ++ (u.path ++
        (u.suffix ++ trail).rdropWhile isBlankByte))) := by
    have hrest : rdropWhile isBlankByte (_ ++ (u.suffix ++ trail)) = _ :=
      rdropWhile_append (hlast ▸ hpath)
    rw [rdropWhile] at hrest
    rw [trimBlanks, append_assoc, dropWhile_run hlead hhead, hspelling, hrest]
    simp
  rw [preprocessEgressTarget, hrequest, htrim]
  simp only [webShaped_special hscheme, ↓reduceIte]
  have hplain : (u.scheme).map foldByte = u.scheme :=
    fold_plain (hletters.not_mem (by decide))
  change List.map foldByte _ = _
  simp only [map_append, map_cons, hplain, fold_plain hauthority]
  rfl

end Url

end Rivect.EffectPolicy
