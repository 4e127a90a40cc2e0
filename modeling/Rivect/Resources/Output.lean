import Rivect.Lib.Chunks
import Rivect.Lib.Utf8

/-! # External output

`src/resources.rs`: the display text of a worker's output, decoded and sanitized as its bytes
arrive, up to the retention cap.
-/

namespace Rivect.Resources

open Lib Utf8 List

inductive OutputStatus where
  | streaming
  | complete
  | partially (cause : String)
  | failed (cause : String)
deriving DecidableEq

/-- How one producer run settles its external output. -/
inductive OutputSettlement where
  | complete
  | partially (cause : String)
  | failed (cause : String)
deriving DecidableEq

def OUTPUT_RETAIN_BYTES : ℕ := 64 * 1024

structure OutputStream where
  pending : List UInt8 := []
  text : String := ""
  truncated : Bool := false
  status : OutputStatus := .streaming
deriving DecidableEq

/-! ## Sanitization -/

/-- `char::is_control`: the category Cc. -/
def isControl (ch : Char) : Bool := ch.toNat < 0x20 || (0x7F ≤ ch.toNat && ch.toNat ≤ 0x9F)

/-- `char::from_u32`. -/
def fromU32 (code : ℕ) : Option Char := if code.isValidChar then some (Char.ofNat code) else none

/-- Spoofing-relevant format controls. -/
def strippedFormats : List (ℕ × ℕ) :=
  [(0x00AD, 0x00AD), (0x0600, 0x0605), (0x061C, 0x061C), (0x06DD, 0x06DD), (0x070F, 0x070F),
    (0x0890, 0x0891), (0x08E2, 0x08E2), (0x17B4, 0x17B5), (0x180B, 0x180E), (0x200B, 0x200F),
    (0x202A, 0x202E), (0x2060, 0x206F), (0x110BD, 0x110BD), (0x110CD, 0x110CD),
    (0x13430, 0x1343F), (0x1BCA0, 0x1BCA3), (0x1D173, 0x1D17A), (0xFEFF, 0xFEFF),
    (0xFFF9, 0xFFFB), (0xE0000, 0xE007F)]

def isStrippedFormat (ch : Char) : Bool :=
  strippedFormats.any fun range => range.1 ≤ ch.toNat && ch.toNat ≤ range.2

def pushSanitized (out : String) (ch : Char) : String :=
  if isStrippedFormat ch then out
  else if ch = '\n' || !isControl ch then out.push ch
  else if ch.toNat < 0x20 then (out.push '^').push ((fromU32 (ch.toNat + 0x40)).getD '\uFFFD')
  else out.push '\uFFFD'

def sanitizeStatusCause (cause : List Char) : String := cause.foldl pushSanitized ""

example : sanitizeStatusCause ['a', '\x1b', '[', '\n', '\x7f', '\u202E'] = "a^[[\n\uFFFD" := by
  decide

namespace OutputStream

/-! ## The stream -/

/-- Appends sanitized characters and stops at the retention cap. -/
def appendDecoded (stream : OutputStream) : List Char → OutputStream
  | [] => stream
  | ch :: decoded =>
    if OUTPUT_RETAIN_BYTES ≤ stream.text.utf8ByteSize then { stream with truncated := true }
    else appendDecoded { stream with text := pushSanitized stream.text ch } decoded

/-- The loop of `decode_pending` over the bytes not yet consumed, and those it leaves. Every
round but the last consumes a byte, so their number is fuel enough. -/
def decodeRun (flush : Bool) : ℕ → OutputStream → List UInt8 → OutputStream × List UInt8
  | 0, stream, rest => (stream, rest)
  | fuel + 1, stream, rest =>
    if rest = [] ∨ stream.truncated then (stream, rest)
    else
      match fromUtf8 rest with
      | .ok valid => (stream.appendDecoded valid, [])
      | .error error =>
        let shown := stream.appendDecoded (lossy (rest.take error.validUpTo))
        match error.errorLen with
        | some invalid =>
          decodeRun flush fuel (shown.appendDecoded ['\uFFFD'])
            (rest.drop (error.validUpTo + invalid))
        | none =>
          if flush then (shown.appendDecoded ['\uFFFD'], [])
          else (shown, rest.drop error.validUpTo)

/-- Decodes as much of the pending bytes as forms complete characters. -/
def decodePending (stream : OutputStream) (flush : Bool) : OutputStream :=
  let run := decodeRun flush stream.pending.length { stream with pending := [] } stream.pending
  { run.1 with pending := if run.1.truncated then [] else run.2 }

def pushChunk (stream : OutputStream) (bytes : List UInt8) : OutputStream :=
  if stream.truncated ∨ stream.status ≠ .streaming then stream
  else decodePending { stream with pending := stream.pending ++ bytes } false

def settledAs : OutputSettlement → OutputStatus
  | .complete => .complete
  | .partially cause => .partially cause
  | .failed cause => .failed cause

def settle (stream : OutputStream) (settlement : OutputSettlement) : OutputStream :=
  { stream.decodePending true with status := settledAs settlement }

/-- One producer run: its chunks, then its settlement. -/
def projected (chunks : List (List UInt8)) (settlement : OutputSettlement) : OutputStream :=
  settle (chunks.foldl pushChunk {}) settlement

example : (projected [[0x61, 0xE2], [0x82], [0xAC, 0x1B]] .complete).text = "a€^[" := by decide

/-! ## Chunks -/

variable {stream : OutputStream} {rest seen : List UInt8} {fuel : ℕ}

theorem appendDecoded_append (a b : List Char) :
    stream.appendDecoded (a ++ b) = (stream.appendDecoded a).appendDecoded b := by
  induction a generalizing stream with
  | nil => rfl
  | cons ch a ih =>
    rw [cons_append, appendDecoded, appendDecoded]
    split
    · rename_i hfull
      cases b with
      | nil => rfl
      | cons ch b => rw [appendDecoded, if_pos hfull]
    · exact ih

/-- A truncated stream is full. -/
def Full (stream : OutputStream) : Prop :=
  stream.truncated = true → OUTPUT_RETAIN_BYTES ≤ stream.text.utf8ByteSize

theorem Full.appendDecoded (h : stream.Full) (decoded : List Char) :
    (stream.appendDecoded decoded).Full := by
  induction decoded generalizing stream with
  | nil => exact h
  | cons ch decoded ih =>
    rw [OutputStream.appendDecoded]
    split
    · rename_i hfull
      exact fun _ => hfull
    · rename_i hroom
      exact ih fun htruncated => absurd (h htruncated) hroom

theorem Full.appendDecoded_truncated (h : stream.Full) (ht : stream.truncated = true)
    (decoded : List Char) : stream.appendDecoded decoded = stream := by
  cases decoded with
  | nil => rfl
  | cons ch decoded =>
    rw [OutputStream.appendDecoded, if_pos (h ht), ← ht]

@[simp] theorem appendDecoded_pending (decoded : List Char) :
    (stream.appendDecoded decoded).pending = stream.pending := by
  induction decoded generalizing stream with
  | nil => rfl
  | cons ch decoded ih =>
    rw [appendDecoded]
    split
    · rfl
    · exact ih

@[simp] theorem appendDecoded_status (decoded : List Char) :
    (stream.appendDecoded decoded).status = stream.status := by
  induction decoded generalizing stream with
  | nil => rfl
  | cons ch decoded ih =>
    rw [appendDecoded]
    split
    · rfl
    · exact ih

/-- The characters that a run of `decode_pending` shows. -/
def shown (flush : Bool) (rest : List UInt8) : List Char :=
  if flush then lossy rest else (decided rest).1

/-- The bytes it keeps. -/
def kept (flush : Bool) (rest : List UInt8) : List UInt8 := if flush then [] else (decided rest).2

variable (flush) in
/-- The loop shows what its bytes decide, and keeps the others unless the stream is full. -/
theorem decodeRun_eq (h : stream.Full) (hfuel : rest.length ≤ fuel) :
    (decodeRun flush fuel stream rest).1 = stream.appendDecoded (shown flush rest) ∧
      ((decodeRun flush fuel stream rest).1.truncated = false →
        (decodeRun flush fuel stream rest).2 = kept flush rest) := by
  induction fuel generalizing stream rest with
  | zero =>
    obtain rfl := length_eq_zero_iff.1 (Nat.le_zero.1 hfuel)
    cases flush <;> simp [decodeRun, shown, kept, lossy_eq, appendDecoded]
  | succ fuel ih =>
    rw [decodeRun]
    by_cases hnil : rest = []
    · subst hnil
      cases flush <;> simp [shown, kept, lossy_eq, appendDecoded]
    by_cases htruncated : stream.truncated = true
    · rw [if_pos (Or.inr htruncated), h.appendDecoded_truncated htruncated]
      exact ⟨rfl, fun hf => absurd (htruncated.symm.trans hf) (by simp)⟩
    rw [if_neg (by simp [hnil, htruncated])]
    have hagrees := fromUtf8_agrees rest
    revert hagrees
    cases fromUtf8 rest with
    | ok valid =>
      intro (hdecided : decided rest = (valid, []))
      cases flush <;> simp [shown, kept, lossy_eq, hdecided]
    | error error =>
      obtain ⟨upTo, errorLen⟩ := error
      cases errorLen with
      | none =>
        intro hagrees
        obtain ⟨hdecided, hheld⟩ := hagrees
        cases flush <;>
          simp [shown, kept, lossy_eq rest, hdecided, hheld, appendDecoded_append]
      | some invalid =>
        intro hagrees
        obtain ⟨hdecided, hpos, hle⟩ := hagrees
        have hnext := @ih ((stream.appendDecoded (lossy (rest.take upTo))).appendDecoded ['\uFFFD'])
          (rest.drop (upTo + invalid)) ((h.appendDecoded _).appendDecoded _) (by rw [length_drop]; omega)
        refine ⟨hnext.1.trans ?_, fun hf => (hnext.2 hf).trans ?_⟩
        · rw [← appendDecoded_append, ← appendDecoded_append]
          cases flush <;>
            simp [shown, lossy_eq rest, lossy_eq (rest.drop (upTo + invalid)), hdecided]
        · cases flush <;> simp [kept, hdecided]

/-- What a stream shows of decoded text. -/
def showing (decoded : List Char) : OutputStream := appendDecoded {} decoded

theorem showing_full (decoded : List Char) : (showing decoded).Full :=
  Full.appendDecoded (fun h => absurd h (by simp)) decoded

/-- The stream after the bytes seen so far. -/
def after (seen : List UInt8) : OutputStream :=
  { showing (decided seen).1 with
    pending := if (showing (decided seen).1).truncated then [] else (decided seen).2 }

theorem after_nil : after [] = {} := by simp [after, showing, appendDecoded]

theorem decodePending_eq (stream : OutputStream) (flush : Bool) (bytes : List UInt8)
    (hroom : stream.truncated = false) :
    decodePending { stream with pending := bytes } flush =
      { appendDecoded { stream with pending := [] } (shown flush bytes) with
        pending :=
          if (appendDecoded { stream with pending := [] } (shown flush bytes)).truncated then []
          else kept flush bytes } := by
  have hfull : Full { stream with pending := [] } := fun h => absurd (hroom.symm.trans h) (by simp)
  obtain ⟨hshown, hkept⟩ := decodeRun_eq flush hfull (Nat.le_refl bytes.length)
  rw [decodePending]
  rw [hshown] at hkept
  simp only [hshown]
  congr 1
  split
  · rfl
  · exact hkept (Bool.eq_false_iff.2 ‹_›)

theorem showing_pending (decoded : List Char) :
    { showing decoded with pending := [] } = showing decoded := by
  have hpending : (showing decoded).pending = [] := appendDecoded_pending decoded
  generalize showing decoded = stream at hpending ⊢
  cases stream
  cases hpending
  rfl

theorem showing_append (a b : List Char) :
    showing (a ++ b) = (showing a).appendDecoded b := appendDecoded_append a b

theorem decodePending_after (hroom : (showing (decided seen).1).truncated = false)
    (flush : Bool) (bytes : List UInt8) :
    decodePending { after seen with pending := bytes } flush =
      { showing ((decided seen).1 ++ shown flush bytes) with
        pending :=
          if (showing ((decided seen).1 ++ shown flush bytes)).truncated then []
          else kept flush bytes } := by
  have hstream := decodePending_eq (showing (decided seen).1) flush bytes hroom
  rw [showing_pending, ← showing_append] at hstream
  exact hstream

/-- One more chunk takes the stream to where the bytes so far and the chunk's take it. -/
theorem pushChunk_after (seen chunk : List UInt8) :
    (after seen).pushChunk chunk = after (seen ++ chunk) := by
  have hdecided := decided_append seen chunk
  have hstatus : (after seen).status = .streaming := appendDecoded_status _
  rw [pushChunk]
  cases hroom : (showing (decided seen).1).truncated with
  | true =>
    have hfull := (showing_full (decided seen).1).appendDecoded_truncated hroom
    have hafter : (after seen).truncated = true := hroom
    rw [if_pos (Or.inl hafter), after, after, hdecided, showing_append, hfull, if_pos hroom,
      if_pos hroom]
  | false =>
    have hpending : (after seen).pending = (decided seen).2 := by simp [after, hroom]
    rw [if_neg (by rw [hstatus]; simpa [after] using hroom), hpending, decodePending_after hroom,
      after, hdecided]
    rfl

theorem foldl_pushChunk (chunks : List (List UInt8)) :
    chunks.foldl pushChunk {} = after chunks.flatten :=
  foldl_knows (fun seen stream => stream = after seen)
    (fun seen _ chunk h => h ▸ pushChunk_after seen chunk) chunks after_nil.symm

theorem decodePending_true_after (seen : List UInt8) :
    (after seen).decodePending true = showing (lossy seen) := by
  cases hroom : (showing (decided seen).1).truncated with
  | true =>
    have hfull := (showing_full (decided seen).1).appendDecoded_truncated hroom
    have hpending : (after seen).pending = [] := by simp [after, hroom]
    rw [lossy_eq, showing_append, hfull, decodePending, hpending]
    simp only [length_nil, decodeRun, ite_self, after, if_pos hroom]
    exact showing_pending _
  | false =>
    have hpending : (after seen).pending = (decided seen).2 := by simp [after, hroom]
    have heq := decodePending_after hroom true (decided seen).2
    have hlossy : (decided seen).1 ++ shown true (decided seen).2 = lossy seen := by
      rw [shown, if_pos rfl, lossy_eq, lossy_eq, decided_held]
      rfl
    rw [hlossy] at heq
    simp only [kept, ite_self, if_true] at heq
    rw [showing_pending] at heq
    rw [← heq, ← hpending]

theorem projected_eq (chunks : List (List UInt8)) (settlement : OutputSettlement) :
    projected chunks settlement =
      { showing (lossy chunks.flatten) with status := settledAs settlement } := by
  rw [projected, foldl_pushChunk, settle, decodePending_true_after]

end OutputStream

/-! ## The retained text -/

variable {text : String} {c : Char}

/-- No control character but the line feed, and no stripped format. -/
def Inert (text : String) : Prop :=
  ∀ c ∈ text.toList, (isControl c = true → c = '\n') ∧ isStrippedFormat c = false

theorem isStrippedFormat_of_lt (h : c.toNat < 0xAD) : isStrippedFormat c = false := by
  rw [isStrippedFormat, any_eq_false]
  intro range hrange
  have hlow : 0xAD ≤ range.1 := by
    revert range
    decide
  simp only [Bool.and_eq_true, decide_eq_true_eq]
  omega

theorem Inert.push (h : Inert text) (hcontrol : isControl c = true → c = '\n')
    (hformat : isStrippedFormat c = false) : Inert (text.push c) := by
  intro d hd
  rw [String.toList_push, mem_append, mem_singleton] at hd
  rcases hd with hd | rfl
  · exact h d hd
  · exact ⟨hcontrol, hformat⟩

theorem caret_toNat {code : ℕ} (h : code < 0x20) :
    ((fromU32 (code + 0x40)).getD '\uFFFD').toNat = code + 0x40 := by
  have hvalid : (code + 0x40).isValidChar := Or.inl (by omega)
  rw [fromU32, if_pos hvalid, Option.getD_some, Char.ofNat, dif_pos hvalid]
  rfl

theorem Inert.pushSanitized (h : Inert text) (ch : Char) : Inert (pushSanitized text ch) := by
  rw [Resources.pushSanitized]
  split
  · exact h
  · rename_i hformat
    split
    · rename_i hplain
      refine h.push (fun hcontrol => ?_) (Bool.eq_false_iff.2 hformat)
      simpa [hcontrol] using hplain
    · split
      · rename_i hcode
        have hletter := caret_toNat hcode
        refine (h.push (by decide) (by decide)).push (fun hcontrol => ?_)
          (isStrippedFormat_of_lt (by omega))
        simp [isControl, hletter] at hcontrol
        omega
      · exact h.push (by decide) (by decide)

theorem sanitizeStatusCause_inert (cause : List Char) : Inert (sanitizeStatusCause cause) :=
  foldlRecOn cause pushSanitized (motive := Inert) (by simp [Inert])
    fun _ h ch _ => h.pushSanitized ch

/-- The characters are retained up to the first before which the text has reached the cap. -/
structure Retained (decoded : List Char) (text : String) (truncated : Bool) : Prop where
  cut : ∃ head rest, decoded = head ++ rest ∧ text = sanitizeStatusCause head ∧
    (∀ before, before <+: head → before ≠ head →
      (sanitizeStatusCause before).utf8ByteSize < OUTPUT_RETAIN_BYTES) ∧
    (truncated = true ↔ rest ≠ []) ∧
    (rest ≠ [] → OUTPUT_RETAIN_BYTES ≤ text.utf8ByteSize)

theorem appendDecoded_retained (head decoded : List Char) (stream : OutputStream)
    (htext : stream.text = sanitizeStatusCause head) (hroom : stream.truncated = false)
    (hbefore : ∀ before, before <+: head → before ≠ head →
      (sanitizeStatusCause before).utf8ByteSize < OUTPUT_RETAIN_BYTES) :
    Retained (head ++ decoded) (stream.appendDecoded decoded).text
      (stream.appendDecoded decoded).truncated := by
  induction decoded generalizing head stream with
  | nil => exact ⟨head, [], rfl, htext, hbefore, by simp [OutputStream.appendDecoded, hroom],
      fun h => absurd rfl h⟩
  | cons ch decoded ih =>
    rw [OutputStream.appendDecoded]
    split
    · rename_i hfull
      exact ⟨head, ch :: decoded, rfl, htext, hbefore, by simp, fun _ => hfull⟩
    · rename_i hspace
      have hnext : pushSanitized stream.text ch = sanitizeStatusCause (head ++ [ch]) := by
        rw [htext, sanitizeStatusCause, sanitizeStatusCause, foldl_append]
        rfl
      have hall := ih (head ++ [ch]) { stream with text := pushSanitized stream.text ch } hnext
        hroom fun before hpart hne => by
          rcases prefix_concat_iff.1 hpart with rfl | hpart
          · exact absurd rfl hne
          · by_cases hhead : before = head
            · rw [hhead, ← htext]
              exact Nat.lt_of_not_le hspace
            · exact hbefore before hpart hhead
      simpa using hall

/-- However the bytes are split, the display is the sanitized text of the whole, cut only at the
retention cap, and inert. -/
theorem projected_invariant (chunks : List (List UInt8)) (settlement : OutputSettlement) :
    let display := OutputStream.projected chunks settlement
    let whole := OutputStream.projected [chunks.flatten] settlement
    display.text = whole.text ∧ display.truncated = whole.truncated ∧
      Retained (lossy chunks.flatten) display.text display.truncated ∧ Inert display.text := by
  have hwhole : OutputStream.projected chunks settlement =
      OutputStream.projected [chunks.flatten] settlement := by
    rw [OutputStream.projected_eq, OutputStream.projected_eq, flatten_singleton]
  have hretained := appendDecoded_retained [] (lossy chunks.flatten) {} rfl rfl fun before h hne =>
    absurd (prefix_nil.1 h) hne
  have hshown : Retained (lossy chunks.flatten) (OutputStream.projected chunks settlement).text
      (OutputStream.projected chunks settlement).truncated := by
    rw [OutputStream.projected_eq]
    exact hretained
  refine ⟨by rw [hwhole], by rw [hwhole], hshown, ?_⟩
  obtain ⟨head, rest, -, htext, -⟩ := hshown.cut
  rw [htext]
  exact sanitizeStatusCause_inert head

end Rivect.Resources
