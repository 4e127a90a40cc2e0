import Rivect.Sandbox.Frames

/-! # What the parser refuses

Every refusal of a frame names field 24, its offset lies in the frame, and no index leaves the
frame.
-/

namespace Rivect.Sandbox

open Lib List
open EffectPolicy (Text ascii LF SPACE)

/-- A cause about the frame itself, at an offset of at most `n`. -/
def OwnedFaultCause.NamesFrame (n : ℕ) : OwnedFaultCause → Prop
  | .malformed field offset => field = 24 ∧ offset.toNat ≤ n
  | .numericOverflow field offset => field = 24 ∧ offset.toNat ≤ n
  | .trailing field offset => field = 24 ∧ offset.toNat ≤ n
  | .missing field => field = 24
  | .limit field _ _ => field = 24
  | .earlyEof field _ _ => field = 24
  | _ => False

def Failed.InFrame (n : ℕ) : Failed → Prop
  | .refused cause => cause.NamesFrame n
  | .indexOutOfRange => False

/-- A token inside a frame of `n` bytes. -/
def FrameToken.Inside (n : ℕ) (token : FrameToken) : Prop :=
  token.start ≤ token.stop ∧ token.stop ≤ n

variable {bytes text : Text} {token : FrameToken} {tokens : List FrameToken}
  {n base max width index offset value bodyLen : ℕ} {digit : UInt8 → Option ℕ}

theorem toNat_offset_le (h : offset ≤ n) : (UInt64.ofNat offset).toNat ≤ n := by
  rw [UInt64.toNat_ofNat']
  exact (Nat.mod_le _ _).trans h

theorem inFrame_malformedAt (h : offset ≤ n) : (malformedAt offset).InFrame n :=
  ⟨rfl, toNat_offset_le h⟩

theorem inFrame_overflowAt (h : offset ≤ n) : (overflowAt offset).InFrame n :=
  ⟨rfl, toNat_offset_le h⟩

theorem inFrame_missing (n : ℕ) : missing.InFrame n := rfl

theorem byteAt_within (h : index < bytes.length) :
    Within (Failed.InFrame n) (fun _ => True) (byteAt bytes index) := by
  refine (Within.found fun hnone => ?_).imp fun _ _ => trivial
  rw [getElem?_eq_none_iff] at hnone
  omega

theorem tokenBytes_within (h : token.Inside bytes.length) :
    Within (Failed.InFrame n) (fun text => text.length = token.stop - token.start)
      (tokenBytes bytes token) := by
  obtain ⟨hstart, hstop⟩ := h
  rw [tokenBytes, if_pos ⟨hstart, hstop⟩, Within.ok_iff, length_take, length_drop]
  omega

theorem wordLength_within (h : bodyLen ≤ bytes.length) :
    Within (Failed.InFrame n) (fun length => index + length ≤ bodyLen ∨ length = 0)
      (wordLength bytes bodyLen index) := by
  fun_induction wordLength bytes bodyLen index with
  | case1 index hindex ih =>
    refine (byteAt_within (by omega)).bind fun byte _ => ?_
    split
    · exact .inr rfl
    · refine ih.bind fun length hlength => .inl ?_
      omega
  | case2 => exact .inr rfl

theorem splitFrom_within (h : bodyLen ≤ bytes.length) :
    Within (Failed.InFrame bytes.length) (fun tokens => ∀ token ∈ tokens, token.Inside bytes.length)
      (splitFrom bytes bodyLen index) := by
  fun_induction splitFrom bytes bodyLen index with
  | case1 index hindex ih =>
    refine (byteAt_within (by omega)).bind fun byte _ => ?_
    dsimp only
    split
    · exact inFrame_malformedAt (by omega)
    · refine (wordLength_within h).bind fun length hlength => ?_
      have hinside : FrameToken.Inside bytes.length ⟨index, index + length⟩ := by
        constructor <;> dsimp only <;> omega
      split
      · rename_i hmore
        split
        · exact inFrame_malformedAt (by omega)
        · refine (byteAt_within (by omega)).bind fun next _ => ?_
          split
          · exact inFrame_malformedAt (by omega)
          · refine (ih length hmore).bind fun rest hrest => ?_
            intro token htoken
            rcases mem_cons.mp htoken with rfl | htoken
            · exact hinside
            · exact hrest token htoken
      · intro token htoken
        obtain rfl := mem_singleton.mp htoken
        exact hinside
  | case2 => exact fun token htoken => absurd htoken not_mem_nil

theorem splitFrameTokens_within (h : bodyLen ≤ bytes.length) :
    Within (Failed.InFrame bytes.length) (fun tokens => ∀ token ∈ tokens, token.Inside bytes.length)
      (splitFrameTokens bytes bodyLen) := by
  unfold splitFrameTokens
  split
  · exact inFrame_missing bytes.length
  · exact splitFrom_within h

theorem frameToken_within (h : ∀ token ∈ tokens, token.Inside bytes.length) :
    Within (Failed.InFrame n) (fun token => token.Inside bytes.length)
      (frameToken tokens index) :=
  (Within.found fun _ => inFrame_missing _).imp fun token htoken =>
    h token (mem_of_getElem? htoken)

/-! ## Numerals -/

theorem readDigits_within (h : offset + text.length ≤ n) :
    Within (Failed.InFrame n) (fun _ => True) (readDigits base max digit offset value text) := by
  induction text generalizing offset value with
  | nil => trivial
  | cons byte rest ih =>
    simp only [length_cons] at h
    refine (Within.found fun _ => inFrame_malformedAt (by omega)).bind fun d _ => ?_
    dsimp only
    split
    · exact inFrame_overflowAt (by omega)
    · split
      · exact inFrame_overflowAt (by omega)
      · exact ih (by omega)

theorem parseDecimal_within (h : token.Inside bytes.length) :
    Within (Failed.InFrame bytes.length) (fun _ => True) (parseDecimal bytes token max) := by
  obtain ⟨hstart, hstop⟩ := id h
  refine (tokenBytes_within h).bind fun text htext => ?_
  dsimp only
  split
  · exact inFrame_missing bytes.length
  · split
    · exact inFrame_malformedAt (by omega)
    · exact readDigits_within (by omega)

theorem hexBytes_within {start present : ℕ} (h : start + present ≤ bytes.length) :
    Within (Failed.InFrame bytes.length) (fun _ => True) (hexBytes bytes start present) := by
  induction present with
  | zero => trivial
  | succ present ih =>
    refine (ih (by omega)).bind fun _ _ => ?_
    refine (byteAt_within (by omega)).bind fun byte _ => ?_
    exact (Within.require fun _ => inFrame_malformedAt (by omega)).imp fun _ _ => trivial

theorem hexText_within (h : token.Inside bytes.length) :
    Within (Failed.InFrame bytes.length) (fun _ => True) (hexText bytes token width) := by
  obtain ⟨hstart, hstop⟩ := id h
  refine (hexBytes_within (by omega)).bind fun _ _ => ?_
  dsimp only
  split
  · exact inFrame_malformedAt (by omega)
  · split
    · exact inFrame_malformedAt (by omega)
    · trivial

theorem parseHexBounded_within (h : token.Inside bytes.length) :
    Within (Failed.InFrame bytes.length) (fun _ => True)
      (parseHexBounded bytes token width max) := by
  obtain ⟨hstart, hstop⟩ := id h
  refine (hexText_within h).bind fun _ _ => ?_
  refine (tokenBytes_within h).bind fun text htext => ?_
  exact readDigits_within (by omega)

/-! ## Records -/

section

variable (h : ∀ token ∈ tokens, token.Inside bytes.length)
include h

theorem finishRecord_within {record : OwnedRecord} :
    Within (Failed.InFrame bytes.length) (fun _ => True) (finishRecord tokens width record) := by
  unfold finishRecord
  split
  · rename_i token htoken
    have hinside := h token (mem_of_getElem? htoken)
    exact ⟨rfl, toNat_offset_le (hinside.1.trans hinside.2)⟩
  · trivial

theorem decodeEntry_within :
    Within (Failed.InFrame bytes.length) (fun _ => True) (decodeEntry bytes tokens) := by
  refine (frameToken_within h).bind fun profileToken hprofile => ?_
  refine (tokenBytes_within hprofile).bind fun text _ => ?_
  refine (Within.found fun _ =>
    inFrame_malformedAt (hprofile.1.trans hprofile.2)).bind fun profile _ => ?_
  refine (frameToken_within h).bind fun baselineToken hbaseline => ?_
  refine (parseDecimal_within hbaseline).bind fun baseline _ => ?_
  split
  · exact inFrame_malformedAt (hbaseline.1.trans hbaseline.2)
  · refine (frameToken_within h).bind fun nprocToken hnproc => ?_
    refine (parseDecimal_within hnproc).bind fun nproc _ => ?_
    split
    · exact inFrame_malformedAt (hnproc.1.trans hnproc.2)
    · refine (frameToken_within h).bind fun verifiedToken hverified => ?_
      refine (parseDecimal_within hverified).bind fun verified _ => ?_
      split
      · exact inFrame_malformedAt (hverified.1.trans hverified.2)
      · exact finishRecord_within h

theorem operandWords_within {tag : ℕ} :
    Within (Failed.InFrame bytes.length) (fun _ => True) (operandWords bytes tag index tokens) := by
  induction tokens generalizing index with
  | nil => trivial
  | cons token tokens ih =>
    refine (parseHexBounded_within (h token mem_cons_self)).bind fun word _ => ?_
    exact (ih fun t ht => h t (mem_cons_of_mem _ ht)).bind fun _ _ => trivial

end

theorem faultCause_within {tag a b c : ℕ} :
    Within (Failed.InFrame n) (fun _ => True) (faultCause tag a b c) := by
  unfold faultCause
  split <;> first | trivial | exact inFrame_malformedAt (Nat.zero_le _)

section

variable (h : ∀ token ∈ tokens, token.Inside bytes.length)
include h

theorem decodeFault_within :
    Within (Failed.InFrame bytes.length) (fun _ => True) (decodeFault bytes tokens) := by
  have hoperands : ∀ token ∈ tokens.drop 5, token.Inside bytes.length := fun token htoken =>
    h token (mem_of_mem_drop htoken)
  refine (frameToken_within h).bind fun boundaryToken hboundary => ?_
  -- The fifth token is there, so the slice behind it is in range.
  refine (Within.found fun _ => inFrame_missing _).bind fun tagToken hat => ?_
  have htag := h tagToken (mem_of_getElem? hat)
  have hfive : ¬ tokens.length < 5 := by
    have := (List.getElem?_eq_some_iff.mp hat).1
    omega
  refine (tokenBytes_within hboundary).bind fun text _ => ?_
  refine (Within.found fun _ =>
    inFrame_malformedAt (hboundary.1.trans hboundary.2)).bind fun boundary _ => ?_
  refine (parseHexBounded_within htag).bind fun tag _ => ?_
  rw [if_neg hfive]
  split
  · refine (Within.forM fun token htoken => hexText_within (hoperands token htoken)).bind
      fun _ _ => ?_
    exact inFrame_malformedAt (htag.1.trans htag.2)
  · refine (operandWords_within fun token htoken =>
      hoperands token (mem_of_mem_take htoken)).bind fun words _ => ?_
    split
    · rename_i token htoken
      have hinside := hoperands token (mem_of_getElem? htoken)
      exact ⟨rfl, toNat_offset_le (hinside.1.trans hinside.2)⟩
    · split
      · exact inFrame_missing bytes.length
      · refine faultCause_within.bind fun cause _ => ?_
        split
        · trivial
        · exact inFrame_malformedAt (htag.1.trans htag.2)

theorem decodeTerminal_within :
    Within (Failed.InFrame bytes.length) (fun _ => True) (decodeTerminal bytes tokens) := by
  refine (frameToken_within h).bind fun verb hverb => ?_
  refine (tokenBytes_within hverb).bind fun text _ => ?_
  split
  · refine (frameToken_within h).bind fun token htoken => ?_
    exact (parseDecimal_within htoken).bind fun _ _ => finishRecord_within h
  · split
    · refine (frameToken_within h).bind fun token htoken => ?_
      refine (parseDecimal_within htoken).bind fun signal _ => ?_
      split
      · exact inFrame_malformedAt (htoken.1.trans htoken.2)
      · exact finishRecord_within h
    · split
      · refine (frameToken_within h).bind fun token htoken => ?_
        refine (tokenBytes_within htoken).bind fun reason _ => ?_
        exact (Within.found fun _ => inFrame_malformedAt (htoken.1.trans htoken.2)).bind
          fun _ _ => finishRecord_within h
      · split
        · exact decodeFault_within h
        · exact inFrame_malformedAt (hverb.1.trans hverb.2)

theorem decodeOwnedRecord_within :
    Within (Failed.InFrame bytes.length) (fun _ => True) (decodeOwnedRecord bytes tokens) := by
  refine (frameToken_within h).bind fun head hhead => ?_
  refine (tokenBytes_within hhead).bind fun text _ => ?_
  split
  · exact inFrame_malformedAt (hhead.1.trans hhead.2)
  · refine (frameToken_within h).bind fun kind hkind => ?_
    refine (tokenBytes_within hkind).bind fun kindText _ => ?_
    split
    · exact decodeEntry_within h
    · split
      · exact decodeTerminal_within h
      · exact inFrame_malformedAt (hkind.1.trans hkind.2)

end

theorem bodyBytes_within (h : index + text.length ≤ n) :
    Within (Failed.InFrame n) (fun _ => True) (bodyBytes index text) := by
  induction text generalizing index with
  | nil => trivial
  | cons byte rest ih =>
    simp only [length_cons] at h
    refine (Within.require fun _ => inFrame_malformedAt (by omega)).bind fun _ _ => ?_
    exact ih (by omega)

/-- What is accepted is what its own record encodes to; every refusal lies in the frame. -/
theorem parseOwnedRecordObserved_within (bytes : Text) :
    Within (Failed.InFrame bytes.length) (fun record => record.encode = .ok bytes)
      (parseOwnedRecordObserved bytes) := by
  unfold parseOwnedRecordObserved
  dsimp only
  split
  · rfl
  · split
    · rfl
    · refine (bodyBytes_within (by simp)).bind fun _ _ => ?_
      refine (splitFrameTokens_within (by omega)).bind fun tokens htokens => ?_
      refine (decodeOwnedRecord_within htokens).bind fun record _ => ?_
      split
      · refine inFrame_malformedAt ?_
        cases tokens with
        | nil => exact Nat.zero_le _
        | cons token tokens =>
          have hinside := htokens token mem_cons_self
          exact hinside.1.trans hinside.2
      · rename_i hsame
        exact not_not.mp hsame

end Rivect.Sandbox
