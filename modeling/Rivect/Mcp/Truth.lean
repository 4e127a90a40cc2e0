import Rivect.Mcp.Session

/-! # What a settlement may say

A settlement says what became of a call. It is truthful where it says no more than the pipes of its
session bear out, and a conversation ends in a truthful one exactly where its handshake is not left
unread halfway and its answer carries no `error` that is no error object.
-/

namespace Rivect.Mcp

open Lib List

variable {failure : SeamFailure}

/-! ## Truthful settlements -/

/-- The bytes of the call frame that were written. -/
def Pipes.called (pipes : Pipes) : ℕ :=
  ((pipes.wire.filter fun entry => entry.1 = .call).map Prod.snd).sum

/-- An error of JSON-RPC: an object of an integer code and a message. -/
def isErrorObject (error : Json) : Bool :=
  ((error.get "code").bind Json.asI64).isSome && (error.getStr "message").isSome

namespace Answered

/-- The answer names the request it was waited for. -/
def Own (answered : Answered) : Prop :=
  (answered.answer.get "id").bind Json.asU64 = some answered.id

/-- A well-formed refusal of the call. -/
def Refuses (answered : Answered) : Prop :=
  answered.frame = .call ∧ answered.Own ∧
    ∃ error, answered.answer.get "error" = some error ∧ isErrorObject error = true

/-- A complete result of the call. -/
def Completes (answered : Answered) : Prop :=
  answered.frame = .call ∧ answered.Own ∧ ∃ result, answered.answer.get "result" = some result ∧
    result.getStr "resultType" = some "complete"

/-- An answer to the call whose `error` is no error object. -/
def Misrefuses (answered : Answered) : Prop :=
  answered.frame = .call ∧ answered.Own ∧
    ∃ error, answered.answer.get "error" = some error ∧ isErrorObject error = false

end Answered

/-- What a settlement says of the effect, against what the pipes carried. -/
structure Truthful (pipes : Pipes) (state : McpState) (reason : Option McpReason) : Prop where
  failed : state = .failed → pipes.called = 0 ∨ ∃ answered ∈ pipes.answers, answered.Refuses
  succeeded : state = .succeeded → ∃ answered ∈ pipes.answers, answered.Completes
  unreadable : reason = some .cancellationUnreadable →
    (state = .outcomeUnknown ↔ 1 ≤ pipes.called)

def verdictState : Except SeamFailure Verdict → McpState
  | .ok (.inputRequired _) => .inputRequired
  | .ok (.complete _) => .succeeded
  | .error failure => failure.state

def verdictReason : Except SeamFailure Verdict → Option McpReason
  | .ok _ => none
  | .error failure => some failure.reason

def Conversed.Truthful (conversed : Conversed) : Prop :=
  Mcp.Truthful conversed.session.pipes (verdictState conversed.verdict)
    (verdictReason conversed.verdict)

/-! ## A frame left unread halfway -/

/-- A turn of a write that goes on to the next, and how many bytes it hands over. -/
def WriteTurn.Hands (turn : WriteTurn) (count : ℕ) : Prop :=
  turn.cancelled = .ok false ∧ match turn.write with
    | .wrote n => 0 < n ∧ count = n
    | .wouldBlock ready => ready = true ∧ count = 0
    | .interrupted => count = 0
    | .failed _ => False

/-- The read of the cancellation that a write makes next. -/
def nextRead (turns : List WriteTurn) (late : CancelRead) : CancelRead :=
  match turns with
  | turn :: _ => turn.cancelled
  | [] => late

/-- The cancellation cannot be read while some bytes of the frame are written and some are not. -/
inductive UnreadAt (size : ℕ) (late : CancelRead) : List WriteTurn → ℕ → Prop
  | here {turns : List WriteTurn} {written : ℕ} {source : String} (hsome : 0 < written)
      (hleft : written < size) (hread : nextRead turns late = .error source) :
      UnreadAt size late turns written
  | later {turn : WriteTurn} {turns : List WriteTurn} {written count : ℕ}
      (hleft : written < size) (hhands : turn.Hands count)
      (h : UnreadAt size late turns (written + count)) : UnreadAt size late (turn :: turns) written

/-- The handshake is a frame that goes out, and the cancellation cannot be read amid it. -/
def HandshakeUnread (client : Client) (peer : Peer) : Prop :=
  ∃ text, client.encode (requestValue 1 mcpHandshakeMethod (initializeParams client)) = .ok text ∧
    (text ++ [newline]).length ≤ mcpRequestMaxBytes ∧ peer.handshake.nonblocking = true ∧
    UnreadAt (text ++ [newline]).length peer.handshake.lateWrite peer.handshake.writes 0

/-! ## Writing and waiting -/

/-- How a failure under the watch is classified. -/
def Classified (sent : ℕ) (failure : SeamFailure) : Prop :=
  failure.state = if failure.reason = .cancellationUnreadable ∧ sent = 0 then .failed
    else .outcomeUnknown

theorem watchCancelled_error {read : CancelRead} {sent : ℕ}
    (h : watchCancelled read sent = .error failure) :
    Classified sent failure ∧ failure.reason = .cancellationUnreadable ∧
      ∃ source, read = .error source := by
  cases read with
  | ok cancelled => cases h
  | error source =>
    simp only [watchCancelled] at h
    split at h <;> rename_i hsent <;> cases h
    · exact ⟨by simp [Classified, hsent, SeamFailure.preSend], rfl, source, rfl⟩
    · exact ⟨by simp [Classified, hsent, SeamFailure.unknownAfterSend], rfl, source, rfl⟩

theorem watchCancelled_ok {read : CancelRead} {sent : ℕ} {cancelled : Bool}
    (h : watchCancelled read sent = .ok cancelled) : read = .ok cancelled := by
  cases read with
  | ok other =>
    cases h
    rfl
  | error source =>
    simp only [watchCancelled] at h
    split at h <;> cases h

theorem classified_unknown {sent : ℕ}
    (hstate : failure.state = .outcomeUnknown) (hreason : failure.reason ≠ .cancellationUnreadable) :
    Classified sent failure := by
  simp [Classified, hreason, hstate]

/-- What a write has come to. -/
structure Wrote (already size : ℕ) (written : ℕ) (verdict : Except SeamFailure Unit) : Prop where
  le : written ≤ size
  done : verdict = .ok () → written = size
  failed : ∀ failure, verdict = .error failure →
    written < size ∧ Classified (already + written) failure

theorem writeLoop_wrote {already size : ℕ} (turns : List WriteTurn) (late : CancelRead)
    {written : ℕ} (h : written ≤ size) :
    Wrote already size (writeLoop already size turns late written).1
      (writeLoop already size turns late written).2 := by
  have hstops : ∀ {written} (failure : SeamFailure), written ≤ size → ¬ written = size →
      Classified (already + written) failure → Wrote already size written (.error failure) := by
    intro written failure hle hne hclassified
    refine ⟨hle, fun h => (by cases h), fun other hother => ?_⟩
    obtain rfl := Except.error.inj hother
    exact ⟨Nat.lt_of_le_of_ne hle hne, hclassified⟩
  induction turns generalizing written with
  | nil =>
    unfold writeLoop
    split
    · rename_i hdone
      exact ⟨h, fun _ => hdone, fun _ hfailure => (by cases hfailure)⟩
    · rename_i hleft
      split
      · exact hstops _ h hleft (classified_unknown rfl (by decide))
      · exact hstops _ h hleft (classified_unknown rfl (by decide))
      · rename_i hread
        exact hstops _ h hleft (watchCancelled_error hread).1
  | cons turn turns ih =>
    unfold writeLoop
    split
    · rename_i hdone
      exact ⟨h, fun _ => hdone, fun _ hfailure => (by cases hfailure)⟩
    · rename_i hleft
      split
      · exact hstops _ h hleft (classified_unknown rfl (by decide))
      · split
        · exact hstops _ h hleft (classified_unknown rfl (by decide))
        · exact ih (by omega)
        · exact ih h
        · exact hstops _ h hleft (classified_unknown rfl (by decide))
        · exact ih h
        · exact hstops _ h hleft (classified_unknown rfl McpReason.noConfusion)
      · rename_i hread
        exact hstops _ h hleft (watchCancelled_error hread).1

theorem waitLoop_classified {callBytes : ℕ} {turns : List WaitTurn} {late : CancelRead}
    (h : waitLoop callBytes turns late = .error failure) :
    Classified callBytes failure := by
  induction turns with
  | nil =>
    unfold waitLoop at h
    split at h
    · cases h
      exact classified_unknown rfl (by decide)
    · cases h
      exact classified_unknown rfl (by decide)
    · rename_i hread
      cases h
      exact (watchCancelled_error hread).1
  | cons turn turns ih =>
    unfold waitLoop at h
    split at h
    · cases h
      exact classified_unknown rfl (by decide)
    · split at h
      · cases h
      · rename_i signalled _
        cases h
        cases signalled <;> exact classified_unknown rfl (by decide)
      · rename_i reason hread _ _
        cases h
        refine classified_unknown rfl fun hreason => ?_
        subst hreason
        exact absurd hread (by decide)
      · cases h
        exact classified_unknown rfl (by decide)
      · exact ih h
      · cases h
        exact classified_unknown rfl (by decide)
      · cases h
        exact classified_unknown rfl (by decide)
    · rename_i hread
      cases h
      exact (watchCancelled_error hread).1

theorem UnreadAt.left {size written : ℕ} {late : CancelRead} {turns : List WriteTurn}
    (h : UnreadAt size late turns written) : written < size := by
  cases h <;> assumption

theorem writeLoop_hands {already size written count : ℕ} {late : CancelRead} {turn : WriteTurn}
    {turns : List WriteTurn} (hhands : turn.Hands count) (hleft : written + count < size) :
    writeLoop already size (turn :: turns) late written =
      writeLoop already size turns late (written + count) := by
  obtain ⟨hread, hwrite⟩ := hhands
  have hunfinished : ¬ written = size := by omega
  have hwatch : watchCancelled turn.cancelled (already + written) = .ok false := by rw [hread]; rfl
  rw [writeLoop, if_neg hunfinished, hwatch]
  cases hturn : turn.write with
  | wrote n =>
    rw [hturn] at hwrite
    obtain ⟨hpos, rfl⟩ := hwrite
    obtain ⟨n, rfl⟩ := Nat.exists_eq_succ_of_ne_zero (Nat.pos_iff_ne_zero.mp hpos)
    have hmin : min (n + 1) (size - written) = n + 1 := by omega
    exact congrArg (fun count => writeLoop already size turns late (written + count)) hmin
  | wouldBlock ready =>
    rw [hturn] at hwrite
    obtain ⟨rfl, rfl⟩ := hwrite
    rfl
  | interrupted =>
    rw [hturn] at hwrite
    obtain rfl := hwrite
    rfl
  | failed kind =>
    rw [hturn] at hwrite
    exact hwrite.elim

/-- A write ends at a read of the cancellation, with some bytes handed over, exactly where it is
left unread. -/
theorem writeLoop_unread {size : ℕ} {late : CancelRead} {turns : List WriteTurn} {written : ℕ}
    (hle : written ≤ size) :
    UnreadAt size late turns written ↔
      ∃ n failure, writeLoop 0 size turns late written = (n, .error failure) ∧
        failure.reason = .cancellationUnreadable ∧ 1 ≤ n := by
  constructor
  · intro h
    induction h with
    | @here turns written source hsome hleft hread =>
      have hwatch : ∃ failure : SeamFailure,
          watchCancelled (nextRead turns late) (0 + written) = .error failure ∧
            failure.reason = .cancellationUnreadable := by
        rw [hread]
        exact ⟨_, if_neg (by omega), rfl⟩
      obtain ⟨failure, hwatch, hreason⟩ := hwatch
      refine ⟨written, failure, ?_, hreason, hsome⟩
      cases turns with
      | nil =>
        change watchCancelled late (0 + written) = .error failure at hwatch
        rw [writeLoop, if_neg (by omega), hwatch]
      | cons turn turns =>
        change watchCancelled turn.cancelled (0 + written) = .error failure at hwatch
        rw [writeLoop, if_neg (by omega), hwatch]
    | later hleft hhands h ih =>
      rw [writeLoop_hands hhands h.left]
      exact ih (Nat.le_of_lt h.left)
  · rintro ⟨n, failure, hloop, hreason, hn⟩
    induction turns generalizing written with
    | nil =>
      unfold writeLoop at hloop
      split at hloop
      · cases hloop
      · rename_i hleft
        split at hloop <;> cases hloop
        · cases hreason
        · cases hreason
        · rename_i hwatch
          obtain ⟨-, -, source, hread⟩ := watchCancelled_error hwatch
          exact .here hn (Nat.lt_of_le_of_ne hle hleft) hread
    | cons turn turns ih =>
      unfold writeLoop at hloop
      split at hloop
      · cases hloop
      · rename_i hleft
        have hlt := Nat.lt_of_le_of_ne hle hleft
        split at hloop
        · cases hloop
          cases hreason
        · rename_i hwatch
          have hread := watchCancelled_ok hwatch
          split at hloop
          · cases hloop
            cases hreason
          · rename_i count hcount hwrite
            have hnext : written + min count (size - written) ≤ size := by omega
            have hunread := ih hnext hloop
            have hmin : min count (size - written) = count := by
              have := hunread.left
              omega
            rw [hmin] at hunread
            refine .later hlt ⟨hread, ?_⟩ hunread
            rw [hwrite]
            exact ⟨Nat.pos_of_ne_zero hcount, rfl⟩
          · rename_i hwrite
            refine @UnreadAt.later size late turn turns written 0 hlt ⟨hread, ?_⟩ (ih hle hloop)
            rw [hwrite]
            exact ⟨rfl, rfl⟩
          · cases hloop
            cases hreason
          · rename_i hwrite
            refine @UnreadAt.later size late turn turns written 0 hlt ⟨hread, ?_⟩ (ih hle hloop)
            rw [hwrite]
          · cases hloop
            cases hreason
        · cases hloop
          rename_i hwatch
          obtain ⟨-, -, source, hread⟩ := watchCancelled_error hwatch
          exact .here hn hlt hread

/-! ## One request -/

/-- The session once a frame is handed over, in whole or in part. -/
def Session.handed (session : Session) (frame : RequestFrame) (written : ℕ) : Session :=
  { session with
    nextId := session.nextId + 1
    bytesSent := session.bytesSent + written
    callBytes := if frame = .call then session.callBytes + written else session.callBytes
    pipes := { session.pipes with wire := session.pipes.wire ++ [(frame, written)] } }

def Session.heard (session : Session) (answered : Answered) : Session :=
  { session with pipes := { session.pipes with answers := session.pipes.answers ++ [answered] } }

/-- The frame of a request is one that goes out. -/
structure Goes (client : Client) (session : Session) (method : String) (params : Json)
    (exchange : Exchange) (text : List Byte) : Prop where
  encoded : client.encode (requestValue (session.nextId + 1) method params) = .ok text
  fits : (text ++ [newline]).length ≤ mcpRequestMaxBytes
  stdin : session.stdin = true
  nonblocking : exchange.nonblocking = true

/-- How a request ends. -/
inductive Ended (client : Client) (session : Session) (method : String) (params : Json)
    (exchange : Exchange) : Session → Except SeamFailure Json → Prop
  | refused {failure : SeamFailure} (hreason : failure.reason ≠ .cancellationUnreadable)
      (hstate : failure.state ≠ .succeeded)
      (hstays : ∀ text, ¬ Goes client session method params exchange text) :
      Ended client session method params exchange
        { session with nextId := session.nextId + 1 } (.error failure)
  | unwritten {text : List Byte} {written : ℕ} {failure : SeamFailure}
      (hgoes : Goes client session method params exchange text)
      (hloop : writeLoop session.callBytes (text ++ [newline]).length exchange.writes
        exchange.lateWrite 0 = (written, .error failure)) :
      Ended client session method params exchange
        (session.handed (.of method) written) (.error failure)
  | unanswered {text : List Byte} {size : ℕ} {failure : SeamFailure}
      (hgoes : Goes client session method params exchange text) (hsize : 1 ≤ size)
      (hloop : writeLoop session.callBytes (text ++ [newline]).length exchange.writes
        exchange.lateWrite 0 = (size, .ok ()))
      (hclassified : Classified (session.handed (.of method) size).callBytes failure) :
      Ended client session method params exchange (session.handed (.of method) size)
        (.error failure)
  | answered {text : List Byte} {size : ℕ} {answer : Except SeamFailure Json} (parsed : Json)
      (hgoes : Goes client session method params exchange text) (hsize : 1 ≤ size)
      (hloop : writeLoop session.callBytes (text ++ [newline]).length exchange.writes
        exchange.lateWrite 0 = (size, .ok ()))
      (hread : readAnswer (session.nextId + 1) parsed = answer) :
      Ended client session method params exchange
        ((session.handed (.of method) size).heard ⟨.of method, session.nextId + 1, parsed⟩) answer

theorem writeFrame_goes {session : Session} {encoded : List Byte} {exchange : Exchange}
    {frame : RequestFrame} (hfits : encoded.length ≤ mcpRequestMaxBytes)
    (hstdin : session.stdin = true) (hnonblocking : exchange.nonblocking = true) {written : ℕ}
    {verdict : Except SeamFailure Unit}
    (hloop : writeLoop session.callBytes encoded.length exchange.writes exchange.lateWrite 0 =
      (written, verdict)) :
    ({ session with nextId := session.nextId + 1 } : Session).writeFrame encoded exchange frame =
      (session.handed frame written, verdict) := by
  unfold Session.writeFrame
  rw [if_neg (Nat.not_lt.mpr hfits), if_neg (by simp [hstdin]), if_neg (by simp [hnonblocking])]
  simp only [hloop]
  rfl

theorem writeFrame_stays {session : Session} {encoded : List Byte} {exchange : Exchange}
    {frame : RequestFrame} (hstays : ¬ (encoded.length ≤ mcpRequestMaxBytes ∧
      session.stdin = true ∧ exchange.nonblocking = true)) :
    ∃ failure : SeamFailure, session.writeFrame encoded exchange frame =
      (session, .error failure) ∧ failure.reason ≠ .cancellationUnreadable ∧
        failure.state ≠ .succeeded := by
  unfold Session.writeFrame
  split
  · exact ⟨_, rfl, McpReason.noConfusion, McpState.noConfusion⟩
  · rename_i hfits
    split
    · exact ⟨_, rfl, McpReason.noConfusion, McpState.noConfusion⟩
    · rename_i hstdin
      split
      · exact ⟨_, rfl, McpReason.noConfusion, McpState.noConfusion⟩
      · rename_i hnonblocking
        exact absurd ⟨Nat.le_of_not_lt hfits, by simpa using hstdin, by simpa using hnonblocking⟩
          hstays

theorem request_ended {client : Client} {session : Session} {method : String} {params : Json}
    {exchange : Exchange} (hmethod : method ∈ mcpDeclaredMethods) :
    Ended client session method params exchange
      (session.request client method params exchange).1
      (session.request client method params exchange).2 := by
  unfold Session.request
  rw [if_neg (not_not.mpr hmethod)]
  cases hencode : client.encode (requestValue (session.nextId + 1) method params) with
  | error source =>
    simp only [hencode]
    refine .refused McpReason.noConfusion McpState.noConfusion fun text hgoes => ?_
    have hencoded := hgoes.encoded
    rw [hencode] at hencoded
    cases hencoded
  | ok text =>
    simp only [hencode]
    by_cases hgoes : (text ++ [newline]).length ≤ mcpRequestMaxBytes ∧
      session.stdin = true ∧ exchange.nonblocking = true
    · obtain ⟨hfits, hstdin, hnonblocking⟩ := hgoes
      have hgoes : Goes client session method params exchange text :=
        ⟨hencode, hfits, hstdin, hnonblocking⟩
      have hwrote := @writeLoop_wrote session.callBytes (text ++ [newline]).length exchange.writes
        exchange.lateWrite 0 (Nat.zero_le _)
      have hsize : 1 ≤ (text ++ [newline]).length := by simp
      rcases hloop : writeLoop session.callBytes (text ++ [newline]).length exchange.writes
        exchange.lateWrite 0 with ⟨written, failure | _⟩
      · rw [writeFrame_goes hfits hstdin hnonblocking hloop]
        exact .unwritten hgoes hloop
      · rw [writeFrame_goes hfits hstdin hnonblocking hloop]
        rw [hloop] at hwrote
        obtain rfl : written = (text ++ [newline]).length := hwrote.done rfl
        simp only [Session.wait]
        split
        · rename_i failure hwait
          exact .unanswered hgoes hsize hloop (waitLoop_classified hwait)
        · rename_i line hwait
          split
          · exact .unanswered hgoes hsize hloop (classified_unknown rfl McpReason.noConfusion)
          · rename_i parsed _
            exact .answered parsed hgoes hsize hloop rfl
    · have hstays : ∀ other, ¬ Goes client session method params exchange other := by
        intro other hother
        obtain rfl := Except.ok.inj (hencode ▸ hother.encoded)
        exact hgoes ⟨hother.fits, hother.stdin, hother.nonblocking⟩
      obtain ⟨failure, hframe, hreason, hstate⟩ :=
        @writeFrame_stays { session with nextId := session.nextId + 1 } (text ++ [newline]) exchange
          (.of method) hgoes
      rw [hframe]
      exact .refused hreason hstate hstays

/-! ## What a failure may be settled as -/

theorem Pipes.called_append (wire : List (RequestFrame × ℕ)) (frame : RequestFrame) (written : ℕ)
    (answers : List Answered) :
    Pipes.called ⟨wire ++ [(frame, written)], answers⟩ =
      Pipes.called ⟨wire, answers⟩ + if frame = .call then written else 0 := by
  unfold Pipes.called
  by_cases h : frame = .call <;> simp [h]

/-- A failure under a watch that was told the bytes of the call frame. -/
theorem truthful_classified {pipes : Pipes} (h : Classified pipes.called failure) :
    Truthful pipes failure.state (some failure.reason) := by
  unfold Classified at h
  by_cases huncalled : failure.reason = .cancellationUnreadable ∧ pipes.called = 0
  · rw [if_pos huncalled] at h
    refine ⟨fun _ => .inl huncalled.2, fun hstate => ?_, fun _ => ?_⟩
    · rw [h] at hstate
      cases hstate
    · rw [h, huncalled.2]
      exact iff_of_false McpState.noConfusion (by decide)
  · rw [if_neg huncalled] at h
    refine ⟨fun hstate => ?_, fun hstate => ?_, fun hreason => ?_⟩
    · rw [h] at hstate
      cases hstate
    · rw [h] at hstate
      cases hstate
    · have hreason := Option.some.inj hreason
      exact iff_of_true h (Nat.one_le_iff_ne_zero.mpr fun hcalled => huncalled ⟨hreason, hcalled⟩)

/-- A failure before any byte of the call, whose reason is not the watch. -/
theorem truthful_uncalled {pipes : Pipes} (hcalled : pipes.called = 0)
    (hreason : failure.reason ≠ .cancellationUnreadable) (hstate : failure.state ≠ .succeeded) :
    Truthful pipes failure.state (some failure.reason) :=
  ⟨fun _ => .inl hcalled, fun h => absurd h hstate, fun h => absurd (Option.some.inj h) hreason⟩

theorem readAnswer_error {id : ℕ} {parsed : Json} (h : readAnswer id parsed = .error failure) :
    failure.reason ≠ .cancellationUnreadable ∧ failure.state ≠ .succeeded ∧
      (failure.state = .outcomeUnknown ∨ failure.state = .failed ∧
        (parsed.get "id").bind Json.asU64 = some id ∧ ∃ error, parsed.get "error" = some error) := by
  unfold readAnswer at h
  split at h
  · cases h
    exact ⟨McpReason.noConfusion, McpState.noConfusion, .inl rfl⟩
  · rename_i hid
    split at h
    · rename_i error herror
      cases h
      exact ⟨McpReason.noConfusion, McpState.noConfusion,
        .inr ⟨rfl, not_not.mp hid, error, herror⟩⟩
    · split at h
      · cases h
      · cases h
        exact ⟨McpReason.noConfusion, McpState.noConfusion, .inl rfl⟩

theorem readAnswer_ok {id : ℕ} {parsed result : Json} (h : readAnswer id parsed = .ok result) :
    (parsed.get "id").bind Json.asU64 = some id ∧ parsed.get "error" = none ∧
      parsed.get "result" = some result := by
  unfold readAnswer at h
  split at h
  · cases h
  · rename_i hid
    split at h
    · cases h
    · rename_i herror
      split at h
      · rename_i hresult
        cases h
        exact ⟨not_not.mp hid, herror, hresult⟩
      · cases h

theorem negotiate_error {client : Client} {result : Json}
    (h : negotiate client result = .error failure) :
    failure.reason ≠ .cancellationUnreadable ∧ failure.state ≠ .succeeded := by
  unfold negotiate at h
  split at h
  · cases h
    exact ⟨McpReason.noConfusion, McpState.noConfusion⟩
  · split at h
    · cases h
      exact ⟨McpReason.noConfusion, McpState.noConfusion⟩
    · cases h

theorem readResult_error {result : Json} (h : readResult result = .error failure) :
    failure.state = .outcomeUnknown ∧ failure.reason ≠ .cancellationUnreadable := by
  unfold readResult at h
  split at h
  · split at h
    · cases h
      exact ⟨rfl, McpReason.noConfusion⟩
    · rename_i hbounded
      split at h
      · -- An empty handle is no bounded token.
        rename_i hempty
        rw [hempty] at hbounded
        exact absurd rfl hbounded
      · cases h
  · cases h
  · cases h
    exact ⟨rfl, McpReason.noConfusion⟩

theorem readResult_ok {result : Json} {verdict : Verdict} (h : readResult result = .ok verdict) :
    (∃ handle, verdict = .inputRequired handle) ∨
      (∃ content, verdict = .complete content) ∧ result.getStr "resultType" = some "complete" := by
  unfold readResult at h
  split at h
  · split at h
    · cases h
    · split at h
      · cases h
      · cases h
        exact .inl ⟨_, rfl⟩
  · rename_i hkind
    cases h
    refine .inr ⟨⟨_, rfl⟩, ?_⟩
    cases hresult : result.getStr "resultType" with
    | none =>
      rw [hresult] at hkind
      exact absurd hkind (by decide)
    | some kind =>
      rw [hresult] at hkind
      exact congrArg some hkind
  · cases h

/-! ## The two frames -/

theorem truthful_answered {pipes : Pipes} {id : ℕ} {parsed : Json}
    (hpipes : ⟨.call, id, parsed⟩ ∈ pipes.answers)
    (hright : ¬ (⟨.call, id, parsed⟩ : Answered).Misrefuses) :
    Truthful pipes (verdictState (readAnswer id parsed >>= readResult))
      (verdictReason (readAnswer id parsed >>= readResult)) := by
  cases hread : readAnswer id parsed with
  | error failure =>
    obtain ⟨hreason, hstate, hunknown | ⟨hfailed, hown, error, herror⟩⟩ := readAnswer_error hread
    · exact truthful_classified (classified_unknown hunknown hreason)
    · have hobject : isErrorObject error = true := by
        by_contra hobject
        exact hright ⟨rfl, hown, error, herror, Bool.eq_false_iff.mpr hobject⟩
      exact ⟨fun _ => .inr ⟨_, hpipes, rfl, hown, error, herror, hobject⟩,
        fun h => absurd h hstate, fun h => absurd (Option.some.inj h) hreason⟩
  | ok result =>
    obtain ⟨hown, _, hresult⟩ := readAnswer_ok hread
    rw [ok_bind]
    cases hverdict : readResult result with
    | error failure =>
      obtain ⟨hunknown, hreason⟩ := readResult_error hverdict
      exact truthful_classified (classified_unknown hunknown hreason)
    | ok verdict =>
      rcases readResult_ok hverdict with ⟨handle, rfl⟩ | ⟨⟨content, rfl⟩, hkind⟩
      · exact ⟨fun h => (by cases h), fun h => (by cases h), fun h => (by cases h)⟩
      · exact ⟨fun h => (by cases h), fun _ => ⟨_, hpipes, rfl, hown, result, hresult, hkind⟩,
          fun h => (by cases h)⟩

theorem not_truthful_misrefused {pipes : Pipes} {answers : List Answered} {id : ℕ} {parsed : Json}
    (hcalled : 1 ≤ pipes.called) (hpipes : pipes.answers = answers ++ [⟨.call, id, parsed⟩])
    (hothers : ∀ answered ∈ answers, answered.frame = .handshake)
    (hwrong : (⟨.call, id, parsed⟩ : Answered).Misrefuses) :
    ¬ Truthful pipes (verdictState (readAnswer id parsed >>= readResult))
      (verdictReason (readAnswer id parsed >>= readResult)) := by
  obtain ⟨-, hown, error, herror, hobject⟩ := hwrong
  change (parsed.get "id").bind Json.asU64 = some id at hown
  have hread : ∃ failure, readAnswer id parsed = .error failure ∧ failure.state = .failed := by
    unfold readAnswer
    rw [if_neg (not_not.mpr hown)]
    simp only [herror]
    exact ⟨_, rfl, rfl⟩
  obtain ⟨failure, hread, hfailed⟩ := hread
  rw [hread]
  intro htruthful
  rcases htruthful.failed hfailed with huncalled | ⟨answered, hmem, hcall, -, other, hother, hfine⟩
  · omega
  · rw [hpipes] at hmem
    rcases mem_append.mp hmem with hmem | hmem
    · rw [hothers answered hmem] at hcall
      cases hcall
    · obtain rfl := mem_singleton.mp hmem
      obtain rfl := Option.some.inj (herror ▸ hother)
      rw [hobject] at hfine
      cases hfine

theorem call_truthful_iff {client : Client} {session after : Session} {params : Json}
    {exchange : Exchange} {answered : Except SeamFailure Json}
    (h : Ended client session mcpCallMethod params exchange after answered)
    (hbytes : session.callBytes = 0) (hcalled : session.pipes.called = 0)
    (hanswers : ∀ other ∈ session.pipes.answers, other.frame = .handshake) :
    Truthful after.pipes (verdictState (answered >>= readResult))
        (verdictReason (answered >>= readResult)) ↔
      ∀ other ∈ after.pipes.answers, ¬ other.Misrefuses := by
  have hothers : ∀ other ∈ session.pipes.answers, ¬ other.Misrefuses := by
    rintro other hmem ⟨hcall, -⟩
    rw [hanswers other hmem] at hcall
    cases hcall
  have hframe : RequestFrame.of mcpCallMethod = .call := by decide
  have hhanded : ∀ written, (session.handed (.of mcpCallMethod) written).pipes.called = written := by
    intro written
    refine (Pipes.called_append _ _ _ _).trans ?_
    rw [hcalled, if_pos hframe, Nat.zero_add]
  have hcount : ∀ written, (session.handed (.of mcpCallMethod) written).callBytes = written := by
    intro written
    change (if RequestFrame.of mcpCallMethod = .call then session.callBytes + written
      else session.callBytes) = written
    rw [if_pos hframe, hbytes, Nat.zero_add]
  cases h with
  | refused hreason hstate _ => exact iff_of_true (truthful_uncalled hcalled hreason hstate) hothers
  | @unwritten text written failure _ hloop =>
    refine iff_of_true (truthful_classified ?_) hothers
    have hwrote := @writeLoop_wrote session.callBytes (text ++ [newline]).length exchange.writes
      exchange.lateWrite 0 (Nat.zero_le _)
    rw [hloop, hbytes] at hwrote
    have hclassified := (hwrote.failed failure rfl).2
    rw [Nat.zero_add] at hclassified
    rwa [hhanded]
  | @unanswered text size failure _ _ _ hclassified =>
    refine iff_of_true (truthful_classified ?_) hothers
    rw [hcount] at hclassified
    rwa [hhanded]
  | @answered text size answer parsed _ hsize _ hread =>
    subst hread
    by_cases hwrong : (⟨.call, session.nextId + 1, parsed⟩ : Answered).Misrefuses
    · refine iff_of_false ?_ fun hall => hall _ (mem_append_right _ mem_cons_self) hwrong
      refine not_truthful_misrefused ?_ rfl hanswers hwrong
      exact (hhanded size).symm ▸ hsize
    · refine iff_of_true ?_ fun other hmem => ?_
      · exact truthful_answered (mem_append_right _ mem_cons_self) hwrong
      · rcases mem_append.mp hmem with hmem | hmem
        · exact hothers other hmem
        · exact mem_singleton.mp hmem ▸ hwrong

/-- The handshake is unread halfway exactly where its write ends so. -/
theorem handshakeUnread_iff {client : Client} {peer : Peer} :
    HandshakeUnread client peer ↔ ∃ text written failure,
      Goes client .started mcpHandshakeMethod (initializeParams client) peer.handshake text ∧
      writeLoop 0 (text ++ [newline]).length peer.handshake.writes peer.handshake.lateWrite 0 =
        (written, .error failure) ∧
      failure.reason = .cancellationUnreadable ∧ 1 ≤ written := by
  constructor
  · rintro ⟨text, hencode, hfits, hnonblocking, hunread⟩
    obtain ⟨written, failure, hloop, hreason, hsome⟩ :=
      (writeLoop_unread (Nat.zero_le _)).mp hunread
    exact ⟨text, written, failure, ⟨hencode, hfits, rfl, hnonblocking⟩, hloop, hreason, hsome⟩
  · rintro ⟨text, written, failure, hgoes, hloop, hreason, hsome⟩
    exact ⟨text, hgoes.encoded, hgoes.fits, hgoes.nonblocking,
      (writeLoop_unread (Nat.zero_le _)).mpr ⟨written, failure, hloop, hreason, hsome⟩⟩

theorem Goes.same {client : Client} {session : Session} {method : String} {params : Json}
    {exchange : Exchange} {text other : List Byte}
    (h : Goes client session method params exchange text)
    (hother : Goes client session method params exchange other) : text = other :=
  Except.ok.inj (h.encoded.symm.trans hother.encoded)

theorem not_unread_of_written {client : Client} {peer : Peer} {text : List Byte} {size : ℕ}
    (hgoes : Goes client .started mcpHandshakeMethod (initializeParams client) peer.handshake text)
    (hloop : writeLoop 0 (text ++ [newline]).length peer.handshake.writes
      peer.handshake.lateWrite 0 = (size, .ok ())) : ¬ HandshakeUnread client peer := by
  intro hunread
  obtain ⟨other, written, failure, hother, hfails, _, _⟩ := handshakeUnread_iff.mp hunread
  obtain rfl := hgoes.same hother
  rw [hloop] at hfails
  cases congrArg Prod.snd hfails

/-- A conversation ends in a truthful settlement exactly where its handshake is not left unread
halfway and no answer to its call refuses it with what is no error object. -/
theorem conversed_truthful_iff (client : Client) (call : ToolCall) (peer : Peer) :
    (converse client call peer).Truthful ↔ ¬ HandshakeUnread client peer ∧
      ∀ answered ∈ (converse client call peer).session.pipes.answers, ¬ answered.Misrefuses := by
  have hended := @request_ended client .started mcpHandshakeMethod (initializeParams client)
    peer.handshake (by decide)
  have hnone : ∀ {P : Answered → Prop}, ∀ answered ∈ ([] : List Answered), P answered :=
    fun _ h => absurd h not_mem_nil
  have hhandshake : ∀ n answers,
      Pipes.called ⟨[(RequestFrame.of mcpHandshakeMethod, n)], answers⟩ = 0 := fun _ _ => rfl
  unfold Conversed.Truthful Conversed.verdict converse
  generalize Session.started.request client mcpHandshakeMethod (initializeParams client)
    peer.handshake = first at hended
  obtain ⟨session, version⟩ := first
  cases hended with
  -- Nothing of the handshake was written.
  | @refused failure hreason hstate hstays =>
    refine iff_of_true (truthful_uncalled rfl hreason hstate) ⟨fun hunread => ?_, hnone⟩
    obtain ⟨text, _, _, hgoes, _⟩ := handshakeUnread_iff.mp hunread
    exact hstays text hgoes
  | @unwritten text written failure hgoes hloop =>
    change writeLoop 0 (text ++ [newline]).length peer.handshake.writes peer.handshake.lateWrite 0 =
      (written, .error failure) at hloop
    have hwrote := @writeLoop_wrote 0 (text ++ [newline]).length peer.handshake.writes
      peer.handshake.lateWrite 0 (Nat.zero_le _)
    rw [hloop] at hwrote
    have hclassified := (hwrote.failed failure rfl).2
    rw [Nat.zero_add] at hclassified
    by_cases hunread : failure.reason = .cancellationUnreadable ∧ 1 ≤ written
    · -- The watch was told of handshake bytes, so the failure reads as if the call were out.
      refine iff_of_false (fun htruthful => ?_) fun h => h.1 (handshakeUnread_iff.mpr
        ⟨text, written, failure, hgoes, hloop, hunread⟩)
      have hunknown : failure.state = .outcomeUnknown := by
        rw [hclassified, if_neg (by omega)]
      have hcalled := (htruthful.unreadable (congrArg some hunread.1)).mp hunknown
      exact Nat.not_succ_le_zero 0 ((hhandshake written []) ▸ hcalled)
    · refine iff_of_true (truthful_classified ?_) ⟨fun h => ?_, hnone⟩
      · by_cases hreason : failure.reason = .cancellationUnreadable
        · obtain rfl : written = 0 := by
            have : ¬ 1 ≤ written := fun h => hunread ⟨hreason, h⟩
            omega
          exact hclassified
        · rw [Classified, if_neg fun h => hreason h.1] at hclassified
          exact classified_unknown hclassified hreason
      · obtain ⟨other, n, failed, hother, hfails, hbad⟩ := handshakeUnread_iff.mp h
        obtain rfl := hgoes.same hother
        rw [hloop] at hfails
        obtain ⟨rfl, rfl⟩ : written = n ∧ failure = failed := by
          refine ⟨congrArg Prod.fst hfails, ?_⟩
          exact Except.error.inj (congrArg Prod.snd hfails)
        exact hunread hbad
  | @unanswered text size failure hgoes _ hloop hclassified =>
    exact iff_of_true (truthful_classified hclassified) ⟨not_unread_of_written hgoes hloop, hnone⟩
  | @answered text size answer parsed hgoes _ hloop hread =>
    have hwritten := not_unread_of_written hgoes hloop
    have hanswers : ∀ other ∈ [(⟨.of mcpHandshakeMethod, 1, parsed⟩ : Answered)],
        other.frame = .handshake := by
      intro other hmem
      obtain rfl := mem_singleton.mp hmem
      rfl
    have hothers : ∀ other ∈ [(⟨.of mcpHandshakeMethod, 1, parsed⟩ : Answered)],
        ¬ other.Misrefuses := by
      rintro other hmem ⟨hcall, -⟩
      rw [hanswers other hmem] at hcall
      cases hcall
    cases version with
    | error failure =>
      obtain ⟨hreason, hstate, -⟩ := readAnswer_error hread
      exact iff_of_true (truthful_uncalled (hhandshake size _) hreason hstate)
        ⟨hwritten, hothers⟩
    | ok result =>
      cases hversion : negotiate client result with
      | error failure =>
        obtain ⟨hreason, hstate⟩ := negotiate_error hversion
        simp only [hversion]
        exact iff_of_true (truthful_uncalled (hhandshake size _) hreason hstate)
          ⟨hwritten, hothers⟩
      | ok digest =>
        simp only [hversion]
        have hcall := @request_ended client ((Session.started.handed (.of mcpHandshakeMethod)
          size).heard ⟨.of mcpHandshakeMethod, Session.started.nextId + 1, parsed⟩) mcpCallMethod
          call.params peer.call (by decide)
        refine (call_truthful_iff hcall rfl (hhandshake size _) hanswers).trans ?_
        exact (and_iff_right hwritten).symm

end Rivect.Mcp
