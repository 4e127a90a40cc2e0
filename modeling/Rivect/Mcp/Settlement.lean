import Rivect.Mcp.Call
import Rivect.Mcp.Truth

/-! # Settlements of runs

Whatever fails and wherever the process ends, what a run records is what it settled, and that is
truthful exactly where its conversation is.
-/

namespace Rivect.Mcp

open Lib List

namespace Settlement

def Truthful (settlement : Settlement) : Prop :=
  Mcp.Truthful settlement.pipes settlement.outcome.state settlement.outcome.reasonCode

/-- Where the settlement is of a conversation, its handshake was not left unread halfway, and its
call was not refused by what is no error object. -/
def Sound (client : Client) (peer : Peer) (settlement : Settlement) : Prop :=
  ∀ talk, settlement.talk = some talk → ¬ HandshakeUnread client peer ∧
    ∀ answered ∈ (converse client talk peer).session.pipes.answers, ¬ answered.Misrefuses

end Settlement

/-- What stands in a ledger stood there before the run, or records what the run settled. -/
structure Borne (start ledger : Ledger) : Prop where
  terminals : ∀ row ∈ ledger.terminals, row ∈ start.terminals ∨
    ∃ settlement ∈ ledger.settled, row.2 = terminalRecord settlement.outcome
  attempts : ∀ row ∈ ledger.attempts, row ∈ start.attempts ∨ row.2 = .running ∨
    ∃ settlement ∈ ledger.settled, Running.attemptState settlement.outcome = some row.2
  lines : ∀ line ∈ ledger.lines, line.record = "terminal" → line ∈ start.lines ∨
    ∃ settlement ∈ ledger.settled, ∃ origin, line = terminalLine settlement.outcome origin

/-- What a run keeps: its records are borne, each settlement is truthful where it is sound, and
some settlements are among those of the run. -/
structure Bears (client : Client) (peer : Peer) (start : Ledger) (held : List Settlement)
    (ledger : Ledger) : Prop where
  borne : Borne start ledger
  fine : ∀ settlement ∈ ledger.settled, settlement.Truthful ↔ settlement.Sound client peer
  holds : ∀ settlement ∈ held, settlement ∈ ledger.settled

section Steps

variable {client : Client} {peer : Peer} {start ledger after : Ledger} {held : List Settlement}

theorem Bears.update (h : Bears client peer start held ledger)
    (hsettled : after.settled = ledger.settled)
    (hterminals : ∀ row ∈ after.terminals, row ∈ ledger.terminals ∨
      ∃ settlement ∈ held, row.2 = terminalRecord settlement.outcome)
    (hattempts : ∀ row ∈ after.attempts, row ∈ ledger.attempts ∨ row.2 = .running ∨
      ∃ settlement ∈ held, Running.attemptState settlement.outcome = some row.2)
    (hlines : ∀ line ∈ after.lines, line.record = "terminal" → line ∈ ledger.lines ∨
      ∃ settlement ∈ held, ∃ origin, line = terminalLine settlement.outcome origin) :
    Bears client peer start held after := by
  refine ⟨⟨fun row hrow => ?_, fun row hrow => ?_, fun line hline hrecord => ?_⟩, ?_, ?_⟩
  · rw [hsettled]
    rcases hterminals row hrow with hrow | ⟨settlement, hheld, heq⟩
    · exact h.borne.terminals row hrow
    · exact .inr ⟨settlement, h.holds settlement hheld, heq⟩
  · rw [hsettled]
    rcases hattempts row hrow with hrow | hrunning | ⟨settlement, hheld, heq⟩
    · exact h.borne.attempts row hrow
    · exact .inr (.inl hrunning)
    · exact .inr (.inr ⟨settlement, h.holds settlement hheld, heq⟩)
  · rw [hsettled]
    rcases hlines line hline hrecord with hline | ⟨settlement, hheld, heq⟩
    · exact h.borne.lines line hline hrecord
    · exact .inr ⟨settlement, h.holds settlement hheld, heq⟩
  · rw [hsettled]
    exact h.fine
  · rw [hsettled]
    exact h.holds

theorem keeps_retain {α : Type} [DecidableEq α] {rows : Ledger → List (String × α)}
    {put : List (String × α) → Ledger → Ledger} {operation : String} {value : α}
    (hput : ∀ ledger, Bears client peer start held ledger →
      Bears client peer start held (put (rows ledger ++ [(operation, value)]) ledger)) :
    Prog.Keeps (Bears client peer start held) (retain rows put operation value) := by
  refine .bind .look fun ledger => ?_
  split
  · exact .effect hput
  · refine .bind (.effect fun _ h => h) fun _ => ?_
    split
    · exact .ret ()
    · exact .fail _

theorem keeps_retained {α : Type} (rows : Ledger → List (String × α)) (operation : String) :
    Prog.Keeps (Bears client peer start held) (retained rows operation) :=
  .observe

theorem keeps_retainClaim (operation : String) (claim : OperationClaim) :
    Prog.Keeps (Bears client peer start held) (retainClaim operation claim) :=
  keeps_retain fun _ h => h.update rfl (fun _ hrow => .inl hrow) (fun _ hrow => .inl hrow)
    fun _ hline _ => .inl hline

theorem keeps_retainContinuation (operation : String) (continuation : Continuation) :
    Prog.Keeps (Bears client peer start held) (retainContinuation operation continuation) :=
  keeps_retain fun _ h => h.update rfl (fun _ hrow => .inl hrow) (fun _ hrow => .inl hrow)
    fun _ hline _ => .inl hline

theorem keeps_retainTerminal (operation : String) {settlement : Settlement}
    (hheld : settlement ∈ held) :
    Prog.Keeps (Bears client peer start held)
      (retainTerminal operation (terminalRecord settlement.outcome)) := by
  refine keeps_retain fun _ h => h.update rfl (fun row hrow => ?_) (fun _ hrow => .inl hrow)
    fun _ hline _ => .inl hline
  rcases mem_append.mp hrow with hrow | hrow
  · exact .inl hrow
  · exact .inr ⟨settlement, hheld, by rw [mem_singleton.mp hrow]⟩

theorem keeps_setAttemptState (operation attempt : String) {state : AttemptState}
    (hstate : state = .running ∨
      ∃ settlement ∈ held, Running.attemptState settlement.outcome = some state) :
    Prog.Keeps (Bears client peer start held) (setAttemptState operation attempt state) := by
  refine .bind .look fun ledger => .bind (.effect fun _ h => ?_) fun _ => ?_
  · refine h.update rfl (fun _ hrow => .inl hrow) (fun row hrow => ?_) fun _ hline _ => .inl hline
    obtain ⟨old, hold, rfl⟩ := mem_map.mp hrow
    split
    · exact .inr hstate
    · exact .inl hold
  · split
    · exact .ret ()
    · exact .fail _

theorem keeps_openLog (operation : String) :
    Prog.Keeps (Bears client peer start held) (openLog operation) :=
  .bind (.effect fun _ h => h) fun _ => .bind .look fun _ => .ret _

theorem keeps_appendLine (log : RetainedLog) {line : RetainedLine}
    (hline : line.record = "terminal" →
      ∃ settlement ∈ held, ∃ origin, line = terminalLine settlement.outcome origin) :
    Prog.Keeps (Bears client peer start held) (appendLine log line) := by
  unfold appendLine
  split
  · exact .ret log
  · refine .bind (.effect fun _ h => ?_) fun _ => .ret _
    refine h.update rfl (fun _ hrow => .inl hrow) (fun _ hrow => .inl hrow)
      fun other hother hrecord => ?_
    rcases mem_append.mp hother with hother | hother
    · exact .inl hother
    · obtain rfl := mem_singleton.mp hother
      exact .inr (hline hrecord)

theorem keeps_recorded (operation : String) :
    Prog.Keeps (Bears client peer start held) (recorded operation) := by
  refine .bind (keeps_retained _ _) fun record => ?_
  split
  · exact .ret _
  · split
    · exact .fail _
    · exact .ret _

theorem keeps_recordedContinuation (operation : String) :
    Prog.Keeps (Bears client peer start held) (recordedContinuation operation) := by
  refine .bind (keeps_retained _ _) fun record => ?_
  split
  · exact .ret _
  · split
    · exact .fail _
    · exact .ret _

theorem keeps_settling {α : Type} {settlement : Settlement} {rest : McpProg α}
    (hfine : settlement.Truthful ↔ settlement.Sound client peer)
    (hrest : Prog.Keeps (Bears client peer start (settlement :: held)) rest) :
    Prog.Keeps (Bears client peer start held) (markSettled settlement >>= fun _ => rest) := by
  have hforget : ∀ ledger, Bears client peer start (settlement :: held) ledger →
      Bears client peer start held ledger := fun ledger h =>
    ⟨h.borne, h.fine, fun other hother => h.holds other (mem_cons_of_mem _ hother)⟩
  refine Prog.Ensures.bind (Q := fun _ => Bears client peer start (settlement :: held))
    (Prog.Ensures.mark fun ledger h => ?_) fun _ =>
      hrest.imp (fun _ h => h) (fun _ => hforget) (fun _ => hforget) hforget
  have hmore : ∀ other ∈ ledger.settled, other ∈ ledger.settled ++ [settlement] :=
    fun other hother => mem_append_left _ hother
  refine ⟨⟨fun row hrow => ?_, fun row hrow => ?_, fun line hline hrecord => ?_⟩,
    fun other hother => ?_, fun other hother => ?_⟩
  · rcases h.borne.terminals row hrow with hrow | ⟨other, hother, heq⟩
    · exact .inl hrow
    · exact .inr ⟨other, hmore other hother, heq⟩
  · rcases h.borne.attempts row hrow with hrow | hrunning | ⟨other, hother, heq⟩
    · exact .inl hrow
    · exact .inr (.inl hrunning)
    · exact .inr (.inr ⟨other, hmore other hother, heq⟩)
  · rcases h.borne.lines line hline hrecord with hline | ⟨other, hother, heq⟩
    · exact .inl hline
    · exact .inr ⟨other, hmore other hother, heq⟩
  · rcases mem_append.mp hother with hother | hother
    · exact h.fine other hother
    · exact mem_singleton.mp hother ▸ hfine
  · rcases mem_cons.mp hother with rfl | hother
    · exact mem_append_right _ mem_cons_self
    · exact hmore other (h.holds other hother)

/-! ## Settling -/

/-- A settlement without a conversation is sound, and truthful where its failure is not of the
watch. -/
theorem fine_quiet {outcome : McpOutcome} {failure : SeamFailure}
    (hstate : outcome.state = failure.state) (hreason : outcome.reasonCode = some failure.reason)
    (hclassified : Classified 0 failure ∨
      failure.reason ≠ .cancellationUnreadable ∧ failure.state ≠ .succeeded) :
    (⟨outcome, ⟨[], []⟩, none⟩ : Settlement).Truthful ↔
      (⟨outcome, ⟨[], []⟩, none⟩ : Settlement).Sound client peer := by
  refine iff_of_true ?_ fun talk htalk => (by cases htalk)
  unfold Settlement.Truthful
  rw [hstate, hreason]
  rcases hclassified with hclassified | ⟨hreason, hstate⟩
  · exact truthful_classified hclassified
  · exact truthful_uncalled rfl hreason hstate

theorem keeps_settleUnresolved (operation server : String) {reason : McpReason}
    (hreason : reason ≠ .cancellationUnreadable) :
    Prog.Keeps (Bears client peer start held) (settleUnresolved operation server reason) := by
  refine .bind (keeps_recorded operation) fun settled => ?_
  split
  · exact .ret _
  · refine .bind (keeps_retained _ _) fun claim => ?_
    split
    · exact .fail _
    · rename_i claim
      split
      · exact .fail _
      · refine keeps_settling (@fine_quiet client peer _ (.signal reason) rfl rfl
          (.inr ⟨hreason, McpState.noConfusion⟩)) ?_
        have hclaim : Prog.Keeps (Bears client peer start
            (⟨unresolvedOutcome operation reason, ⟨[], []⟩, none⟩ :: held))
            (settleClaim operation claim reason) := by
          unfold settleClaim
          split
          · exact .ret ()
          · exact keeps_setAttemptState _ _ (.inr ⟨_, mem_cons_self, rfl⟩)
        have hterminal := @keeps_retainTerminal client peer start
          (⟨unresolvedOutcome operation reason, ⟨[], []⟩, none⟩ :: held) operation _
          mem_cons_self
        have hline : ∀ log, Prog.Keeps (Bears client peer start
            (⟨unresolvedOutcome operation reason, ⟨[], []⟩, none⟩ :: held))
            (appendLine log (terminalLine (unresolvedOutcome operation reason) claim.origin)) :=
          fun log => keeps_appendLine log fun _ => ⟨_, mem_cons_self, claim.origin, rfl⟩
        exact hclaim.bind fun _ => hterminal.bind fun _ => (keeps_openLog operation).bind fun log =>
          (hline log).bind fun _ => .ret _

section

variable (running : Running)
include running

theorem keeps_settleAttempt {settlement : Settlement}
    (hheld : settlement ∈ held) :
    Prog.Keeps (Bears client peer start held) (running.settleAttempt settlement.outcome) := by
  unfold Running.settleAttempt
  split
  · exact .ret ()
  · split
    · rename_i hstate
      exact keeps_setAttemptState _ _ (.inr ⟨settlement, hheld, hstate⟩)
    · exact .ret ()

theorem keeps_settleRows {settlement : Settlement}
    (hheld : settlement ∈ held) :
    Prog.Keeps (Bears client peer start held) (running.settleRows settlement.outcome) := by
  unfold Running.settleRows
  split
  · exact (keeps_settleAttempt running hheld).bind fun _ => keeps_retainTerminal _ hheld
  · exact .ret ()

theorem keeps_retainOutcome (log : RetainedLog) {settlement : Settlement}
    (hheld : settlement ∈ held) :
    Prog.Keeps (Bears client peer start held) (running.retainOutcome log settlement.outcome) := by
  unfold Running.retainOutcome
  split
  · exact keeps_appendLine log fun _ => ⟨settlement, hheld, running.origin, rfl⟩
  · exact .ret log

theorem keeps_retainCleanup (log : RetainedLog) (outcome : McpOutcome)
    (cleanup : Cleanup) :
    Prog.Keeps (Bears client peer start held) (running.retainCleanup log outcome cleanup) := by
  unfold Running.retainCleanup
  split
  · exact keeps_appendLine log fun hrecord => absurd hrecord (by simp [cleanupLine])
  · exact .ret log

theorem keeps_finish {settlement : Settlement} (cleanup : Option Cleanup)
    (hfine : settlement.Truthful ↔ settlement.Sound client peer) :
    Prog.Keeps (Bears client peer start held) (running.finish settlement cleanup) := by
  have hheld : settlement ∈ settlement :: held := mem_cons_self
  refine keeps_settling hfine ((keeps_settleRows running hheld).bind fun _ => ?_)
  split
  · exact .ret _
  · exact (keeps_retainOutcome running _ hheld).bind fun _ => .ret _
  · exact (keeps_retainOutcome running _ hheld).bind fun log =>
      (keeps_retainCleanup running log _ _).bind fun _ => .ret _

theorem keeps_refuse {failure : SeamFailure} (hstate : failure.state = .failed)
    (hreason : failure.reason ≠ .cancellationUnreadable) :
    Prog.Keeps (Bears client peer start held) (running.refuse failure) := by
  refine keeps_finish running none (@fine_quiet client peer _ failure hstate.symm rfl
    (.inr ⟨hreason, ?_⟩))
  rw [hstate]
  exact McpState.noConfusion

theorem keeps_stamp :
    Prog.Keeps (Bears client peer start held) running.stamp := by
  unfold Running.stamp
  split
  · exact .ret ()
  · exact keeps_setAttemptState _ _ (.inl rfl)

end

/-! ## The run -/

theorem fine_conversed (talk : ToolCall) {outcome : McpOutcome}
    (hstate : outcome.state = verdictState (converse client talk peer).verdict)
    (hreason : outcome.reasonCode = verdictReason (converse client talk peer).verdict) :
    (⟨outcome, (converse client talk peer).session.pipes, some talk⟩ : Settlement).Truthful ↔
      (⟨outcome, (converse client talk peer).session.pipes, some talk⟩ : Settlement).Sound
        client peer := by
  unfold Settlement.Truthful
  rw [hstate, hreason]
  refine (conversed_truthful_iff client talk peer).trans ⟨?_, fun h => h talk rfl⟩
  rintro h other hother
  obtain rfl := Option.some.inj hother
  exact h

theorem keeps_exchange (running : Running) (host : Host) (talk : ToolCall)
    (around : Surroundings) :
    Prog.Keeps (Bears host.toClient around.peer start held)
      (running.exchange host talk around) := by
  refine .bind (.mark fun _ h => h.update rfl (fun _ hrow => .inl hrow) (fun _ hrow => .inl hrow)
    fun _ hline _ => .inl hline) fun _ => ?_
  cases hverdict : (converse host.toClient talk around.peer).verdict with
  | error failure =>
    exact keeps_finish _ _ (fine_conversed talk (by rw [hverdict]; rfl) (by rw [hverdict]; rfl))
  | ok verdict =>
    cases verdict with
    | inputRequired handle =>
      refine (keeps_recordedContinuation _).bind fun first =>
        (keeps_retainContinuation _ _).bind fun _ => ?_
      exact keeps_finish _ _ (fine_conversed talk (by rw [hverdict]; rfl) (by rw [hverdict]; rfl))
    | complete content =>
      exact keeps_finish _ _ (fine_conversed talk (by rw [hverdict]; rfl) (by rw [hverdict]; rfl))

theorem keeps_begin (running : Running) (host : Host) (talk : ToolCall) (around : Surroundings) :
    Prog.Keeps (Bears host.toClient around.peer start held) (running.begin host talk around) := by
  refine (Prog.Keeps.caught (keeps_openLog _)).bind fun log => ?_
  split
  · exact keeps_refuse _ rfl McpReason.noConfusion
  · rename_i log
    refine (Prog.Keeps.caught (keeps_appendLine log fun hrecord =>
      absurd hrecord (by simp [sendLine]))).bind fun log => ?_
    split
    · exact keeps_refuse _ rfl McpReason.noConfusion
    · refine (Prog.Keeps.caught (keeps_stamp _)).bind fun stamped => ?_
      split
      · exact keeps_refuse _ rfl McpReason.noConfusion
      · split
        · exact (keeps_refuse _ rfl McpReason.noConfusion).bind fun _ => .fail _
        · split
          · exact keeps_refuse _ rfl McpReason.noConfusion
          · split
            · rename_i error _
              refine (keeps_finish _ _ (@fine_quiet host.toClient around.peer _
                (.admissionWithdrawn (host.display error)) rfl rfl
                (.inr ⟨McpReason.noConfusion, McpState.noConfusion⟩))).bind fun _ => .fail _
            · exact keeps_exchange _ host talk around

theorem keeps_standing (call : McpCall) (operation : String) :
    Prog.Keeps (Bears client peer start held) (standing call operation) := by
  unfold standing
  split
  · exact .ret _
  · refine (keeps_recorded operation).bind fun settled => ?_
    split
    · exact .ret _
    · refine (keeps_retained _ _).bind fun claim => ?_
      split
      · exact .fail _
      · refine (Prog.Keeps.ofExcept _).bind fun _ =>
          (keeps_recordedContinuation operation).bind fun handle => ?_
        split
        · exact .ret _
        · exact .ret _

theorem run_bears (host : Host) (call : McpCall) (attempt : String) (around : Surroundings)
    (turns : ℕ → Turn) (n : ℕ) (ledger : Ledger) :
    Bears host.toClient around.peer ledger []
      (run host call attempt around turns (n, ledger)).2.2 := by
  have hstart : ∀ before, before = ledger → Bears host.toClient around.peer ledger []
      { before with settled := [] } := by
    rintro before rfl
    exact ⟨⟨fun _ hrow => .inl hrow, fun _ hrow => .inl hrow, fun _ hline _ => .inl hline⟩,
      fun _ h => absurd h not_mem_nil, fun _ h => absurd h not_mem_nil⟩
  have hrun : Prog.Leads ledger (run host call attempt around)
      (fun _ => Bears host.toClient around.peer ledger [])
      (Bears host.toClient around.peer ledger []) := by
    refine Prog.Ensures.bind (Q := fun _ => Bears host.toClient around.peer ledger [])
      (Prog.Ensures.mark hstart) fun _ => (Prog.Keeps.ofExcept _).bind fun _ => ?_
    by_cases hbounded : isBoundedOperation (call.operation.getD attempt) = false
    · rw [if_pos hbounded]
      exact .fail _
    · rw [if_neg hbounded]
      refine Prog.Keeps.bind ((keeps_retained _ _).bind fun _ => .ret _) fun claimed => ?_
      refine (keeps_standing call _).bind fun standing => ?_
      split
      · exact .ret _
      · exact keeps_settleUnresolved _ _ McpReason.noConfusion
      · split
        · exact .fail _
        · split
          · exact keeps_settleUnresolved _ _ McpReason.noConfusion
          · exact .fail _
        · refine Prog.Keeps.bind ?_ fun _ => keeps_begin _ host _ around
          unfold claimOnce
          split
          · exact .ret ()
          · exact keeps_retainClaim _ _
  exact hrun.always turns n

end Steps

/-! ## Main result -/

/-- What a run records is what it settled, and its settlements are truthful exactly where they are
sound, whatever the server, the store and the artifact do. -/
theorem run_truthful_iff (host : Host) (call : McpCall) (attempt : String) (around : Surroundings)
    (turns : ℕ → Turn) (n : ℕ) (ledger : Ledger) :
    let after := (run host call attempt around turns (n, ledger)).2.2
    Borne ledger after ∧ ((∀ settlement ∈ after.settled, settlement.Truthful) ↔
      ∀ settlement ∈ after.settled, settlement.Sound host.toClient around.peer) := by
  have hbears := run_bears host call attempt around turns n ledger
  exact ⟨hbears.borne, forall₂_congr hbears.fine⟩

/-! ## Two settlements that say too much -/

def bytesOf (text : String) : List Byte := text.toList.map fun c => c.toNat.toUInt8

/-- One conversation in text: the two frames of a client and the two answers. -/
structure Talk where
  opening : List Byte
  calling : List Byte
  opened : List Byte
  called : List Byte

def nullTalk : Talk where
  opening := bytesOf
    ("\x7b\"id\":1,\"jsonrpc\":\"2.0\",\"method\":\"initialize\",\"params\":\x7b\"capabilities\":" ++
      "\x7b\x7d,\"clientInfo\":\x7b\"name\":\"rivect\",\"version\":\"0.1.0\"\x7d," ++
      "\"protocolVersion\":\"2025-06-18\"\x7d\x7d")
  calling := bytesOf
    ("\x7b\"id\":2,\"jsonrpc\":\"2.0\",\"method\":\"tools/call\",\"params\":\x7b\"arguments\":" ++
      "\x7b\x7d,\"name\":\"write\"\x7d\x7d")
  opened := bytesOf "\x7b\"id\":1,\"result\":\x7b\"protocolVersion\":\"2025-06-18\"\x7d\x7d\n"
  called := bytesOf
    "\x7b\"id\":2,\"error\":null,\"result\":\x7b\"resultType\":\"complete\"\x7d\x7d\n"

/-- The values that the texts of the conversation are. -/
def talkHost : Host where
  encode value := .ok (if (value.get "id").bind Json.asU64 = some 1 then nullTalk.opening
    else nullTalk.calling)
  parse line :=
    if line = nullTalk.opened then
      .ok (.object [("id", .number (.unsigned 1)),
        ("result", .object [("protocolVersion", .string "2025-06-18")])])
    else if line = nullTalk.called then
      .ok (.object [("id", .number (.unsigned 2)), ("error", .null),
        ("result", .object [("resultType", .string "complete")])])
    else .error "Syntax"
  peerVersionDigest version := version
  version := "0.1.0"
  validate _ := .ok ()
  display _ := ""

def oneCall : McpCall := ⟨⟨"files", "https://files.example"⟩, "write", .object [], none⟩

/-- One byte is taken, and then the cancellation cannot be read. -/
def unreadExchange : Exchange :=
  ⟨true, [⟨.ok false, .wrote 1⟩, ⟨.error "locked", .interrupted⟩], .ok false, [], .ok false⟩

/-- A frame that is taken whole, and the line it is answered with. -/
def fullExchange (frame line : List Byte) : Exchange :=
  ⟨true, [⟨.ok false, .wrote (frame.length + 1)⟩], .ok false,
    [⟨.ok false, .frame ⟨.line line, trivial⟩ false⟩], .ok false⟩

def aroundPeer (peer : Peer) : Surroundings := ⟨.ok false, none, none, none, peer, ⟨true, true⟩⟩

def plannedLedger : Ledger := ⟨[], [], [], [("op-1", .planned)], [], [], []⟩

def settledBy (peer : Peer) : List Settlement :=
  (run talkHost oneCall "op-1" (aroundPeer peer) (fun _ => .done) (0, plannedLedger)).2.2.settled

set_option maxRecDepth 8000 in
/-- A handshake that is left unread halfway is settled as unknown, though no byte of the call was
written; and a complete result beside an `error` of null is settled as failed. -/
theorem settlements_say_too_much :
    (∃ peer, ∃ settlement ∈ settledBy peer, settlement.outcome.state = .outcomeUnknown ∧
      settlement.outcome.reasonCode = some .cancellationUnreadable ∧
      settlement.pipes.called = 0 ∧ ¬ settlement.Truthful) ∧
    (∃ peer, ∃ settlement ∈ settledBy peer, settlement.outcome.state = .failed ∧
      ¬ settlement.Truthful) := by
  constructor
  · have hsettled : ∃ outcome talk, settledBy ⟨unreadExchange, unreadExchange⟩ =
        [⟨outcome, ⟨[(.handshake, 1)], []⟩, talk⟩] ∧ outcome.state = .outcomeUnknown ∧
        outcome.reasonCode = some .cancellationUnreadable := ⟨_, _, rfl, rfl, rfl⟩
    obtain ⟨outcome, talk, hsettled, hstate, hreason⟩ := hsettled
    refine ⟨_, _, hsettled ▸ mem_cons_self, hstate, hreason, rfl, fun htruthful => ?_⟩
    exact Nat.not_succ_le_zero 0 ((htruthful.unreadable hreason).mp hstate)
  · have hsettled : ∃ outcome wire answers talk,
        settledBy ⟨fullExchange nullTalk.opening nullTalk.opened,
          fullExchange nullTalk.calling nullTalk.called⟩ = [⟨outcome, ⟨wire, answers⟩, talk⟩] ∧
        outcome.state = .failed ∧ Pipes.called ⟨wire, answers⟩ ≠ 0 ∧
        ∀ answered ∈ answers, answered.answer.get "error" = none ∨
          answered.answer.get "error" = some .null := by
      refine ⟨_, _, _, _, rfl, rfl, by decide, ?_⟩
      rintro answered hmem
      rcases mem_cons.mp hmem with rfl | hmem
      · exact .inl rfl
      · obtain rfl := mem_singleton.mp hmem
        exact .inr rfl
    obtain ⟨outcome, wire, answers, talk, hsettled, hstate, hcalled, hanswers⟩ := hsettled
    refine ⟨_, _, hsettled ▸ mem_cons_self, hstate, fun htruthful => ?_⟩
    rcases htruthful.failed hstate with huncalled | ⟨answered, hmem, -, -, error, herror, hobject⟩
    · exact hcalled huncalled
    · rcases hanswers answered hmem with hnone | hnull
      · rw [hnone] at herror
        cases herror
      · obtain rfl := Option.mem_unique hnull herror
        cases hobject

end Rivect.Mcp
