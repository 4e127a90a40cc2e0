import Rivect.Contracts
import Rivect.Lib.Statements
import Rivect.Store.Error

/-! # Opening a session

`open_session` of `src/state.rs` with its statements one by one: outside a transaction each of them
is committed as it returns.
-/

namespace Rivect

open Lib List Script

structure AttachmentId where
  val : String
deriving DecidableEq

structure SessionRow where
  sessionId : SessionId
  sessionRevision : ℕ
deriving DecidableEq

structure AttachmentRow where
  attachmentId : AttachmentId
  sessionId : SessionId
  connectionId : String
  bootstrapId : String
  paramsDigest : String
  state : String
deriving DecidableEq

/-- The `result_json` of a receipt. -/
structure BootstrapResult where
  sessionId : SessionId
  attachmentId : AttachmentId
  ownerGeneration : ℕ
deriving DecidableEq

structure BootstrapReceipt where
  key : String
  attachmentId : AttachmentId
  result : BootstrapResult
deriving DecidableEq

structure SessionTables where
  sessions : List SessionRow
  attachments : List AttachmentRow
  bootstrapReceipts : List BootstrapReceipt
deriving DecidableEq

/-- Where a statement of a mutator stands. A helper inside a transaction is one site: whichever of
its statements fails, the transaction ends there. -/
inductive Site where
  | bootstrapReceiptByKey
  | sessionExists
  | insertAttachment
  | nextSessionRevision
  | insertSession
  | updateSessionRevision
  | insertBootstrapReceipt
  | obligationAtOffset
  | obligationIdsForTask
  | insertEvidence (position : ℕ)
  | satisfyObligation (position : ℕ)
  | missingObligations
  | insertObligation (position : ℕ)
  | begin
  | commit
  | receiptByCommand
  | insertTask
  | appendEvent
  | insertReceipt
  | checkPlanBinding
  | taskLifecycle
  | releasePlanOwnedBlock
  | applyPlanRowChange
  | insertQuestion
  | settlePlanState
  | snapshot
  | requireOpenTask
  | planSelection
  | resetRecoveredPlanRows
  | supersedePlanQuestions
  | upsertPlanSelection
  | insertPlanObligations
  | settlementRow
  | budgetScopeExists
  | workBudgetSendState
  | reserveBudget
  | nextSettlementRowid
  | insertSettlementDispatched
deriving DecidableEq

namespace SessionTables

def bootstrapReceipt (t : SessionTables) (key : String) : Option BootstrapReceipt :=
  t.bootstrapReceipts.find? (·.key = key)

def sessionExists (t : SessionTables) (sessionId : SessionId) : Bool :=
  t.sessions.any (·.sessionId = sessionId)

def insertAttachment (t : SessionTables) (row : AttachmentRow) :
    Except StoreError SessionTables := do
  require (∀ a ∈ t.attachments, a.attachmentId ≠ row.attachmentId) .storage
  .ok { t with attachments := t.attachments ++ [row] }

def nextSessionRevision (t : SessionTables) (sessionId : SessionId) : ℕ :=
  ((t.sessions.filter (·.sessionId = sessionId)).map SessionRow.sessionRevision).foldl max 0 + 1

def insertSession (t : SessionTables) (row : SessionRow) : Except StoreError SessionTables := do
  require (∀ s ∈ t.sessions, s.sessionId ≠ row.sessionId) .storage
  .ok { t with sessions := t.sessions ++ [row] }

def updateSessionRevision (t : SessionTables) (sessionId : SessionId) (revision : ℕ) :
    SessionTables :=
  { t with sessions := t.sessions.map fun s =>
      if s.sessionId = sessionId then { s with sessionRevision := revision } else s }

def insertBootstrapReceipt (t : SessionTables) (row : BootstrapReceipt) :
    Except StoreError SessionTables := do
  require (∀ r ∈ t.bootstrapReceipts, r.key ≠ row.key) .storage
  .ok { t with bootstrapReceipts := t.bootstrapReceipts ++ [row] }

end SessionTables

/-- What a caller opens a session with, and the two ids that the call generates. -/
structure OpenSession where
  sessionId : SessionId
  attachmentId : AttachmentId
  bootstrapId : String
  connectionId : String
  attachTo : Option SessionId
deriving DecidableEq

structure OpenedSession where
  sessionId : SessionId
  attachmentId : AttachmentId
  ownerGeneration : ℕ
  replayed : Bool
deriving DecidableEq

namespace OpenSession

def key (call : OpenSession) : String := call.connectionId ++ "|" ++ call.bootstrapId

def paramsDigest (call : OpenSession) : String :=
  call.bootstrapId ++ "|" ++ call.connectionId ++ "|attach=" ++ toString call.attachTo.isSome

def attachment (call : OpenSession) (sessionId : SessionId) : AttachmentRow :=
  ⟨call.attachmentId, sessionId, call.connectionId, call.bootstrapId, call.paramsDigest, "attached"⟩

def receipt (call : OpenSession) (sessionId : SessionId) : BootstrapReceipt :=
  ⟨call.key, call.attachmentId, ⟨sessionId, call.attachmentId, 1⟩⟩

/-- The session that the call attaches to: the one it names, or a new one. -/
def target (call : OpenSession) : SessionId := call.attachTo.getD call.sessionId

/-- A session that the call names must exist. -/
def findSession (call : OpenSession) : Script Site SessionTables StoreError SessionId :=
  match call.attachTo with
  | some id => do
    let held ← look .sessionExists .storage (·.sessionExists id)
    ofExcept (require (held = true) (.notFound (.session id.val)))
    pure id
  | none => pure call.sessionId

/-- A new session takes its row, and an older one its next revision. -/
def writeSession (call : OpenSession) (sessionId : SessionId) (revision : ℕ) :
    Script Site SessionTables StoreError Unit :=
  if call.attachTo.isNone then
    write .insertSession .storage (·.insertSession ⟨sessionId, revision⟩)
  else
    Script.change .updateSessionRevision .storage (·.updateSessionRevision sessionId revision)

/-- The session row and the receipt of an attachment that is already written. -/
def complete (call : OpenSession) (sessionId : SessionId) :
    Script Site SessionTables StoreError OpenedSession := do
  let revision ← look .nextSessionRevision .storage (·.nextSessionRevision sessionId)
  call.writeSession sessionId revision
  write .insertBootstrapReceipt .storage (·.insertBootstrapReceipt (call.receipt sessionId))
  pure ⟨sessionId, call.attachmentId, 1, false⟩

/-- A receipt under the key of the call is replayed. -/
def openSession (call : OpenSession) : Script Site SessionTables StoreError OpenedSession := do
  let replay ← look .bootstrapReceiptByKey .storage (·.bootstrapReceipt call.key)
  match replay with
  | some held =>
    pure ⟨held.result.sessionId, held.result.attachmentId, held.result.ownerGeneration, true⟩
  | none => do
    let sessionId ← call.findSession
    write .insertAttachment .storage (·.insertAttachment (call.attachment sessionId))
    call.complete sessionId

/-! ## Where a call fails -/

/-- The statements that follow the first committed write. -/
def Late : Site → Prop
  | .nextSessionRevision | .insertSession | .updateSessionRevision | .insertBootstrapReceipt => True
  | _ => False

instance : DecidablePred Late := fun site => by unfold Late; split <;> infer_instance

theorem complete_sites (call : OpenSession) (sessionId : SessionId) :
    Script.Sites Late (call.complete sessionId) := by
  have hsession : ∀ revision, Script.Sites Late (call.writeSession sessionId revision) := by
    intro revision
    unfold writeSession
    split
    · exact .write trivial _ _
    · exact .write trivial _ _
  have hreceipt : Script.Sites Late (write .insertBootstrapReceipt .storage
      (SessionTables.insertBootstrapReceipt · (call.receipt sessionId))) := .write trivial _ _
  exact .bind (.read trivial _ _) fun _ => .bind (hsession _) fun _ =>
    .bind hreceipt fun _ => .ret _

theorem complete_keeps (call : OpenSession) (sessionId : SessionId) :
    Script.Keeps SessionTables.attachments (call.complete sessionId) := by
  have hsession : ∀ revision,
      Script.Keeps SessionTables.attachments (call.writeSession sessionId revision) := by
    intro revision
    unfold writeSession
    split
    · refine .write _ _ fun t t' h => ?_
      obtain ⟨_, -, hlast⟩ := bind_eq_ok h
      cases hlast
      rfl
    · refine .write _ _ fun t t' h => ?_
      cases h
      rfl
  have hreceipt : Script.Keeps SessionTables.attachments (write Site.insertBootstrapReceipt
      StoreError.storage (SessionTables.insertBootstrapReceipt · (call.receipt sessionId))) := by
    refine .write _ _ fun t t' h => ?_
    obtain ⟨_, -, hlast⟩ := bind_eq_ok h
    cases hlast
    rfl
  exact .bind (.read _ _ _) fun _ => .bind (hsession _) fun _ => .bind hreceipt fun _ => .ret _

theorem findSession_quiet (call : OpenSession) : Script.Quiet call.findSession := by
  unfold findSession
  split
  · exact .bind (.read _ _ _) fun held => .bind (.ofExcept _) fun _ => .ret _
  · exact .ret _

theorem findSession_sites (call : OpenSession) :
    Script.Sites (¬ Late ·) call.findSession := by
  unfold findSession
  split
  · exact .bind (.read id _ _) fun held => .bind (.ofExcept _) fun _ => .ret _
  · exact .ret _

/-- A call that fails late has left its attachment, and any other has left nothing. -/
theorem openSession_stopped (call : OpenSession) {fails : Site → Bool} {t : SessionTables}
    {site : Site} (h : (call.openSession fails t).1.failedAt = some site) :
    (¬ Late site ∧ (call.openSession fails t).2 = t) ∨
      (Late site ∧ ∃ sessionId, (call.openSession fails t).2.attachments =
        t.attachments ++ [call.attachment sessionId]) := by
  unfold openSession at h ⊢
  rcases Script.bind_stopped h with ⟨hsite, hrows⟩ | ⟨replay, t', hreplay, hrun⟩
  · exact .inl ⟨Script.Sites.read (S := (¬ Late ·)) id _ _ _ _ _ hsite,
      hrows.trans (Script.Quiet.read _ _ _ _ _)⟩
  obtain ⟨rfl, -⟩ := Script.read_done hreplay
  rw [hrun] at h ⊢
  cases replay with
  | some held => cases h
  | none =>
    dsimp only at h ⊢
    rcases Script.bind_stopped h with ⟨hsite, hrows⟩ | ⟨sessionId, t'', hfound, hrun⟩
    · exact .inl ⟨call.findSession_sites _ _ _ hsite, hrows.trans (call.findSession_quiet _ _)⟩
    obtain rfl : t'' = t' := by
      have := call.findSession_quiet fails t'
      rw [hfound] at this
      exact this
    rw [hrun] at h ⊢
    rcases Script.bind_stopped h with ⟨hsite, hrows⟩ | ⟨_, attached, hattached, hrun⟩
    · refine .inl ⟨Script.Sites.write (S := (¬ Late ·)) id _ _ _ _ _ hsite, ?_⟩
      exact hrows.trans ((Script.Atomic.write _ _ _).rows hsite)
    · rw [hrun] at h ⊢
      refine .inr ⟨call.complete_sites sessionId _ _ _ h, sessionId, ?_⟩
      rw [call.complete_keeps sessionId]
      obtain ⟨_, -, hlast⟩ := bind_eq_ok (Script.write_done hattached)
      cases hlast
      rfl

/-! ## A call that opens anew -/

/-- No receipt replays the call, its session exists, and the ids it generates are new. -/
structure Anew (call : OpenSession) (t : SessionTables) : Prop where
  unrecorded : t.bootstrapReceipt call.key = none
  found : ∀ id, call.attachTo = some id → t.sessionExists id = true
  attachment : ∀ a ∈ t.attachments, a.attachmentId ≠ call.attachmentId
  session : call.attachTo = none → ∀ s ∈ t.sessions, s.sessionId ≠ call.sessionId

/-- The attachment, the session and the receipt of one call, and no other row. -/
structure Opens (call : OpenSession) (t t' : SessionTables) : Prop where
  attachments : t'.attachments = t.attachments ++ [call.attachment call.target]
  receipts : t'.bootstrapReceipts = t.bootstrapReceipts ++ [call.receipt call.target]
  session : ∃ row ∈ t'.sessions, row.sessionId = call.target

theorem writeSession_anew {call : OpenSession} {t : SessionTables} (h : call.Anew t)
    {attached : SessionTables} (hsessions : attached.sessions = t.sessions) (revision : ℕ) :
    ∃ sessions, call.writeSession call.target revision noFault attached =
        (.done (), { attached with sessions := sessions }) ∧
      ∃ row ∈ sessions, row.sessionId = call.target := by
  unfold writeSession
  cases hattach : call.attachTo with
  | none =>
    have htarget : call.target = call.sessionId := by rw [target, hattach, Option.getD_none]
    have hnew : ∀ s ∈ attached.sessions, s.sessionId ≠ call.target := by
      rw [hsessions, htarget]
      exact h.session hattach
    rw [Option.isNone_none, if_pos rfl]
    refine ⟨attached.sessions ++ [⟨call.target, revision⟩], Script.write_noFault ?_ _, ?_⟩
    · unfold SessionTables.insertSession
      rw [require_pos hnew]
      rfl
    · exact ⟨_, mem_append_right _ mem_cons_self, rfl⟩
  | some id =>
    have htarget : call.target = id := by rw [target, hattach, Option.getD_some]
    rw [Option.isNone_some, if_neg Bool.false_ne_true]
    refine ⟨_, rfl, ?_⟩
    obtain ⟨row, hrow, hid⟩ := any_eq_true.mp (h.found id hattach)
    rw [← hsessions] at hrow
    refine ⟨_, mem_map_of_mem hrow, ?_⟩
    rw [htarget]
    split
    · exact of_decide_eq_true hid
    · exact of_decide_eq_true hid

theorem findSession_anew {call : OpenSession} {t : SessionTables} (h : call.Anew t) :
    call.findSession noFault t = (.done call.target, t) := by
  unfold findSession target
  cases hattach : call.attachTo with
  | none => rfl
  | some id =>
    dsimp only
    rw [Script.look_bind, h.found id hattach]
    rfl

/-- Without a failing statement a new call leaves one whole attachment. -/
theorem openSession_anew {call : OpenSession} {t : SessionTables} (h : call.Anew t) :
    ∃ t', call.openSession noFault t =
        (.done ⟨call.target, call.attachmentId, 1, false⟩, t') ∧ call.Opens t t' := by
  have hattached : t.insertAttachment (call.attachment call.target) =
      .ok { t with attachments := t.attachments ++ [call.attachment call.target] } := by
    exact congrArg (· >>= _) (require_pos h.attachment)
  have hunused : ∀ r ∈ t.bootstrapReceipts, r.key ≠ call.key := by
    intro r hr hkey
    exact find?_eq_none.mp h.unrecorded r hr (decide_eq_true hkey)
  have hrows : { t with attachments := t.attachments ++ [call.attachment call.target] }.sessions =
      t.sessions := rfl
  obtain ⟨sessions, hsession, hrow⟩ := writeSession_anew h hrows
    (t.nextSessionRevision call.target)
  have hcomplete : call.complete call.target noFault
      { t with attachments := t.attachments ++ [call.attachment call.target] } =
      (.done ⟨call.target, call.attachmentId, 1, false⟩,
        ⟨sessions, t.attachments ++ [call.attachment call.target],
          t.bootstrapReceipts ++ [call.receipt call.target]⟩) := by
    unfold complete
    rw [Script.look_bind]
    refine (Script.bind_of_done hsession _).trans ?_
    refine (Script.bind_of_done (Script.write_noFault ?_ _) _).trans rfl
    exact congrArg (· >>= _) (require_pos hunused)
  refine ⟨⟨sessions, t.attachments ++ [call.attachment call.target],
    t.bootstrapReceipts ++ [call.receipt call.target]⟩, ?_, rfl, rfl, hrow⟩
  unfold openSession
  rw [Script.look_bind, h.unrecorded]
  refine (Script.bind_of_done (findSession_anew h) _).trans ?_
  exact (Script.bind_of_done (Script.write_noFault hattached _) _).trans hcomplete

end OpenSession

end Rivect
