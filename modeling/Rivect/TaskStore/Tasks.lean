import Rivect.TaskStore.Plan

/-! # The task operations

The calls of the task store that move a task: creation, its questions and their answers, steering,
cancellation, the workflow pause, evidence and completion. A transaction is a function into
`Except`: an error is a rollback.
-/

namespace Rivect

open Lib

/-- The characters that a trim removes: Unicode's `White_Space`. -/
def isWhiteSpace (c : Char) : Bool :=
  (0x9 ≤ c.val && c.val ≤ 0xD) || c.val = 0x20 || c.val = 0x85 || c.val = 0xA0 ||
    c.val = 0x1680 || (0x2000 ≤ c.val && c.val ≤ 0x200A) || c.val = 0x2028 || c.val = 0x2029 ||
    c.val = 0x202F || c.val = 0x205F || c.val = 0x3000

/-- Nothing is left of the text once it is trimmed. -/
def isBlank (text : String) : Bool := text.toList.all isWhiteSpace

/-- The journaled class of a rejected answer. -/
def denialClass : StoreError → String
  | .staleIntent .. => "stale_intent"
  | .alreadyTerminal => "already_terminal"
  | .notFound _ => "not_found"
  | .conflict .questionNotPending => "replayed_answer"
  | .conflict (.questionRevision ..) => "stale_revision"
  | .conflict _ => "conflict"
  | .invalidInput (.unknownOption ..) => "unknown_option"
  | .invalidInput (.disabledOption ..) => "disabled_option"
  | .invalidInput .emptyCustomAnswer => "empty_custom"
  | .invalidInput _ => "invalid_input"
  | .delta cause => cause.code
  | .storage | .closed | .eventExists => "storage"

/-- An answer names an offered, enabled option or says something. -/
def checkAnswer (question : Question) (questionId : QuestionId) :
    AnswerSelection → Except StoreError Unit
  | .option optionId =>
    match question.options.find? (·.optionId = optionId) with
    | none => .error (.invalidInput (.unknownOption optionId.val questionId.val))
    | some option =>
      match option.availability with
      | .disabled reason => .error (.invalidInput (.disabledOption optionId.val reason))
      | .enabled => .ok ()
  | .custom text => require (isBlank text = false) (.invalidInput .emptyCustomAnswer)

namespace TaskStore

/-- One `question.superseded` event for each killed row. -/
def journalDeaths (s : TaskStore) (sessionId : SessionId) (taskId : TaskId)
    (killed : List QuestionRow) (cause : QuestionRow → List (String × Value)) (origin : String) :
    Except StoreError TaskStore :=
  killed.foldlM (fun s q =>
    s.appendEvent sessionId (some taskId) (q.questionId.val, q.revision) "question.superseded"
      ([("question_id", .string q.questionId.val), ("question_revision", .number q.revision)] ++
        cause q) origin) s

/-- The pending rows whose intent pin is not the live intent die. -/
def supersedePendingQuestions (s : TaskStore) (sessionId : SessionId) (taskId : TaskId)
    (liveIntent : ℕ) (origin : String) : Except StoreError TaskStore :=
  let dies := fun q : QuestionRow => decide (q.taskId = taskId ∧ q.intentRevision ≠ liveIntent)
  (s.supersede dies).journalDeaths sessionId taskId (s.killed dies)
    (fun q =>
      [("stale_intent_revision", .number q.intentRevision),
        ("live_intent_revision", .number liveIntent)]) origin

/-- Every pending row dies when its task goes terminal. -/
def supersedeTerminalQuestions (s : TaskStore) (sessionId : SessionId) (taskId : TaskId)
    (lifecycle : Lifecycle) (origin : String) : Except StoreError TaskStore :=
  let dies := fun q : QuestionRow => decide (q.taskId = taskId)
  (s.supersede dies).journalDeaths sessionId taskId (s.killed dies)
    (fun _ => [("lifecycle", .string lifecycle.asStr)]) origin

/-! ## Creation -/

def insertCriterion (s : TaskStore) (row : CriterionRow) : Except StoreError TaskStore := do
  require (∀ c ∈ s.criteria, c.criterionId ≠ row.criterionId) .storage
  .ok { s with criteria := s.criteria ++ [row] }

/-- The rows of a new task; `criterionId` is the id generated for each position. -/
def insertTask (s : TaskStore) (taskId : TaskId) (criterionId : ℕ → String)
    (params : CreateParams) : Except StoreError TaskStore := do
  require (s.tasks taskId = none) .storage
  let s : TaskStore := { s with
    tasks := Function.update s.tasks taskId
      (some ⟨params.sessionId, 1, 1, 1, .running, params.goal, 1⟩)
    rowids := s.rowids ++ [taskId]
    constraints := Function.update s.constraints taskId params.constraints }
  params.criteria.zipIdx.foldlM (fun s text =>
    s.insertCriterion ⟨criterionId text.2, taskId, text.2, text.1⟩) s

def receipt (s : TaskStore) (commandId : String) : Option ReceiptRow :=
  s.receipts.find? (·.commandId = commandId)

def recordReceipt (s : TaskStore) (commandId : String) (params : CreateParams)
    (result : CommandResult) : Except StoreError TaskStore := do
  require (∀ r ∈ s.receipts, r.commandId ≠ commandId) .storage
  .ok { s with receipts := s.receipts ++ [⟨commandId, params, result⟩] }

/-- A replay answers the recorded result, another request under the same id is a conflict. -/
def createTask (s : TaskStore) (taskId : TaskId) (criterionId : ℕ → String) (commandId : String)
    (params : CreateParams) : Except StoreError (TaskStore × CommandResult) := do
  require (params.goal ≠ "" ∧ params.goal.utf8ByteSize ≤ TEXT_MAX_BYTES) (.invalidInput .emptyGoal)
  match s.receipt commandId with
  | some row => do
    require (row.paramsDigest = params) (.conflict (.duplicateCommand commandId))
    .ok (s, row.result)
  | none => do
    let s ← s.insertTask taskId criterionId params
    let s ← s.appendEvent params.sessionId (some taskId) (taskId.val, 1) "task.created"
      [("task_id", .string taskId.val), ("goal_digest", .digest params.goal)] "human"
    let result : CommandResult := ⟨"accepted", taskId, 1, 1, 1, some 1⟩
    let s ← s.recordReceipt commandId params result
    .ok (s, result)

/-! ## Questions -/

def insertQuestion (s : TaskStore) (sessionId : SessionId) (question : Question) :
    Except StoreError TaskStore := do
  let task ← found (s.tasks question.taskId) (missingTask question.taskId)
  require (task.lifecycle = .running ∨ task.lifecycle = .waiting)
    (.conflict (.questionOnLifecycle task.lifecycle.asStr))
  require (question.intentRevision = task.intentRevision)
    (.staleIntent question.intentRevision task.intentRevision)
  let s ← s.supersedePendingQuestions sessionId question.taskId task.intentRevision "state"
  require (s.pendingOf question.taskId = []) (.conflict .pendingQuestionExists)
  let s ← s.insertQuestionRow question
  let s := s.taskSetWaiting question.taskId (task.revision + 1)
  s.appendEvent sessionId (some question.taskId) (question.taskId.val, task.revision + 1)
    "question.published"
    [("question_id", .string question.questionId.val),
      ("question_revision", .number question.questionRevision)] "state"

def publishQuestion (s : TaskStore) (sessionId : SessionId) (question : Question) :
    Except StoreError TaskStore := s.insertQuestion sessionId question

/-- Publishes a plan handler's fork and records the wait on the handler's own row. -/
def publishPlanFork (s : TaskStore) (sessionId : SessionId) (question : Question)
    (update : PlanRowUpdate) : Except StoreError TaskStore := do
  let taskId := question.taskId
  s.checkPlanBinding taskId update.selectionRevision update.factsDigest
  let task ← found (s.tasks taskId) .storage
  let s := if task.lifecycle = .blocked then s.releasePlanOwnedBlock taskId else s
  let s ← s.applyPlanRowChange taskId update.capability update.handler update.change
  let s ← s.insertQuestion sessionId question
  s.settlePlanState taskId

/-- The row that waits on an answered fork keeps the fork's pin. -/
def retainAnsweredPlanFork (s : TaskStore) (taskId : TaskId) (questionId : QuestionId)
    (questionRevision : ℕ) : TaskStore :=
  match s.planSelections taskId with
  | none => s
  | some selection =>
    match (s.planObligations taskId).find? (·.waitsOn questionId questionRevision) with
    | none => s
    | some row =>
      s.updatePlanRows taskId (·.capability = row.capability) fun r =>
        { r with
          outcome := some (.answeredFork questionId questionRevision selection.revision
            selection.factsDigest) }

/-- What a commit on a task answers. -/
def result (s : TaskStore) (status : String) (taskId : TaskId) (intentRevision : ℕ) :
    Except StoreError CommandResult := do
  let task ← found (s.tasks taskId) (missingTask taskId)
  .ok ⟨status, taskId, task.revision, intentRevision, task.eventCursor, none⟩

def answerQuestionCommit (s : TaskStore) (sessionId : SessionId) (taskId : TaskId)
    (questionId : QuestionId) (questionRevision : ℕ) (selection : AnswerSelection)
    (author : String) : Except StoreError (TaskStore × CommandResult) := do
  let task ← found (s.tasks taskId) (missingTask taskId)
  require (task.lifecycle.isTerminal = false) .alreadyTerminal
  let q ← found (s.questionById questionId taskId) (.notFound (.question questionId.val))
  -- a row that a steer superseded names its stale pin
  require (q.state = .pending)
    (if q.intentRevision ≠ task.intentRevision then
      .staleIntent q.intentRevision task.intentRevision
    else .conflict .questionNotPending)
  require (q.revision = questionRevision)
    (.conflict (.questionRevision questionRevision q.revision))
  require (q.body.intentRevision = task.intentRevision)
    (.staleIntent q.body.intentRevision task.intentRevision)
  checkAnswer q.body questionId selection
  let s := s.setAnswer questionId selection author
  let s := s.taskSetRunning taskId (task.revision + 1)
  let s ← s.appendEvent sessionId (some taskId) (taskId.val, task.revision + 1)
    "question.answered"
    [("question_id", .string questionId.val), ("author", .string author)] author
  let s := s.insertAnswerAttempt
    ⟨questionId, taskId, questionRevision, .selection selection, author, .applied, none⟩
  let s := s.retainAnsweredPlanFork taskId questionId questionRevision
  let s ← s.settlePlanLifecycle taskId
  let result ← s.result "applied" taskId task.intentRevision
  .ok (s, result)

def recordDeniedAttempt (s : TaskStore) (taskId : TaskId) (questionId : QuestionId)
    (questionRevision : ℕ) (selection : SelectionJson) (author denial : String) : TaskStore :=
  s.insertAnswerAttempt
    ⟨questionId, taskId, questionRevision, selection, author, .denied, some denial⟩

/-- An applied answer rides its own transaction; a denied one is journaled alone. -/
def answerQuestion (s : TaskStore) (sessionId : SessionId) (taskId : TaskId)
    (questionId : QuestionId) (questionRevision : ℕ) (selection : AnswerSelection)
    (author : String) : TaskStore × Except StoreError CommandResult :=
  match s.answerQuestionCommit sessionId taskId questionId questionRevision selection author with
  | .ok (s', result) => (s', .ok result)
  | .error e =>
    (s.recordDeniedAttempt taskId questionId questionRevision (.selection selection) author
      (denialClass e), .error e)

/-! ## Steering, pausing and ending a task -/

/-- The off transition's pause; `false` where nothing was in flight. -/
def pauseForWorkflowOff (s : TaskStore) (sessionId : SessionId) (taskId : TaskId) :
    Except StoreError (TaskStore × Bool) := do
  let task ← found (s.tasks taskId) (missingTask taskId)
  if task.lifecycle = .running ∨ task.lifecycle = .waiting then
    let s ← (s.moveTask taskId (fun l => l = .running ∨ l = .waiting) .paused).appendEvent
      sessionId (some taskId) (taskId.val, task.revision + 1) "task.paused"
      [("kind", .string "workflow_off"), ("from", .string task.lifecycle.asStr)] "runtime"
    .ok (s, true)
  else .ok (s, false)

def steerTask (s : TaskStore) (sessionId : SessionId) (taskId : TaskId)
    (expectedIntentRevision expectedTaskRevision : ℕ) (instruction : String) :
    Except StoreError (TaskStore × CommandResult) := do
  let task ← found (s.tasks taskId) (missingTask taskId)
  require (task.lifecycle.isTerminal = false) (.conflict .terminalCannotReopen)
  require (task.intentRevision = expectedIntentRevision)
    (.staleIntent expectedIntentRevision task.intentRevision)
  require (task.revision = expectedTaskRevision)
    (.conflict (.taskRevision expectedTaskRevision task.revision))
  let s := s.updateIntent taskId (task.revision + 1) (task.intentRevision + 1)
  let s ← s.supersedePendingQuestions sessionId taskId (task.intentRevision + 1) "human"
  let s := s.supersessionResumesTask taskId
  let s ← s.appendEvent sessionId (some taskId) (taskId.val, task.revision + 1) "task.steered"
    [("instruction", .string instruction)] "human"
  let s := s.releaseWorkflowOffPause taskId
  let s ← s.settlePlanLifecycle taskId
  let result ← s.result "applied" taskId (task.intentRevision + 1)
  .ok (s, result)

/-- `cancel_task`, with the journal attribution spelled by the caller. -/
def cancelTaskWithOrigin (s : TaskStore) (sessionId : SessionId) (taskId : TaskId)
    (expectedIntentRevision : ℕ) (reason : Option String) (origin : String) :
    Except StoreError (TaskStore × CommandResult) := do
  let task ← found (s.tasks taskId) (missingTask taskId)
  require (task.intentRevision = expectedIntentRevision)
    (.staleIntent expectedIntentRevision task.intentRevision)
  if task.lifecycle.isTerminal then
    let s ← s.supersedeTerminalQuestions sessionId taskId task.lifecycle origin
    let result ← s.result "already_terminal" taskId task.intentRevision
    .ok (s, result)
  else
    let s := s.endTask taskId .cancelled (task.revision + 1)
    let s ← s.supersedeTerminalQuestions sessionId taskId .cancelled origin
    let s ← s.appendEvent sessionId (some taskId) (taskId.val, task.revision + 1)
      "task.cancelled" [("reason", reason.elim .null .string)] origin
    let result ← s.result "applied" taskId task.intentRevision
    .ok (s, result)

/-! ## Obligations, evidence and attempts -/

def insertObligation (s : TaskStore) (obligationId : String) (taskId : TaskId)
    (criterionId : String) : Except StoreError TaskStore := do
  require (∀ o ∈ s.obligations, o.obligationId ≠ obligationId) .storage
  .ok { s with
    obligations := s.obligations ++ [⟨obligationId, taskId, criterionId, .required, .pending⟩] }

/-- `MISSING_OBLIGATIONS`: the criteria of the task that no obligation of it names. -/
def missingObligations (s : TaskStore) (taskId : TaskId) : List String :=
  ((s.criteria.filter (·.taskId = taskId)).map CriterionRow.criterionId).filter fun c =>
    (s.obligationsOf taskId).all (·.criterionId ≠ c)

/-- One insert after the other, each committed on its own. -/
def insertObligations (taskId : TaskId) (obligationId : ℕ → String) (s : TaskStore) :
    List (String × ℕ) → TaskStore × Except StoreError Unit
  | [] => (s, .ok ())
  | (criterionId, k) :: rest =>
    match s.insertObligation (obligationId k) taskId criterionId with
    | .ok s' => insertObligations taskId obligationId s' rest
    | .error e => (s, .error e)

def materializeObligations (s : TaskStore) (taskId : TaskId) (obligationId : ℕ → String) :
    TaskStore × Except StoreError Unit :=
  insertObligations taskId obligationId s (s.missingObligations taskId).zipIdx

/-- `class` is the debug name of the effect class in lower case. -/
def planAttempt (s : TaskStore) (attemptId : String) (taskId : TaskId)
    (effectClass describe : String) : Except StoreError TaskStore := do
  require (∀ a ∈ s.attempts, a.attemptId ≠ attemptId) .storage
  .ok { s with
    attempts := s.attempts ++
      [⟨attemptId, taskId, "action-" ++ attemptId, effectClass, describe, .planned, none⟩] }

def setAttemptState (s : TaskStore) (attemptId : String) (state : AttemptState)
    (detail : Option String) : Except StoreError TaskStore := do
  require (∃ a ∈ s.attempts, a.attemptId = attemptId) (.notFound (.attempt attemptId))
  .ok { s with
    attempts := s.attempts.map fun a =>
      if a.attemptId = attemptId then { a with state := state, detail := detail } else a }

def insertEvidence (s : TaskStore) (evidenceId : String) (taskId : TaskId) (obligationIndex : ℕ)
    (scope observation digest : String) : Except StoreError TaskStore := do
  let o ← found (s.obligationsOf taskId)[obligationIndex]? (.notFound .obligation)
  let s ← s.insertEvidenceRow
    ⟨evidenceId, taskId, scope, observation, digest, .current, o.obligationId⟩
  .ok (s.satisfyObligation o.obligationId)

def insertEvidenceForTask (s : TaskStore) (evidenceId : ℕ → String) (taskId : TaskId)
    (scope observation digest : String) : Except StoreError TaskStore :=
  ((s.obligationsOf taskId).map ObligationRow.obligationId).zipIdx.foldlM (fun s o => do
    let s ← s.insertEvidenceRow
      ⟨evidenceId o.2, taskId, scope, observation, digest, .current, o.1⟩
    .ok (s.satisfyObligation o.1)) s

/-- Stale evidence leaves its obligation unresolved and blocks the task that owns it. -/
def invalidateEvidence (s : TaskStore) (evidenceId : String) :
    Except StoreError (TaskStore × TaskId) := do
  let e ← found (s.evidence.find? (·.evidenceId = evidenceId)) (.notFound (.evidence evidenceId))
  -- the updates leave the task of the obligation alone, so it is read first
  let taskId ← found (s.taskIdForObligation e.obligationId) .storage
  let s : TaskStore := { s with
    evidence := s.evidence.map fun e =>
      if e.evidenceId = evidenceId then { e with validity := .stale } else e }
  let s := s.staleObligation e.obligationId
  .ok ((s.blockTaskNotCancelled taskId).clearPlanBlock taskId, taskId)

/-- A plan row's id names no task, so it is acknowledged with `none`. -/
def markApplicabilityUnresolved (s : TaskStore) (obligationId : String) :
    Except StoreError (TaskStore × Option TaskId) := do
  if PLAN_OBLIGATION_PREFIX.toList.isPrefixOf obligationId.toList then .ok (s, none)
  else
    let taskId ← found (s.taskIdForObligation obligationId) (.notFound .obligation)
    let s := s.unresolvedApplicability obligationId
    let s := s.unresolvePlanRows taskId
    .ok ((s.blockTaskNotCancelled taskId).clearPlanBlock taskId, some taskId)

/-- The body of `mark_outcome_unknown` and of `mark_no_ready`. -/
def blockForeignOpen (s : TaskStore) (taskId : TaskId) : TaskStore :=
  (s.blockTaskOpen taskId).clearPlanBlock taskId

def markOutcomeUnknown (s : TaskStore) (taskId : TaskId) : TaskStore := s.blockForeignOpen taskId

def markNoReady (s : TaskStore) (taskId : TaskId) : TaskStore := s.blockForeignOpen taskId

/-- The obligation that the record supported reopens once no record supports it. -/
def deleteScopedRecord (s : TaskStore) (taskId : TaskId) (evidenceId : String) :
    Except StoreError TaskStore := do
  let e ← found (s.evidence.find? fun e => e.evidenceId = evidenceId ∧ e.taskId = taskId)
    (.notFound (.evidence evidenceId))
  let s : TaskStore := { s with
    evidence := s.evidence.filter fun e => !(e.evidenceId = evidenceId ∧ e.taskId = taskId) }
  .ok (if s.evidence.countP (·.obligationId = e.obligationId) = 0 then
      s.reopenObligation e.obligationId
    else s)

/-! ## Completion -/

/-- `COMPLETION_COUNTS`: unsatisfied rows, unresolved rows and unknown attempts. -/
def completionCounts (s : TaskStore) (taskId : TaskId) : ℕ × ℕ × ℕ :=
  ((s.obligationsOf taskId).countP (·.execution ≠ .satisfied) +
      (s.planObligations taskId).countP (·.execution ≠ .satisfied),
    s.unresolvedObligations taskId +
      (s.planObligations taskId).countP (·.applicability = .unresolved),
    s.unknownAttempts taskId)

def staleEvidenceCount (s : TaskStore) (taskId : TaskId) : ℕ :=
  s.evidence.countP fun e =>
    e.validity = .stale ∧ (s.obligationsOf taskId).any (·.obligationId = e.obligationId)

/-- The part of the call that completes the task. -/
def completeTask (s : TaskStore) (sessionId : SessionId) (taskId : TaskId) (task : TaskRow) :
    Except StoreError TaskStore := do
  let stale := s.staleEvidenceCount taskId
  require (stale = 0) (.conflict (.completionStale stale))
  let s := s.endTask taskId .completed (task.revision + 1)
  let s ← s.supersedeTerminalQuestions sessionId taskId .completed "state"
  s.appendEvent sessionId (some taskId) (taskId.val, task.revision + 1) "task.completed" [] "state"

/-- A task that is not eligible stops running, and the refusal is reported after that commit. -/
def completeIfEligible (s : TaskStore) (sessionId : SessionId) (taskId : TaskId) :
    TaskStore × Except StoreError Unit :=
  match s.tasks taskId with
  | none => (s, .error (missingTask taskId))
  | some task =>
    if task.lifecycle.isTerminal then (s, .error (.conflict .taskAlreadyTerminal))
    else
      let (unsatisfied, unresolved, unknown) := s.completionCounts taskId
      if 0 < unsatisfied ∨ 0 < unresolved ∨ 0 < unknown then
        (s.pauseRunningTask taskId, .error (.conflict (.completionOpen unsatisfied unresolved unknown)))
      else
        match s.completeTask sessionId taskId task with
        | .ok s' => (s', .ok ())
        | .error e => (s, .error e)

/-! ## The calls -/

inductive Op where
  | createTask (taskId : TaskId) (criterionId : ℕ → String) (commandId : String)
      (params : CreateParams)
  | publishQuestion (sessionId : SessionId) (question : Question)
  | publishPlanFork (sessionId : SessionId) (question : Question) (update : PlanRowUpdate)
  | answerQuestion (sessionId : SessionId) (taskId : TaskId) (questionId : QuestionId)
      (questionRevision : ℕ) (selection : AnswerSelection) (author : String)
  | recordDeniedAttempt (taskId : TaskId) (questionId : QuestionId) (questionRevision : ℕ)
      (selection : SelectionJson) (author denial : String)
  | pauseForWorkflowOff (sessionId : SessionId) (taskId : TaskId)
  | steerTask (sessionId : SessionId) (taskId : TaskId)
      (expectedIntentRevision expectedTaskRevision : ℕ) (instruction : String)
  | cancelTask (sessionId : SessionId) (taskId : TaskId) (expectedIntentRevision : ℕ)
      (reason : Option String) (origin : String)
  | materializeObligations (taskId : TaskId) (obligationId : ℕ → String)
  | planAttempt (attemptId : String) (taskId : TaskId) (effectClass describe : String)
  | setAttemptState (attemptId : String) (state : AttemptState) (detail : Option String)
  | insertEvidence (evidenceId : String) (taskId : TaskId) (obligationIndex : ℕ)
      (scope observation digest : String)
  | insertEvidenceForTask (evidenceId : ℕ → String) (taskId : TaskId)
      (scope observation digest : String)
  | invalidateEvidence (evidenceId : String)
  | markApplicabilityUnresolved (obligationId : String)
  | markOutcomeUnknown (taskId : TaskId)
  | markNoReady (taskId : TaskId)
  | deleteScopedRecord (taskId : TaskId) (evidenceId : String)
  | completeIfEligible (sessionId : SessionId) (taskId : TaskId)
  | recordPlanSelection (sessionId : SessionId) (taskId : TaskId) (selection : PlanSelectionWrite)
  | updatePlanRow (taskId : TaskId) (update : PlanRowUpdate)
  | recordPlanRevision (taskId : TaskId) (revision : PlanRevisionWrite)
  | recordPlanAssessment (taskId : TaskId) (assessment : PlanAssessmentWrite)
  | holdForPlanGate (taskId : TaskId) (observed : PlanGateHold)
  | markPlanApplicabilityUnresolved (taskId : TaskId)

/-- The transaction either commits what its body computed or leaves the tables alone. -/
def commit (s : TaskStore) (body : Except StoreError TaskStore) :
    TaskStore × Except StoreError Unit :=
  match body with
  | .ok s' => (s', .ok ())
  | .error e => (s, .error e)

def perform (s : TaskStore) : Op → TaskStore × Except StoreError Unit
  | .createTask taskId criterionId commandId params =>
    s.commit ((s.createTask taskId criterionId commandId params).map Prod.fst)
  | .publishQuestion sessionId question => s.commit (s.publishQuestion sessionId question)
  | .publishPlanFork sessionId question update =>
    s.commit (s.publishPlanFork sessionId question update)
  | .answerQuestion sessionId taskId questionId questionRevision selection author =>
    let (s', result) :=
      s.answerQuestion sessionId taskId questionId questionRevision selection author
    (s', result.map fun _ => ())
  | .recordDeniedAttempt taskId questionId questionRevision selection author denial =>
    (s.recordDeniedAttempt taskId questionId questionRevision selection author denial, .ok ())
  | .pauseForWorkflowOff sessionId taskId =>
    s.commit ((s.pauseForWorkflowOff sessionId taskId).map Prod.fst)
  | .steerTask sessionId taskId intent revision instruction =>
    s.commit ((s.steerTask sessionId taskId intent revision instruction).map Prod.fst)
  | .cancelTask sessionId taskId intent reason origin =>
    s.commit ((s.cancelTaskWithOrigin sessionId taskId intent reason origin).map Prod.fst)
  | .materializeObligations taskId obligationId => s.materializeObligations taskId obligationId
  | .planAttempt attemptId taskId effectClass describe =>
    s.commit (s.planAttempt attemptId taskId effectClass describe)
  | .setAttemptState attemptId state detail => s.commit (s.setAttemptState attemptId state detail)
  | .insertEvidence evidenceId taskId obligationIndex scope observation digest =>
    s.commit (s.insertEvidence evidenceId taskId obligationIndex scope observation digest)
  | .insertEvidenceForTask evidenceId taskId scope observation digest =>
    s.commit (s.insertEvidenceForTask evidenceId taskId scope observation digest)
  | .invalidateEvidence evidenceId => s.commit ((s.invalidateEvidence evidenceId).map Prod.fst)
  | .markApplicabilityUnresolved obligationId =>
    s.commit ((s.markApplicabilityUnresolved obligationId).map Prod.fst)
  | .markOutcomeUnknown taskId => (s.markOutcomeUnknown taskId, .ok ())
  | .markNoReady taskId => (s.markNoReady taskId, .ok ())
  | .deleteScopedRecord taskId evidenceId => s.commit (s.deleteScopedRecord taskId evidenceId)
  | .completeIfEligible sessionId taskId => s.completeIfEligible sessionId taskId
  | .recordPlanSelection sessionId taskId selection =>
    s.commit ((s.recordPlanSelection sessionId taskId selection).map Prod.fst)
  | .updatePlanRow taskId update => s.commit (s.updatePlanRow taskId update)
  | .recordPlanRevision taskId revision =>
    s.commit ((s.recordPlanRevision taskId revision).map Prod.fst)
  | .recordPlanAssessment taskId assessment =>
    s.commit (s.recordPlanAssessment taskId assessment)
  | .holdForPlanGate taskId observed =>
    s.commit ((s.holdForPlanGate taskId observed).map Prod.fst)
  | .markPlanApplicabilityUnresolved taskId =>
    s.commit (s.markPlanApplicabilityUnresolved taskId)

/-- One call, whether it succeeds or fails. -/
def Performs (s : TaskStore) (op : Op) (s' : TaskStore) : Prop := (s.perform op).1 = s'

end TaskStore

end Rivect
