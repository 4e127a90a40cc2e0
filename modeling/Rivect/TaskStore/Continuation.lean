import Rivect.Ledger.Model
import Rivect.TaskStore.Tasks

/-! # The continuation of a task

What the next request of a task carries, and the forced compaction that folds its episodic
history into a checkpoint. The spend is the ledger's, so the two stores stand side by side here.
-/

namespace Rivect

open Lib

/-- The digest and the JSON text that libraries make of a text and of an answer. -/
structure Codec where
  digestOf : String → String
  answerJson : AnswerSelection → String

/-- `LIKE`: `%` is any text, `_` any character, and ASCII letters match in either case. -/
def like : List Char → List Char → Bool
  | [], text => text.isEmpty
  | p :: pattern, text =>
    if p = '%' then text.tails.any (like pattern)
    else
      match text with
      | [] => false
      | c :: rest => (p = '_' || p.toLower = c.toLower) && like pattern rest

def EvidenceValidity.text : EvidenceValidity → String
  | .current => "current"
  | .stale => "stale"

/-! ## Debug names -/

def ObligationApplicability.debug : ObligationApplicability → String
  | .required => "Required"
  | .notApplicable => "NotApplicable"
  | .unresolved => "Unresolved"

def ObligationExecution.debug : ObligationExecution → String
  | .pending => "Pending"
  | .satisfied => "Satisfied"
  | .failed => "Failed"
  | .stale => "Stale"

def AttemptState.debug : AttemptState → String
  | .planned => "Planned"
  | .admitted => "Admitted"
  | .running => "Running"
  | .confirmed => "Confirmed"
  | .rejected => "Rejected"
  | .cancelRequested => "CancelRequested"
  | .unknown => "Unknown"

/-- The class that a stored effect class reads as. -/
def effectClassDebug (stored : String) : String :=
  if stored = "write" then "Write"
  else if stored = "exec" then "Exec"
  else if stored = "egress" then "Egress"
  else if stored = "model" then "Model"
  else if stored = "control" then "Control"
  else "Read"

/-! ## Checkpoints -/

structure SpendEntry where
  scope : String
  spent : ℕ
deriving DecidableEq

structure ScopedIndexEntry where
  evidenceId : String
  validity : String
  digest : String
deriving DecidableEq

structure ContinuationCheckpoint where
  checkpointId : String
  taskId : String
  intentRevision : ℕ
  questionId : Option String
  questionRevision : Option ℕ
  goalDigest : String
  answerDigest : String
  evidenceDigest : String
  evidence : List ScopedIndexEntry
  spend : List SpendEntry
  foldedRecords : ℕ
  historyDigest : String
deriving DecidableEq

namespace ContinuationCheckpoint

/-- The object that the event journals. -/
def delta (c : ContinuationCheckpoint) : List (String × Value) :=
  [("checkpoint_id", .string c.checkpointId), ("task_id", .string c.taskId),
    ("intent_revision", .number c.intentRevision),
    ("question_id", c.questionId.elim .null .string),
    ("question_revision", c.questionRevision.elim .null .number),
    ("goal_digest", .string c.goalDigest), ("answer_digest", .string c.answerDigest),
    ("evidence_digest", .string c.evidenceDigest),
    ("evidence", .index (c.evidence.map fun e => (e.evidenceId, e.validity, e.digest))),
    ("spend", .ledger (c.spend.map fun e => (e.scope, e.spent))),
    ("folded_records", .number c.foldedRecords), ("history_digest", .string c.historyDigest)]

/-- The checkpoint that such an object reads as. -/
def ofDelta : List (String × Value) → Option ContinuationCheckpoint
  | [(_, .string checkpointId), (_, .string taskId), (_, .number intentRevision),
      (_, questionId), (_, questionRevision), (_, .string goalDigest), (_, .string answerDigest),
      (_, .string evidenceDigest), (_, .index evidence), (_, .ledger spend),
      (_, .number foldedRecords), (_, .string historyDigest)] => do
    let questionId ← match questionId with
      | .string id => some (some id)
      | .null => some none
      | _ => none
    let questionRevision ← match questionRevision with
      | .number revision => some (some revision)
      | .null => some none
      | _ => none
    some ⟨checkpointId, taskId, intentRevision, questionId, questionRevision, goalDigest,
      answerDigest, evidenceDigest, evidence.map fun e => ⟨e.1, e.2.1, e.2.2⟩,
      spend.map fun e => ⟨e.1, e.2⟩, foldedRecords, historyDigest⟩
  | _ => none

theorem ofDelta_delta (c : ContinuationCheckpoint) : ofDelta c.delta = some c := by
  obtain ⟨checkpointId, taskId, intent, questionId, questionRevision, goal, answer, digest,
    evidence, spend, folded, history⟩ := c
  cases questionId <;> cases questionRevision <;>
    simp [delta, ofDelta, Function.comp_def]

end ContinuationCheckpoint

/-- The line that a folded history assembles to. -/
def compactedHistoryLine (checkpoint : ContinuationCheckpoint) : String :=
  "history: compacted " ++ checkpoint.checkpointId ++ " " ++ toString checkpoint.foldedRecords ++
    " records digest " ++ checkpoint.historyDigest ++ "\n"

structure PinnedInputs where
  intentRevision : ℕ
  goalDigest : String
  answerDigest : String
  evidenceDigest : String
deriving DecidableEq

structure AssembledContext where
  text : String
  intent : String
  decision : String
  evidence : String
  remainder : String
  spend : String
  history : String
deriving DecidableEq

structure CompactionReport where
  checkpointId : String
  beforeBytes : ℕ
  afterBytes : ℕ
  foldedRecords : ℕ
deriving DecidableEq

/-- The row with the greatest key, as `ORDER BY key DESC LIMIT 1` reads it. -/
def latestBy {α : Type} (key : α → ℕ) (rows : List α) : Option α :=
  rows.foldl (fun best row =>
    match best with
    | none => some row
    | some b => if key b < key row then some row else some b) none

namespace TaskStore

/-! ## What a request reads -/

def evidenceForTask (s : TaskStore) (taskId : TaskId) : List EvidenceRow :=
  s.evidence.filter (·.taskId = taskId)

def attemptsForTask (s : TaskStore) (taskId : TaskId) : List AttemptRow :=
  s.attempts.filter (·.taskId = taskId)

/-- The pending question of a task that is not terminal, with the task's revision. -/
def currentQuestion (s : TaskStore) (taskId : TaskId) : Option (Question × ℕ) := do
  let task ← s.tasks taskId
  let q ← if task.lifecycle.isTerminal then none
    else latestBy QuestionRow.revision (s.pendingOf taskId)
  if q.body.intentRevision = task.intentRevision then some (q.body, task.revision) else none

/-- The last answered question's answer and author. -/
def answeredQuestion (s : TaskStore) (codec : Codec) (taskId : TaskId) :
    Option (String × String) := do
  let q ← (s.questions.rows.filter fun q => q.taskId = taskId ∧ q.state = .answered).getLast?
  let answer ← q.answer
  let origin ← q.answeredOrigin
  some (codec.answerJson answer, origin)

/-- `LATEST_COMPACTION`. -/
def continuationCheckpoint (s : TaskStore) (taskId : TaskId) :
    Except StoreError (Option ContinuationCheckpoint) :=
  match latestBy EventRow.cursor
      (s.events.filter fun e => e.taskId = some taskId ∧ e.eventType = "task.compacted") with
  | none => .ok none
  | some e => do
    let checkpoint ← found (ContinuationCheckpoint.ofDelta e.delta) .storage
    .ok (some checkpoint)

def evidenceIndexBytes (records : List EvidenceRow) : String :=
  String.join (records.map fun r =>
    r.evidenceId ++ " " ++ r.validity.text ++ " " ++ r.digest ++ "\n")

def pinnedInputs (s : TaskStore) (codec : Codec) (taskId : TaskId) :
    Except StoreError PinnedInputs := do
  let task ← found (s.tasks taskId) (missingTask taskId)
  .ok ⟨task.intentRevision, codec.digestOf task.goal,
    codec.digestOf ((s.answeredQuestion codec taskId).elim "" Prod.fst),
    codec.digestOf (evidenceIndexBytes (s.evidenceForTask taskId))⟩

/-! ## The parts of a context -/

def intentPart (task : TaskRow) : String :=
  "goal: " ++ task.goal ++ "\nintent: " ++ toString task.intentRevision ++ "\n"

def decisionPart (s : TaskStore) (codec : Codec) (taskId : TaskId) : String :=
  "decision:\n" ++
    (match s.currentQuestion taskId with
    | some (question, revision) =>
      "question: " ++ question.questionId.val ++ " r" ++ toString revision ++ " pending\n"
    | none => "question: none\n") ++
    match s.answeredQuestion codec taskId with
    | some (answer, origin) => "answer: " ++ origin ++ " " ++ answer ++ "\n"
    | none => "answer: none\n"

def evidencePart (records : List EvidenceRow) : String :=
  "records: " ++ toString records.length ++ "\n" ++ evidenceIndexBytes records

/-- The id and the states of each obligation of a snapshot. -/
def snapshotObligations (s : TaskStore) (taskId : TaskId) :
    List (String × ObligationApplicability × ObligationExecution) :=
  (s.obligationsOf taskId).map (fun o => (o.obligationId, o.applicability, o.execution)) ++
    (s.planObligations taskId).map fun row =>
      (PLAN_OBLIGATION_PREFIX ++ row.capability, row.applicability, row.execution)

def remainderPart (s : TaskStore) (taskId : TaskId) : String :=
  let outstanding := (s.snapshotObligations taskId).filter fun o => o.2.2 ≠ .satisfied
  "remainder:\n" ++
    String.join (outstanding.map fun o => o.1 ++ " " ++ o.2.1.debug ++ " " ++ o.2.2.debug ++ "\n") ++
    "outstanding: " ++ toString outstanding.length ++ "\n"

def recordLine (record : EvidenceRow) : String :=
  "record " ++ record.evidenceId ++ " " ++ record.observation ++ "\n"

def attemptLine (attempt : AttemptRow) : String :=
  "attempt " ++ attempt.attemptId ++ " " ++ attempt.actionId ++ " " ++
    effectClassDebug attempt.effectClass ++ " " ++ attempt.state.debug ++ "\n"

def historyPart (checkpoint : Option ContinuationCheckpoint) (records : List EvidenceRow)
    (attempts : List AttemptRow) : String :=
  match checkpoint with
  | some checkpoint => compactedHistoryLine checkpoint
  | none =>
    "history:\n" ++ String.join (records.map recordLine) ++ String.join (attempts.map attemptLine)

end TaskStore

/-- The task store beside the ledger that its context reads. -/
structure Database where
  tables : TaskStore
  ledger : Ledger

namespace Database

/-- `SPEND_SCOPES`, read and sorted: the scopes named after the task. -/
def spendScopes (db : Database) (taskId : TaskId) : Except StoreError (List SpendEntry) :=
  let scopes := db.ledger.scopes.filter fun b =>
    like (("task:" ++ taskId.val).toList ++ ['%']) b.scope.toList
  (scopes.mergeSort fun a b => a.scope < b.scope ∨ a.scope = b.scope ∧ a.spent ≤ b.spent).mapM
    fun b => do .ok ⟨b.scope, ← Ledger.unsigned b.spent⟩

def spendPart (spend : List SpendEntry) : String :=
  if spend.isEmpty then "spend: none\n"
  else
    "spend:\n" ++ String.join (spend.map fun e => e.scope ++ " " ++ toString e.spent ++ "\n")

def assembledContext (db : Database) (codec : Codec) (taskId : TaskId) :
    Except StoreError AssembledContext := do
  let task ← found (db.tables.tasks taskId) (TaskStore.missingTask taskId)
  let records := db.tables.evidenceForTask taskId
  let checkpoint ← db.tables.continuationCheckpoint taskId
  let intent := TaskStore.intentPart task
  let decision := db.tables.decisionPart codec taskId
  let evidence := TaskStore.evidencePart records
  let remainder := db.tables.remainderPart taskId
  let spend ← db.spendScopes taskId
  let spend := spendPart spend
  let history := TaskStore.historyPart checkpoint records (db.tables.attemptsForTask taskId)
  .ok
    { text := intent ++ decision ++ evidence ++ remainder ++ spend ++ history
      intent := intent
      decision := decision
      evidence := evidence
      remainder := remainder
      spend := spend
      history := history }

/-- The recorded entries of the checkpoint whose records are still there. -/
def scopedIndex (db : Database) (taskId : TaskId) : Except StoreError (List ScopedIndexEntry) := do
  match ← db.tables.continuationCheckpoint taskId with
  | none => .ok []
  | some checkpoint =>
    let live := (db.tables.evidenceForTask taskId).map EvidenceRow.evidenceId
    .ok (checkpoint.evidence.filter fun e => e.evidenceId ∈ live)

/-! ## The forced compaction -/

/-- The checkpoint that the fold would leave, with the context it was taken of. -/
def fold (db : Database) (codec : Codec) (taskId : TaskId) (checkpointId : String) :
    Except StoreError (AssembledContext × ContinuationCheckpoint) := do
  let before ← db.assembledContext codec taskId
  let pins ← db.tables.pinnedInputs codec taskId
  let records := db.tables.evidenceForTask taskId
  let question := db.tables.currentQuestion taskId
  let spend ← db.spendScopes taskId
  .ok (before,
    { checkpointId := checkpointId
      taskId := taskId.val
      intentRevision := pins.intentRevision
      questionId := question.map fun q => q.1.questionId.val
      questionRevision := question.map Prod.snd
      goalDigest := pins.goalDigest
      answerDigest := pins.answerDigest
      evidenceDigest := pins.evidenceDigest
      evidence := records.map fun r => ⟨r.evidenceId, r.validity.text, r.digest⟩
      spend := spend
      foldedRecords := records.length + (db.tables.attemptsForTask taskId).length
      historyDigest := codec.digestOf before.history })

/-- A fold that does not shorten the history is refused before anything is written. -/
def compact (db : Database) (codec : Codec) (sessionId : SessionId) (taskId : TaskId)
    (checkpointId : String) :
    Except StoreError (Database × AssembledContext × ContinuationCheckpoint) := do
  let (before, checkpoint) ← db.fold codec taskId checkpointId
  let folded := compactedHistoryLine checkpoint
  require (folded.utf8ByteSize < before.history.utf8ByteSize)
    (.conflict (.compactionNotShorter before.history.utf8ByteSize folded.utf8ByteSize))
  let tables ← db.tables.appendEvent sessionId (some taskId) (checkpointId, 1) "task.compacted"
    checkpoint.delta "runtime"
  .ok ({ db with tables := tables }, before, checkpoint)

/-- The context after the commit is read for the report. -/
def forceCompaction (db : Database) (codec : Codec) (sessionId : SessionId) (taskId : TaskId)
    (checkpointId : String) : Database × Except StoreError CompactionReport :=
  match db.compact codec sessionId taskId checkpointId with
  | .error e => (db, .error e)
  | .ok (db', before, checkpoint) =>
    (db', do
      let after ← db'.assembledContext codec taskId
      .ok ⟨checkpointId, before.text.utf8ByteSize, after.text.utf8ByteSize,
        checkpoint.foldedRecords⟩)

/-! ## The calls -/

inductive Call where
  | tables (op : TaskStore.Op)
  | ledger (op : Ledger.Op)
  | forceCompaction (sessionId : SessionId) (taskId : TaskId) (checkpointId : String)

def fresh (tasks : List String) : Database := ⟨TaskStore.fresh, Ledger.fresh tasks⟩

def perform (codec : Codec) (db : Database) : Call → Database × Except StoreError Unit
  | .tables op =>
    let (tables, result) := db.tables.perform op
    ({ db with tables := tables }, result)
  | .ledger op =>
    let (ledger, result) := db.ledger.perform op
    ({ db with ledger := ledger }, result)
  | .forceCompaction sessionId taskId checkpointId =>
    let (db', result) := db.forceCompaction codec sessionId taskId checkpointId
    (db', result.map fun _ => ())

/-- One call, whether it succeeds or fails. -/
def Performs (codec : Codec) (db : Database) (call : Call) (db' : Database) : Prop :=
  (db.perform codec call).1 = db'

end Database

end Rivect
