import Rivect.Lib.Paging
import Rivect.TaskStore.Compaction
import Rivect.TaskStore.Outbox

/-! # The outbox over whole runs

No call finds the place of its event taken, the events number themselves, and a reader that pages
through them beside the writers sees each one once.
-/

namespace Rivect

open Lib List

def TaskStore.eventsAfter (s : TaskStore) (sessionId : SessionId) (taskId : Option TaskId)
    (after limit : ℕ) : Except StoreError (List EventRow) := do
  require (after < 2 ^ 63) (.invalidInput .eventCursorOutOfRange)
  .ok (page EventRow.cursor
    (s.events.filter fun e => e.sessionId = sessionId ∧ (taskId = none ∨ e.taskId = taskId))
    after limit)

namespace Database

variable {calls : List Call} {call : Call}

/-! ## Generated ids -/

def Call.taskIds : Call → List String
  | .tables (.createTask taskId _ _ _) => [taskId.val]
  | _ => []

def Call.questionIds : Call → List String
  | .tables (.publishQuestion _ question) => [question.questionId.val]
  | .tables (.publishPlanFork _ question _) => [question.questionId.val]
  | _ => []

def Call.checkpointIds : Call → List String
  | .forceCompaction _ _ checkpointId => [checkpointId]
  | _ => []

theorem flatMap_init (f : Call → List String) :
    calls.flatMap f ⊆ (calls ++ [call]).flatMap f := by
  rw [flatMap_append]
  exact subset_append_left _ _

theorem flatMap_last (f : Call → List String) : f call ⊆ (calls ++ [call]).flatMap f := by
  rw [flatMap_append, flatMap_singleton]
  exact subset_append_right _ _

/-- A generated id names one task, one question or one checkpoint. -/
structure Generated (calls : List Call) : Prop where
  task_question : ∀ id ∈ calls.flatMap Call.taskIds, id ∉ calls.flatMap Call.questionIds
  task_checkpoint : ∀ id ∈ calls.flatMap Call.taskIds, id ∉ calls.flatMap Call.checkpointIds
  question_checkpoint : ∀ id ∈ calls.flatMap Call.questionIds,
    id ∉ calls.flatMap Call.checkpointIds
  checkpoints : (calls.flatMap Call.checkpointIds).Nodup

namespace Generated

/-- What the ids of the calls name. -/
def ids (h : Generated calls) : TaskStore.Ids where
  task id := id ∈ calls.flatMap Call.taskIds
  question id := id ∈ calls.flatMap Call.questionIds
  checkpoint id := id ∈ calls.flatMap Call.checkpointIds
  task_question := h.task_question
  task_checkpoint := h.task_checkpoint
  question_checkpoint := h.question_checkpoint

theorem init (h : Generated (calls ++ [call])) : Generated calls := by
  refine ⟨fun id hid hid' => h.task_question id (flatMap_init _ hid) (flatMap_init _ hid'),
    fun id hid hid' => h.task_checkpoint id (flatMap_init _ hid) (flatMap_init _ hid'),
    fun id hid hid' => h.question_checkpoint id (flatMap_init _ hid) (flatMap_init _ hid'), ?_⟩
  have hnodup := h.checkpoints
  rw [flatMap_append] at hnodup
  exact (nodup_append.mp hnodup).1

end Generated

end Database

namespace TaskStore

variable {s : TaskStore} {ids ids' : Ids} {owed : List QuestionId}

theorem Journaled.widen (h : Journaled ids owed s) (htask : ∀ id, ids.task id → ids'.task id)
    (hquestion : ∀ id, ids.question id → ids'.question id)
    (hcheckpoint : ∀ id, ids.checkpoint id → ids'.checkpoint id) : Journaled ids' owed s where
  tasks t row hrow := htask _ (h.tasks t row hrow)
  questions q hq := hquestion _ (h.questions q hq)
  cursors := h.cursors
  ordered := h.ordered
  names e he := by
    cases h.names e he with
    | task ht hid hrevision htype => exact .task ht hid hrevision htype
    | question hq hstate hid hrevision htype => exact .question hq hstate hid hrevision htype
    | checkpoint hid htype => exact .checkpoint (hcheckpoint _ hid) htype
  reported := h.reported
  unreported := h.unreported

/-- What the outbox says in one state. -/
structure OutboxLaw (s : TaskStore) : Prop where
  cursors : s.events.map EventRow.cursor = range' 1 s.events.length
  ordered : s.events.Pairwise fun e e' =>
    e.aggregateId = e'.aggregateId → e.aggregateRevision < e'.aggregateRevision
  superseded : ∀ q ∈ s.questions.rows, q.state = .superseded →
    (s.events.filter fun e => e.eventType = "question.superseded" ∧
      e.aggregateId = q.questionId.val).length = 1

section

variable (h : Journaled ids [] s)
include h

theorem Journaled.reports_question {q : QuestionRow}
    (hq : q ∈ s.questions.rows) {e : EventRow} (he : e ∈ s.events)
    (htype : e.eventType = QUESTION_SUPERSEDED) (hid : e.aggregateId = q.questionId.val) :
    e.aggregateRevision = q.revision := by
  cases h.names e he with
  | task _ _ _ hother => exact absurd htype hother
  | @question q' hq' _ hid' hrevision _ =>
    have hsame : q.questionId = q'.questionId := by
      have := hid.symm.trans hid'
      cases hquestion : q.questionId
      cases hquestion' : q'.questionId
      simpa [hquestion, hquestion'] using this
    rw [hrevision, question_unique hq hq' hsame]
  | checkpoint _ hother => exact absurd htype hother

theorem Journaled.law : OutboxLaw s where
  cursors := h.cursors
  ordered := h.ordered
  superseded q hq hstate := by
    obtain ⟨e, he, hid, -, htype⟩ := (h.reported q hq hstate).resolve_left (by simp)
    have hmem : e ∈ s.events.filter fun e => e.eventType = "question.superseded" ∧
        e.aggregateId = q.questionId.val :=
      mem_filter.mpr ⟨he, by simp [show e.eventType = "question.superseded" from htype, hid]⟩
    have hall : ∀ e ∈ s.events.filter fun e => e.eventType = "question.superseded" ∧
        e.aggregateId = q.questionId.val,
        e.aggregateId = q.questionId.val ∧ e.aggregateRevision = q.revision := by
      intro e' he'
      obtain ⟨hmem', hnames⟩ := mem_filter.mp he'
      obtain ⟨htype', hid'⟩ := of_decide_eq_true hnames
      exact ⟨hid', h.reports_question hq hmem' htype' hid'⟩
    have hordered := h.ordered.filter fun e => decide (e.eventType = "question.superseded" ∧
      e.aggregateId = q.questionId.val)
    match hlist : s.events.filter fun e => e.eventType = "question.superseded" ∧
        e.aggregateId = q.questionId.val with
    | [] =>
      rw [hlist] at hmem
      simp at hmem
    | [_] => rw [hlist, length_singleton]
    | a :: b :: rest =>
      rw [hlist] at hall hordered
      obtain ⟨ha, harev⟩ := hall a (by simp)
      obtain ⟨hb, hbrev⟩ := hall b (by simp)
      have := rel_of_pairwise_cons hordered (show b ∈ b :: rest by simp) (ha.trans hb.symm)
      omega

theorem Journaled.keyed : Keyed EventRow.cursor s.events := by
  have hrange : (s.events.map EventRow.cursor).Pairwise (· < ·) := by
    rw [h.cursors]
    exact pairwise_lt_range'
  exact pairwise_map.mp hrange

theorem Journaled.cursor_le {e : EventRow} (he : e ∈ s.events) :
    e.cursor ≤ s.events.length := by
  have hmem : e.cursor ∈ s.events.map EventRow.cursor := mem_map_of_mem he
  rw [h.cursors, mem_range'] at hmem
  omega

theorem Journaled.cursor_new {old new : List EventRow}
    (hevents : s.events = old ++ new) {e : EventRow} (he : e ∈ new) : old.length < e.cursor := by
  have hcursors := h.cursors
  rw [hevents, map_append, length_append, ← range'_append_1] at hcursors
  have hnew := (append_inj hcursors (by simp)).2
  have hmem : e.cursor ∈ new.map EventRow.cursor := mem_map_of_mem he
  rw [hnew, mem_range'] at hmem
  omega

end

end TaskStore

namespace Database

variable {codec : Codec} {db : Database} {calls : List Call} {call : Call} {op : TaskStore.Op}

/-! ## One call -/

/-- What a call leaves to the plan's settlement after its event. -/
def Call.unsettled (db : Database) : Call → Option (TaskId × Lifecycle)
  | .tables op => op.unsettled db.tables
  | _ => none

/-- What one call appends. -/
structure Appended (db : Database) (call : Call) (r : Database × Except StoreError Unit) :
    Prop where
  finds : (∀ op, call ≠ .ledger op) → r.2 ≠ .error .eventExists
  grows : db.tables.events <+: r.1.tables.events
  carried : ∀ e ∈ r.1.tables.events, e ∈ db.tables.events ∨
    ∀ row, r.1.tables.tasks ⟨e.aggregateId⟩ = some row →
      row.revision = e.aggregateRevision +
        TaskStore.settled (call.unsettled db) ⟨e.aggregateId⟩ row

theorem named_of_generated (h : Generated (calls ++ [.tables op])) : op.Named h.ids := by
  cases op with
  | createTask => exact flatMap_last Call.taskIds (mem_singleton.mpr rfl)
  | publishQuestion => exact flatMap_last Call.questionIds (mem_singleton.mpr rfl)
  | publishPlanFork => exact flatMap_last Call.questionIds (mem_singleton.mpr rfl)
  | _ => trivial

theorem tables_appended {ids : TaskStore.Ids} (h : TaskStore.Journaled ids [] db.tables)
    {op : TaskStore.Op} (hop : op.Named ids) :
    TaskStore.Journaled ids [] (db.perform codec (.tables op)).1.tables ∧
      Appended db (.tables op) (db.perform codec (.tables op)) := by
  obtain ⟨hcommits, hfinds⟩ := TaskStore.perform_lands h hop
  refine ⟨hcommits.journaled, fun _ => hfinds, hcommits.evolves.events, fun e he => ?_⟩
  rcases hcommits.carried e he with hold | hother | ⟨t, last, hid, hlast, hrevision⟩
  · exact .inl hold
  · right
    intro row hrow
    exact absurd (hcommits.journaled.tasks _ _ hrow) hother
  · right
    intro row hrow
    have ht : (⟨e.aggregateId⟩ : TaskId) = t := by
      cases t
      simpa using hid
    rw [ht] at hrow ⊢
    obtain rfl := Option.mem_unique hrow hlast
    exact hrevision

/-! ## A forced compaction -/

theorem unsigned_appends (value : ℤ) :
    Within TaskStore.Appends (fun _ => True) (Ledger.unsigned value) := by
  unfold Ledger.unsigned
  split
  · simp [Within]
  · trivial

theorem continuationCheckpoint_appends (s : TaskStore) (taskId : TaskId) :
    Within TaskStore.Appends (fun _ => True) (s.continuationCheckpoint taskId) := by
  unfold TaskStore.continuationCheckpoint
  split
  · trivial
  · apply Within.bind (Within.found fun _ => by simp)
    exact fun _ _ => trivial

theorem spendScopes_appends (db : Database) (taskId : TaskId) :
    Within TaskStore.Appends (fun _ => True) (db.spendScopes taskId) := by
  apply Within.mapM
  intro b _
  apply Within.bind (unsigned_appends b.spent)
  exact fun _ _ => trivial

theorem assembledContext_appends (db : Database) (taskId : TaskId) :
    Within TaskStore.Appends (fun _ => True) (db.assembledContext codec taskId) := by
  apply Within.bind (Within.found fun _ => by simp [TaskStore.missingTask])
  intro _ _
  apply Within.bind (continuationCheckpoint_appends db.tables taskId)
  intro _ _
  apply Within.bind (spendScopes_appends db taskId)
  exact fun _ _ => trivial

theorem fold_appends (db : Database) (taskId : TaskId) (checkpointId : String) :
    Within TaskStore.Appends (fun r => r.2.checkpointId = checkpointId)
      (db.fold codec taskId checkpointId) := by
  apply Within.bind (assembledContext_appends db taskId)
  intro _ _
  apply Within.bind (P := fun _ => True)
  · apply Within.bind (Within.found fun _ => by simp [TaskStore.missingTask])
    exact fun _ _ => trivial
  · intro _ _
    apply Within.bind (spendScopes_appends db taskId)
    exact fun _ _ => rfl

theorem checkpoint_fresh {sessionId : SessionId} {taskId : TaskId} {checkpointId : String}
    (hids : Generated (calls ++ [.forceCompaction sessionId taskId checkpointId]))
    (h : TaskStore.Journaled hids.init.ids [] db.tables) {e : EventRow}
    (he : e ∈ db.tables.events) : e.aggregateId ≠ checkpointId := by
  rintro rfl
  have hnew : e.aggregateId ∈
      (calls ++ [Call.forceCompaction sessionId taskId e.aggregateId]).flatMap
        Call.checkpointIds := flatMap_last _ (mem_singleton.mpr rfl)
  cases h.names e he with
  | @task t row ht hid =>
    have htask := h.tasks t row ht
    rw [← hid] at htask
    exact hids.task_checkpoint _ (flatMap_init _ htask) hnew
  | @question q hq _ hid =>
    have hquestion := h.questions q hq
    rw [← hid] at hquestion
    exact hids.question_checkpoint _ (flatMap_init _ hquestion) hnew
  | checkpoint hid =>
    have hnodup := hids.checkpoints
    rw [flatMap_append] at hnodup
    exact (nodup_append.mp hnodup).2.2 _ hid _ (by simp [Call.checkpointIds]) rfl

theorem widen_last (h : Generated (calls ++ [call]))
    (hj : TaskStore.Journaled h.init.ids [] db.tables) :
    TaskStore.Journaled h.ids [] db.tables :=
  hj.widen (fun _ hid => flatMap_init _ hid) (fun _ hid => flatMap_init _ hid)
    fun _ hid => flatMap_init _ hid

theorem compact_appends {sessionId : SessionId} {taskId : TaskId} {checkpointId : String}
    (hids : Generated (calls ++ [.forceCompaction sessionId taskId checkpointId]))
    (h : TaskStore.Journaled hids.init.ids [] db.tables) :
    Within TaskStore.Appends
      (fun r => TaskStore.Journaled hids.ids [] r.1.tables ∧ ∃ e : EventRow,
        e.aggregateId = checkpointId ∧ r.1.tables.events = db.tables.events ++ [e])
      (db.compact codec sessionId taskId checkpointId) := by
  have hcheckpoint : hids.ids.checkpoint checkpointId :=
    flatMap_last Call.checkpointIds (mem_singleton.mpr rfl)
  apply Within.bind (fold_appends db taskId checkpointId)
  rintro ⟨before, checkpoint⟩ -
  apply Within.bind (Within.require fun _ => by simp)
  intro _ _
  have hrow : db.tables.eventRow sessionId (some taskId) (checkpointId, 1) "task.compacted"
      checkpoint.delta "runtime" = _ := rfl
  obtain ⟨hok, hj⟩ := (widen_last hids h).append hrow
    (fun e he hid => absurd hid (checkpoint_fresh hids h he))
    (.checkpoint hcheckpoint (by simp [TaskStore.eventRow, TaskStore.QUESTION_SUPERSEDED]))
    (nil_subset _) (by simp) (by simp)
  rw [hok, ok_bind, Within.ok_iff]
  exact ⟨hj, _, rfl, rfl⟩

theorem forceCompaction_appended {sessionId : SessionId} {taskId : TaskId} {checkpointId : String}
    (hids : Generated (calls ++ [.forceCompaction sessionId taskId checkpointId]))
    (h : TaskStore.Journaled hids.init.ids [] db.tables) :
    TaskStore.Journaled hids.ids []
        (db.perform codec (.forceCompaction sessionId taskId checkpointId)).1.tables ∧
      Appended db (.forceCompaction sessionId taskId checkpointId)
        (db.perform codec (.forceCompaction sessionId taskId checkpointId)) := by
  have hw : Within _ _ (db.compact codec sessionId taskId checkpointId) :=
    compact_appends hids h
  have hperform : db.perform codec (.forceCompaction sessionId taskId checkpointId) =
      ((db.forceCompaction codec sessionId taskId checkpointId).1,
        (db.forceCompaction codec sessionId taskId checkpointId).2.map fun _ => ()) := rfl
  rw [hperform]
  unfold forceCompaction
  cases hcompact : db.compact codec sessionId taskId checkpointId with
  | error e =>
    rw [hcompact] at hw
    exact ⟨widen_last hids h, fun _ => by simpa [Except.map, Within] using hw, prefix_refl _,
      fun e he => .inl he⟩
  | ok r =>
    obtain ⟨db', before, checkpoint⟩ := r
    obtain ⟨after, hafter, -⟩ :=
      ((compact_within sessionId checkpointId).of_ok hcompact).shortens
    obtain ⟨hj, e, hid, hevents⟩ := hw.of_ok hcompact
    dsimp only at hafter hj hevents ⊢
    refine ⟨hj, fun _ => ?_, ?_, ?_⟩
    · rw [hafter]
      simp [Except.map]
    · rw [hevents]
      exact prefix_append _ _
    · intro e' he'
      rw [hevents] at he'
      rcases mem_append.mp he' with hold | hnew
      · exact .inl hold
      · right
        intro row hrow
        obtain rfl := mem_singleton.mp hnew
        have htask := hj.tasks _ _ hrow
        rw [hid] at htask
        exact absurd (flatMap_last Call.checkpointIds (mem_singleton.mpr rfl))
          (hids.task_checkpoint _ htask)

/-- Every call keeps the outbox and finds the place of its events. -/
theorem perform_appended (codec : Codec) (hids : Generated (calls ++ [call]))
    (h : TaskStore.Journaled hids.init.ids [] db.tables) :
    TaskStore.Journaled hids.ids [] (db.perform codec call).1.tables ∧
      Appended db call (db.perform codec call) := by
  cases call with
  | tables op => exact tables_appended (widen_last hids h) (named_of_generated hids)
  | ledger op =>
    exact ⟨widen_last hids h, fun hledger => absurd rfl (hledger op), prefix_refl _,
      fun e he => .inl he⟩
  | forceCompaction => exact forceCompaction_appended hids h

/-! ## A reader beside the writers -/

structure Reader where
  last : ℕ
  read : List EventRow

inductive Turn where
  | call (call : Call)
  | read (limit : ℕ)

def Turn.call? : Turn → Option Call
  | .call call => some call
  | .read _ => none

/-- The page past the last cursor; a refused read leaves the reader where it was. -/
def readPage (db : Database) (sessionId : SessionId) (taskId : Option TaskId) (reader : Reader)
    (limit : ℕ) : Reader :=
  match db.tables.eventsAfter sessionId taskId reader.last limit with
  | .ok events => ⟨lastKey EventRow.cursor reader.last events, reader.read ++ events⟩
  | .error _ => reader

/-- One call of a writer or one page of the reader. -/
def turn (codec : Codec) (sessionId : SessionId) (taskId : Option TaskId) :
    Database × Reader → Turn → Database × Reader
  | (db, reader), .call call => ((db.perform codec call).1, reader)
  | (db, reader), .read limit => (db, db.readPage sessionId taskId reader limit)

/-- The events that the reader asks for. -/
def asked (db : Database) (sessionId : SessionId) (taskId : Option TaskId) : List EventRow :=
  db.tables.events.filter fun e => e.sessionId = sessionId ∧ (taskId = none ∨ e.taskId = taskId)

/-- The reader has read what there is up to its last cursor. -/
structure Follows (db : Database) (sessionId : SessionId) (taskId : Option TaskId)
    (reader : Reader) : Prop where
  last : reader.last ≤ db.tables.events.length
  read : reader.read = seen EventRow.cursor (db.asked sessionId taskId) reader.last

variable {sessionId : SessionId} {taskId : Option TaskId} {reader : Reader}
  {ids : TaskStore.Ids}

theorem asked_keyed (h : TaskStore.Journaled ids [] db.tables) :
    Keyed EventRow.cursor (db.asked sessionId taskId) := h.keyed.filter _

theorem Follows.grown {db' : Database} (h : Follows db sessionId taskId reader)
    (hj : TaskStore.Journaled ids [] db'.tables)
    (hgrow : db.tables.events <+: db'.tables.events) :
    Follows db' sessionId taskId reader where
  last := h.last.trans hgrow.length_le
  read := by
    rw [h.read]
    refine (seen_grown (hgrow.filter _) ?_ (asked_keyed hj)).symm
    intro e he
    obtain ⟨new, hnew⟩ := hgrow
    obtain ⟨hmem, hask⟩ := mem_filter.mp he
    rw [← hnew] at hmem
    rcases mem_append.mp hmem with hold | hmem
    · exact .inl (mem_filter.mpr ⟨hold, hask⟩)
    · right
      exact h.last.trans_lt (hj.cursor_new hnew.symm hmem)

theorem Follows.page (h : Follows db sessionId taskId reader)
    (hj : TaskStore.Journaled ids [] db.tables) (limit : ℕ) :
    Follows db sessionId taskId (db.readPage sessionId taskId reader limit) := by
  unfold readPage TaskStore.eventsAfter
  by_cases hrange : reader.last < 2 ^ 63
  · rw [require_pos hrange, ok_bind]
    refine ⟨?_, ?_⟩
    · apply lastKey_le h.last
      intro e he
      exact hj.cursor_le (mem_of_mem_filter (mem_of_mem_page he))
    · rw [h.read]
      exact seen_page (asked_keyed hj) _ _
  · rw [require_neg hrange, error_bind]
    exact h

theorem Follows.whole (h : Follows db sessionId taskId reader)
    (hj : TaskStore.Journaled ids [] db.tables) {limit : ℕ} {events : List EventRow}
    (hevents : db.tables.eventsAfter sessionId taskId reader.last limit = .ok events)
    (hshort : events.length < limit) : reader.read ++ events = db.asked sessionId taskId := by
  unfold TaskStore.eventsAfter at hevents
  by_cases hrange : reader.last < 2 ^ 63
  · rw [require_pos hrange, ok_bind] at hevents
    obtain rfl := Except.ok.inj hevents
    rw [h.read]
    exact seen_page_short (asked_keyed hj) hshort
  · rw [require_neg hrange, error_bind] at hevents
    cases hevents

/-- What the outbox, the next call and the reader owe in one state of a run. -/
structure EventLaws (codec : Codec) (sessionId : SessionId) (taskId : Option TaskId)
    (calls : List Call) (db : Database) (reader : Reader) : Prop where
  law : db.tables.OutboxLaw
  next : ∀ call, Generated (calls ++ [call]) → Appended db call (db.perform codec call)
  read : reader.read = (db.asked sessionId taskId).filter fun e => e.cursor ≤ reader.last
  whole : ∀ limit events, db.tables.eventsAfter sessionId taskId reader.last limit = .ok events →
    events.length < limit → reader.read ++ events = db.asked sessionId taskId

theorem journaled_fresh (tasks : List String) (h : Generated []) :
    TaskStore.Journaled h.ids [] (fresh tasks).tables where
  tasks t row hrow := by cases hrow
  questions q hq := by cases hq
  cursors := rfl
  ordered := .nil
  names e he := by cases he
  reported q hq := by cases hq
  unreported := by simp

/-- The outbox of any run: the writers' calls and the reader's pages come in any order. -/
theorem event_outbox {tasks : List String} {turns : List Turn}
    (h : Run (fun state i state' => turn codec sessionId taskId state i = state')
      (fresh tasks, ⟨0, []⟩) turns (db, reader))
    (hids : Generated (turns.filterMap Turn.call?)) :
    EventLaws codec sessionId taskId (turns.filterMap Turn.call?) db reader := by
  have hinv : ∀ hids : Generated (turns.filterMap Turn.call?),
      TaskStore.Journaled hids.ids [] db.tables ∧ Follows db sessionId taskId reader := by
    refine h.history (I := fun turns state => ∀ hids : Generated (turns.filterMap Turn.call?),
      TaskStore.Journaled hids.ids [] state.1.tables ∧
        Follows state.1 sessionId taskId state.2) ?_ ?_
    · intro hids
      exact ⟨journaled_fresh tasks hids, le_rfl, rfl⟩
    · rintro pre i ⟨db, reader⟩ _ - hpre rfl hids
      cases i with
      | call call =>
        have hcalls : (pre ++ [Turn.call call]).filterMap Turn.call? =
            pre.filterMap Turn.call? ++ [call] := by
          simp [Turn.call?]
        revert hids
        rw [hcalls]
        intro hids
        obtain ⟨hj, hfollows⟩ := hpre hids.init
        obtain ⟨hj', happended⟩ := perform_appended codec hids hj
        exact ⟨hj', hfollows.grown hj' happended.grows⟩
      | read limit =>
        have hcalls : (pre ++ [Turn.read limit]).filterMap Turn.call? = pre.filterMap Turn.call? := by
          simp [Turn.call?]
        revert hids
        rw [hcalls]
        intro hids
        obtain ⟨hj, hfollows⟩ := hpre hids
        exact ⟨hj, hfollows.page hj limit⟩
  obtain ⟨hj, hfollows⟩ := hinv hids
  exact ⟨hj.law, fun call hcall => (perform_appended codec hcall hj).2, hfollows.read,
    fun _ _ hevents hshort => hfollows.whole hj hevents hshort⟩

/-- A gate hold that comes while the task is paused. -/
def heldPause : List Call :=
  [.tables TaskStore.created, .tables (.pauseForWorkflowOff ⟨"session"⟩ ⟨"task"⟩),
    .tables (.holdForPlanGate ⟨"task"⟩ .paused)]

def release : Call := .tables (.steerTask ⟨"session"⟩ ⟨"task"⟩ 1 2 "shorter")

/-- The steer's event carries revision 3 beside a row at revision 4. -/
theorem steer_event_behind_row :
    ¬ ∀ e ∈ ((after hexCodec [] heldPause).perform hexCodec release).1.tables.events,
      e ∈ (after hexCodec [] heldPause).tables.events ∨
        ∀ row, ((after hexCodec [] heldPause).perform hexCodec release).1.tables.tasks
          ⟨e.aggregateId⟩ = some row → row.revision = e.aggregateRevision := by
  intro h
  rcases h _ (mem_of_getLast? rfl) with hold | hnew
  · revert hold
    decide
  · have := hnew _ rfl
    revert this
    decide

/-- A page before the steer and one after it. -/
def steered : List Turn :=
  heldPause.map .call ++ [.read 2, .call release, .read 4]

theorem event_outbox_steered :
    Generated (steered.filterMap Turn.call?) ∧
      EventLaws hexCodec ⟨"session"⟩ none (steered.filterMap Turn.call?)
        (steered.foldl (turn hexCodec ⟨"session"⟩ none) (fresh [], ⟨0, []⟩)).1
        (steered.foldl (turn hexCodec ⟨"session"⟩ none) (fresh [], ⟨0, []⟩)).2 := by
  have hids : Generated (steered.filterMap Turn.call?) :=
    ⟨by decide, by decide, by decide, by decide⟩
  exact ⟨hids, event_outbox (Run.of_foldl _ _ _) hids⟩

end Database

end Rivect
