import Rivect.TaskStore.Continuation
import Rivect.TaskStore.Frame

/-! # What a compaction keeps and loses

A forced compaction rewrites the history part of a context and nothing else, and its index serves
live records only. The history of a task with a checkpoint is one line whatever is recorded later.
-/

namespace Rivect

open Lib List

/-! ## The latest row -/

section Latest

variable {α : Type} {key : α → ℕ} {rows : List α} {a : α}

/-- A loop that keeps its best row or takes the next one ends with a row, where there is one. -/
theorem foldl_chooses {step : Option α → α → Option α}
    (hstep : ∀ best row, step best row = some row ∨ step best row = best ∧ best ≠ none)
    (rows : List α) (best : Option α) :
    rows.foldl step best = best ∧ rows = [] ∨ ∃ row ∈ rows, rows.foldl step best = some row ∨
      rows.foldl step best = best ∧ best ≠ none := by
  induction rows generalizing best with
  | nil => exact .inl ⟨rfl, rfl⟩
  | cons x rows ih =>
    right
    rw [foldl_cons]
    rcases ih (step best x) with ⟨hbest, -⟩ | ⟨row, hrow, hrest⟩
    · refine ⟨x, mem_cons_self, ?_⟩
      rw [hbest]
      exact hstep best x
    · rcases hrest with h | ⟨h, -⟩
      · exact ⟨row, mem_cons_of_mem x hrow, .inl h⟩
      · refine ⟨x, mem_cons_self, ?_⟩
        rw [h]
        exact hstep best x

theorem latestBy_chooses (key : α → ℕ) (rows : List α) :
    latestBy key rows = none ∧ rows = [] ∨ ∃ row ∈ rows, latestBy key rows = some row := by
  refine (foldl_chooses ?_ rows none).imp_right ?_
  · rintro (_ | b) row
    · exact .inl rfl
    · dsimp only
      split
      · exact .inl rfl
      · exact .inr ⟨rfl, Option.some_ne_none b⟩
  · rintro ⟨row, hrow, h | ⟨-, h⟩⟩
    · exact ⟨row, hrow, h⟩
    · exact absurd rfl h

theorem mem_of_latestBy (h : latestBy key rows = some a) : a ∈ rows := by
  rcases latestBy_chooses key rows with ⟨hnone, -⟩ | ⟨row, hrow, hsome⟩
  · rw [hnone] at h
    cases h
  · rw [hsome] at h
    rwa [← Option.some.inj h]

theorem latestBy_append (h : ∀ b ∈ rows, key b < key a) :
    latestBy key (rows ++ [a]) = some a := by
  cases hb : latestBy key rows with
  | none =>
    unfold latestBy at hb ⊢
    rw [foldl_append, hb]
    rfl
  | some b =>
    have hlt := h b (mem_of_latestBy hb)
    unfold latestBy at hb ⊢
    rw [foldl_append, hb]
    exact if_pos hlt

theorem latestBy_ne_none (h : a ∈ rows) : latestBy key rows ≠ none := by
  rcases latestBy_chooses key rows with ⟨-, rfl⟩ | ⟨row, -, hsome⟩
  · cases h
  · rw [hsome]
    exact Option.some_ne_none row

end Latest

namespace TaskStore

variable {s : TaskStore} {taskId : TaskId}

/-- A checkpoint in the outbox hides the records from the history for good. -/
theorem continuationCheckpoint_of_event {e : EventRow} (he : e ∈ s.events)
    (htask : e.taskId = some taskId) (htype : e.eventType = "task.compacted")
    {checkpoint : Option ContinuationCheckpoint}
    (h : s.continuationCheckpoint taskId = .ok checkpoint) : checkpoint ≠ none := by
  have hmem : e ∈ s.events.filter fun e => e.taskId = some taskId ∧ e.eventType = "task.compacted" :=
    mem_filter.mpr ⟨he, by simp [htask, htype]⟩
  unfold continuationCheckpoint at h
  split at h
  · next hnone => exact absurd hnone (latestBy_ne_none hmem)
  · next e' _ =>
    cases hdelta : ContinuationCheckpoint.ofDelta e'.delta with
    | none =>
      rw [hdelta] at h
      cases h
    | some c =>
      rw [hdelta] at h
      cases h
      simp

theorem continuationCheckpoint_append {e : EventRow} {checkpoint : ContinuationCheckpoint}
    (htask : e.taskId = some taskId) (htype : e.eventType = "task.compacted")
    (hdelta : e.delta = checkpoint.delta) (hcursor : e.cursor = s.nextCursor) :
    ({ s with events := s.events ++ [e] } : TaskStore).continuationCheckpoint taskId =
      .ok (some checkpoint) := by
  have hlast : ∀ b ∈ s.events.filter fun e => e.taskId = some taskId ∧
      e.eventType = "task.compacted", b.cursor < e.cursor := by
    intro b hb
    rw [hcursor]
    exact Nat.lt_succ_of_le (le_foldl_max (mem_map_of_mem (mem_of_mem_filter hb)))
  unfold continuationCheckpoint
  simp only [filter_append, filter_cons, htask, htype, and_self, decide_true, if_true,
    filter_nil]
  rw [latestBy_append hlast]
  dsimp only
  rw [hdelta, ContinuationCheckpoint.ofDelta_delta]
  rfl

end TaskStore

namespace Database

variable {codec : Codec} {db db' : Database} {taskId : TaskId}

theorem assembledContext_ok_iff {context : AssembledContext} :
    db.assembledContext codec taskId = .ok context ↔
      ∃ task checkpoint spend, db.tables.tasks taskId = some task ∧
        db.tables.continuationCheckpoint taskId = .ok checkpoint ∧
        db.spendScopes taskId = .ok spend ∧
        context =
          { text := TaskStore.intentPart task ++ db.tables.decisionPart codec taskId ++
              TaskStore.evidencePart (db.tables.evidenceForTask taskId) ++
              db.tables.remainderPart taskId ++ spendPart spend ++
              TaskStore.historyPart checkpoint (db.tables.evidenceForTask taskId)
                (db.tables.attemptsForTask taskId)
            intent := TaskStore.intentPart task
            decision := db.tables.decisionPart codec taskId
            evidence := TaskStore.evidencePart (db.tables.evidenceForTask taskId)
            remainder := db.tables.remainderPart taskId
            spend := spendPart spend
            history := TaskStore.historyPart checkpoint (db.tables.evidenceForTask taskId)
              (db.tables.attemptsForTask taskId) } := by
  unfold assembledContext
  cases db.tables.tasks taskId with
  | none => simp
  | some task =>
    cases db.tables.continuationCheckpoint taskId with
    | error e => simp
    | ok checkpoint =>
      cases db.spendScopes taskId with
      | error e => simp
      | ok spend =>
        simp only [found_some, ok_bind, Except.ok.injEq, Option.some.injEq]
        constructor
        · rintro rfl
          exact ⟨task, checkpoint, spend, rfl, rfl, rfl, rfl⟩
        · rintro ⟨_, _, _, rfl, rfl, rfl, rfl⟩
          rfl

theorem fold_within (checkpointId : String) :
    Within Fails (fun r => db.assembledContext codec taskId = .ok r.1)
      (db.fold codec taskId checkpointId) := by
  apply Within.bind (Within.of_forall fun _ h => h)
  intro before hbefore
  apply Within.skip
  intro _
  apply Within.skip
  intro _
  exact hbefore

/-- What a compaction that commits did. -/
structure Compacted (codec : Codec) (db : Database) (taskId : TaskId) (db' : Database)
    (before : AssembledContext) (checkpoint : ContinuationCheckpoint) : Prop where
  context : db.assembledContext codec taskId = .ok before
  shorter : (compactedHistoryLine checkpoint).utf8ByteSize < before.history.utf8ByteSize
  appended : ∃ e : EventRow, e.taskId = some taskId ∧ e.eventType = "task.compacted" ∧
    e.delta = checkpoint.delta ∧ e.cursor = db.tables.nextCursor ∧
    db' = { db with tables := { db.tables with events := db.tables.events ++ [e] } }

theorem compact_within (sessionId : SessionId) (checkpointId : String) :
    Within Fails (fun r => Compacted codec db taskId r.1 r.2.1 r.2.2)
      (db.compact codec sessionId taskId checkpointId) := by
  apply Within.bind (fold_within checkpointId)
  rintro ⟨before, checkpoint⟩ hbefore
  apply Within.guard
  intro hshort
  apply Within.bind (P := fun tables => ∃ e : EventRow, e.taskId = some taskId ∧
    e.eventType = "task.compacted" ∧ e.delta = checkpoint.delta ∧
    e.cursor = db.tables.nextCursor ∧
    tables = { db.tables with events := db.tables.events ++ [e] })
  · apply Within.skip
    intro _
    apply Within.skip
    intro _
    exact ⟨_, rfl, rfl, rfl, rfl, rfl⟩
  · rintro tables ⟨e, htask, htype, hdelta, hcursor, rfl⟩
    exact ⟨hbefore, hshort, e, htask, htype, hdelta, hcursor, rfl⟩

/-- A context and the one that a compaction leaves. -/
structure Shortens (before after : AssembledContext) : Prop where
  intent : after.intent = before.intent
  decision : after.decision = before.decision
  evidence : after.evidence = before.evidence
  remainder : after.remainder = before.remainder
  spend : after.spend = before.spend
  text : after.text.utf8ByteSize < before.text.utf8ByteSize

/-- Only the history part is rewritten, by the checkpoint's line. -/
theorem Compacted.shortens {before : AssembledContext} {checkpoint : ContinuationCheckpoint}
    (h : Compacted codec db taskId db' before checkpoint) :
    ∃ after, db'.assembledContext codec taskId = .ok after ∧ Shortens before after := by
  obtain ⟨hcontext, hshort, e, htask, htype, hdelta, hcursor, rfl⟩ := h
  obtain ⟨task, old, spend, hrow, -, hspend, rfl⟩ := assembledContext_ok_iff.mp hcontext
  refine ⟨_, assembledContext_ok_iff.mpr ⟨task, some checkpoint, spend, hrow,
    TaskStore.continuationCheckpoint_append htask htype hdelta hcursor, hspend, rfl⟩,
    ⟨rfl, rfl, rfl, rfl, rfl, ?_⟩⟩
  simp only [String.utf8ByteSize_append]
  exact Nat.add_lt_add_left hshort _

theorem forceCompaction_ok {sessionId : SessionId} {checkpointId : String}
    {report : CompactionReport}
    (h : (db.forceCompaction codec sessionId taskId checkpointId).2 = .ok report) :
    ∃ before checkpoint, db.compact codec sessionId taskId checkpointId =
      .ok ((db.forceCompaction codec sessionId taskId checkpointId).1, before, checkpoint) := by
  unfold forceCompaction at h ⊢
  cases hcompact : db.compact codec sessionId taskId checkpointId with
  | error e =>
    rw [hcompact] at h
    cases h
  | ok r =>
    obtain ⟨db', before, checkpoint⟩ := r
    exact ⟨before, checkpoint, rfl⟩

theorem forceCompaction_of_compact {sessionId : SessionId} {checkpointId : String}
    (h : (db.compact codec sessionId taskId checkpointId).isOk = true) :
    ∃ report, (db.forceCompaction codec sessionId taskId checkpointId).2 = .ok report := by
  cases hcompact : db.compact codec sessionId taskId checkpointId with
  | error e =>
    rw [hcompact] at h
    cases h
  | ok r =>
    obtain ⟨db', before, checkpoint⟩ := r
    obtain ⟨after, hafter, -⟩ := ((compact_within sessionId checkpointId).of_ok hcompact).shortens
    unfold forceCompaction
    rw [hcompact]
    dsimp only at hafter ⊢
    rw [hafter]
    exact ⟨_, rfl⟩

theorem forceCompaction_frame (codec : Codec) (db : Database) (sessionId : SessionId)
    (taskId : TaskId) (checkpointId : String) :
    ∃ events, db.tables.events <+: events ∧
      (db.forceCompaction codec sessionId taskId checkpointId).1 =
        { db with tables := { db.tables with events := events } } := by
  have hw : Within _ _ (db.compact codec sessionId taskId checkpointId) :=
    compact_within sessionId checkpointId
  unfold forceCompaction
  cases hcompact : db.compact codec sessionId taskId checkpointId with
  | error e => exact ⟨_, prefix_refl _, rfl⟩
  | ok r =>
    obtain ⟨_, _, e, -, -, -, -, hdb⟩ := hw.of_ok hcompact
    exact ⟨_, prefix_append _ _, hdb⟩

/-! ## The index -/

theorem scopedIndex_live {entries : List ScopedIndexEntry}
    (h : db.scopedIndex taskId = .ok entries) {entry : ScopedIndexEntry} (hentry : entry ∈ entries) :
    ∃ r ∈ db.tables.evidence, r.taskId = taskId ∧ r.evidenceId = entry.evidenceId := by
  have hw : Within Fails (fun entries : List ScopedIndexEntry => ∀ entry ∈ entries,
      ∃ r ∈ db.tables.evidence, r.taskId = taskId ∧ r.evidenceId = entry.evidenceId)
      (db.scopedIndex taskId) := by
    apply Within.bind Within.trivially
    rintro (_ | checkpoint) -
    · simp
    · intro entry hentry
      obtain ⟨r, hr, hid⟩ := mem_map.mp (of_decide_eq_true (mem_filter.mp hentry).2)
      obtain ⟨hmem, htask⟩ := mem_filter.mp hr
      exact ⟨r, hmem, of_decide_eq_true htask, hid⟩
  exact hw.of_ok h entry hentry

/-! ## Recorded items -/

/-- What the episodic history is made of. -/
inductive Item where
  | evidence (evidenceId : String)
  | attempt (attemptId : String)

def Holds (db : Database) (taskId : TaskId) : Item → Prop
  | .evidence evidenceId => ∃ r ∈ db.tables.evidenceForTask taskId, r.evidenceId = evidenceId
  | .attempt attemptId => ∃ a ∈ db.tables.attemptsForTask taskId, a.attemptId = attemptId

/-- The database without the item. -/
def forget (db : Database) : Item → Database
  | .evidence evidenceId => { db with tables := { db.tables with
      evidence := db.tables.evidence.filter fun r => r.evidenceId ≠ evidenceId } }
  | .attempt attemptId => { db with tables := { db.tables with
      attempts := db.tables.attempts.filter fun a => a.attemptId ≠ attemptId } }

/-- The history part would read differently without the item. -/
def Shows (codec : Codec) (db : Database) (taskId : TaskId) (item : Item) : Prop :=
  ∃ context context', db.assembledContext codec taskId = .ok context ∧
    (db.forget item).assembledContext codec taskId = .ok context' ∧
    context'.history ≠ context.history

theorem forget_checkpoint (item : Item) :
    (db.forget item).tables.continuationCheckpoint taskId =
      db.tables.continuationCheckpoint taskId := by
  cases item <;> rfl

theorem not_shows_of_event {e : EventRow} (he : e ∈ db.tables.events)
    (htask : e.taskId = some taskId) (htype : e.eventType = "task.compacted") (item : Item) :
    ¬ Shows codec db taskId item := by
  rintro ⟨context, context', hcontext, hcontext', hne⟩
  obtain ⟨_, checkpoint, _, -, hcheckpoint, -, rfl⟩ := assembledContext_ok_iff.mp hcontext
  obtain ⟨_, checkpoint', _, -, hcheckpoint', -, rfl⟩ := assembledContext_ok_iff.mp hcontext'
  rw [forget_checkpoint, hcheckpoint] at hcheckpoint'
  obtain rfl := Except.ok.inj hcheckpoint'
  have hsome := TaskStore.continuationCheckpoint_of_event he htask htype hcheckpoint
  obtain ⟨c, rfl⟩ := Option.ne_none_iff_exists'.mp hsome
  exact hne rfl

/-! ## Runs -/

def after (codec : Codec) (tasks : List String) (calls : List Call) : Database :=
  calls.foldl (fun db call => (db.perform codec call).1) (fresh tasks)

theorem perform_events (db : Database) (call : Call) :
    db.tables.events <+: (db.perform codec call).1.tables.events := by
  cases call with
  | tables op => exact (TaskStore.perform_evolves db.tables op).events
  | ledger op => exact prefix_refl _
  | forceCompaction sessionId taskId checkpointId =>
    obtain ⟨events, hgrow, hframe⟩ := forceCompaction_frame codec db sessionId taskId
      checkpointId
    change _ <+: (db.forceCompaction codec sessionId taskId checkpointId).1.tables.events
    rw [hframe]
    exact hgrow

theorem foldl_events (codec : Codec) (db : Database) (calls : List Call) :
    db.tables.events <+:
      (calls.foldl (fun db call => (db.perform codec call).1) db).tables.events := by
  induction calls generalizing db with
  | nil => exact prefix_refl _
  | cons call calls ih => exact (perform_events db call).trans (ih _)

/-- The call commits a compaction of the task. -/
def Compacts (codec : Codec) (db : Database) (taskId : TaskId) (call : Call) : Prop :=
  ∃ sessionId checkpointId report, call = .forceCompaction sessionId taskId checkpointId ∧
    (db.forceCompaction codec sessionId taskId checkpointId).2 = .ok report

/-- The call records the item. -/
def Records (codec : Codec) (db : Database) (taskId : TaskId) (item : Item) (call : Call) : Prop :=
  ¬ db.Holds taskId item ∧ (db.perform codec call).1.Holds taskId item

theorem Compacts.event {call : Call} (h : Compacts codec db taskId call) :
    ∃ e ∈ (db.perform codec call).1.tables.events,
      e.taskId = some taskId ∧ e.eventType = "task.compacted" := by
  obtain ⟨sessionId, checkpointId, report, rfl, hok⟩ := h
  obtain ⟨before, checkpoint, hcompact⟩ := forceCompaction_ok hok
  obtain ⟨_, _, e, htask, htype, -, -, hdb⟩ :=
    (compact_within sessionId checkpointId).of_ok hcompact
  refine ⟨e, ?_, htask, htype⟩
  change e ∈ (db.forceCompaction codec sessionId taskId checkpointId).1.tables.events
  rw [hdb]
  simp

/-- What a compaction, the index and the history owe in the state that the calls lead to. -/
structure CompactionLaw (codec : Codec) (tasks : List String) (calls : List Call) : Prop where
  folds : ∀ sessionId taskId checkpointId report,
    ((after codec tasks calls).forceCompaction codec sessionId taskId checkpointId).2 = .ok report →
      ∃ before after', (after codec tasks calls).assembledContext codec taskId = .ok before ∧
        ((after codec tasks calls).forceCompaction codec sessionId taskId
          checkpointId).1.assembledContext codec taskId = .ok after' ∧ Shortens before after'
  index : ∀ taskId entries, (after codec tasks calls).scopedIndex taskId = .ok entries →
    ∀ entry ∈ entries, ∃ r ∈ (after codec tasks calls).tables.evidence,
      r.taskId = taskId ∧ r.evidenceId = entry.evidenceId
  shown : ∀ pre c mid d post taskId item, calls = pre ++ c :: mid ++ d :: post →
    Compacts codec (after codec tasks pre) taskId c →
    Records codec (after codec tasks (pre ++ c :: mid)) taskId item d →
    (∀ mid' c' post', post = mid' ++ c' :: post' →
      ¬ Compacts codec (after codec tasks (pre ++ c :: mid ++ d :: mid')) taskId c') →
    (after codec tasks calls).Holds taskId item →
    Shows codec (after codec tasks calls) taskId item

/-- No item of a task is recorded after one of its compactions. -/
def RecordsBefore (codec : Codec) (tasks : List String) (calls : List Call) : Prop :=
  ∀ pre c mid d post taskId item, calls = pre ++ c :: mid ++ d :: post →
    Compacts codec (after codec tasks pre) taskId c →
    ¬ Records codec (after codec tasks (pre ++ c :: mid)) taskId item d

theorem not_shows_of_compacts {pre post : List Call} {tasks : List String} {c : Call}
    (h : Compacts codec (after codec tasks pre) taskId c) (item : Item) :
    ¬ Shows codec (after codec tasks (pre ++ c :: post)) taskId item := by
  obtain ⟨e, he, htask, htype⟩ := h.event
  apply not_shows_of_event (e := e) ?_ htask htype
  have hgrow := foldl_events codec ((after codec tasks pre).perform codec c).1 post
  rw [after, foldl_append, foldl_cons]
  exact hgrow.subset he

/-- The history keeps up with the records of a run just when none comes after a compaction. -/
theorem compaction_law (codec : Codec) (tasks : List String) (calls : List Call) :
    (∀ pre, pre <+: calls → CompactionLaw codec tasks pre) ↔ RecordsBefore codec tasks calls := by
  constructor
  · intro h pre c mid d post taskId item hcalls hc hd
    have hlaw := h (pre ++ c :: mid ++ [d]) ⟨post, by simp [hcalls]⟩
    have hholds : (after codec tasks (pre ++ c :: mid ++ [d])).Holds taskId item := by
      rw [after, foldl_append]
      exact hd.2
    have hshows := hlaw.shown pre c mid d [] taskId item rfl hc hd (by simp) hholds
    rw [append_assoc, cons_append] at hshows
    exact not_shows_of_compacts hc item hshows
  · rintro h pre ⟨rest, rfl⟩
    constructor
    · intro sessionId taskId checkpointId report hok
      obtain ⟨before, checkpoint, hcompact⟩ := forceCompaction_ok hok
      have hcompacted := (compact_within sessionId checkpointId).of_ok hcompact
      obtain ⟨after', hafter, hshortens⟩ := hcompacted.shortens
      exact ⟨before, after', hcompacted.context, hafter, hshortens⟩
    · intro taskId entries hentries entry hentry
      exact scopedIndex_live hentries hentry
    · rintro pre' c mid d post taskId item rfl hc hd - -
      exact absurd hd (h pre' c mid d (post ++ rest) taskId item (by simp) hc)

/-! ## An attempt that is planned after the compaction -/

/-- The SHA-256 digests of the texts that the compaction below meets. -/
def hexDigest (text : String) : String :=
  if text = "goal" then "0304523efff53f243d76dc81b7c271f922292543cead846ee714f066c3331e5f"
  else if text = "" then "e3b0c44298fc1c149afbf4c8996fb92427ae41e4649b934ca495991b7852b855"
  else "9dbcbd1a023b9706633657a50b1e9987c3e92cc29fb4f88b3de8cd1f75fd9620"

def hexCodec : Codec := ⟨hexDigest, fun _ => "{}"⟩

def planned (attemptId : String) : Call :=
  .tables (.planAttempt attemptId ⟨"task"⟩ "read" "read the notes")

/-- A history of 145 bytes, which folds into a line of 138. -/
def episode : List Call :=
  [.tables TaskStore.created, planned "a1", planned "a2", planned "a3", planned "a4"]

def folding : Call :=
  .forceCompaction ⟨"session"⟩ ⟨"task"⟩ "3f2b8c1e-5d47-4a90-b6f1-0c9e7d2a4b58"

theorem spendScopes_nil (h : db.ledger.scopes = []) : db.spendScopes taskId = .ok [] := by
  simp [spendScopes, h, pure, Except.pure]

theorem folding_compacts :
    Compacts hexCodec (after hexCodec [] episode) ⟨"task"⟩ folding := by
  have hspend : (after hexCodec [] episode).spendScopes ⟨"task"⟩ = .ok [] := spendScopes_nil rfl
  have hcompact : ((after hexCodec [] episode).compact hexCodec ⟨"session"⟩ ⟨"task"⟩
      "3f2b8c1e-5d47-4a90-b6f1-0c9e7d2a4b58").isOk = true := by
    unfold compact fold assembledContext
    rw [hspend]
    decide +kernel
  obtain ⟨report, hok⟩ := forceCompaction_of_compact hcompact
  exact ⟨_, _, report, rfl, hok⟩

theorem planned_records :
    Records hexCodec (after hexCodec [] (episode ++ folding :: [])) ⟨"task"⟩ (.attempt "a5")
      (planned "a5") := by
  obtain ⟨events, -, hframe⟩ := forceCompaction_frame hexCodec (after hexCodec [] episode)
    ⟨"session"⟩ ⟨"task"⟩
    "3f2b8c1e-5d47-4a90-b6f1-0c9e7d2a4b58"
  have hafter : after hexCodec [] (episode ++ folding :: []) =
      { after hexCodec [] episode with
        tables := { (after hexCodec [] episode).tables with events := events } } := by
    rw [after, foldl_append]
    exact hframe
  rw [hafter]
  constructor
  · rintro ⟨a, ha, hid⟩
    have hold : ∀ a ∈ (after hexCodec [] episode).tables.attemptsForTask ⟨"task"⟩,
        a.attemptId ≠ "a5" := by
      decide
    exact hold a ha hid
  · exact ⟨_, mem_of_getLast? rfl, rfl⟩

/-- The fifth attempt is in no history. -/
theorem history_misses_attempt :
    ¬ CompactionLaw hexCodec [] (episode ++ folding :: [] ++ planned "a5" :: []) := by
  intro h
  have hholds : (after hexCodec [] (episode ++ folding :: [] ++ planned "a5" :: [])).Holds
      ⟨"task"⟩ (.attempt "a5") := by
    rw [after, foldl_append]
    exact planned_records.2
  have hshows := h.shown episode folding [] (planned "a5") [] _ _ rfl folding_compacts
    planned_records (by simp) hholds
  exact not_shows_of_compacts folding_compacts _ hshows

end Database

end Rivect
