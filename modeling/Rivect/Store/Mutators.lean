import Rivect.Ledger.Model
import Rivect.Store.Sessions
import Rivect.TaskStore.Frame

/-! # Mutators under a failing statement

The mutators of `src/state.rs` with their statements in order. Those that run in one transaction
leave every row alone when they fail; those that commit statement by statement, or read after their
commit, do so only until their first write is committed.
-/

namespace Rivect

open Lib List Script

/-- The tables that the mutators write. -/
structure StoreTables where
  sessions : SessionTables
  tasks : TaskStore
  ledger : Ledger

/-- The tables of a store as it opens for the first time. -/
def StoreTables.fresh : StoreTables := ⟨⟨[], [], []⟩, TaskStore.fresh, Ledger.fresh []⟩

namespace Statements

/-! ## Statement by statement -/

def insertEvidence (evidenceId : String) (taskId : TaskId) (obligationIndex : ℕ)
    (scope observation digest : String) : Script Site TaskStore StoreError String := do
  let row ← look .obligationAtOffset .storage fun s =>
    (s.obligationsOf taskId)[obligationIndex]?
  let o ← ofExcept (found row (.notFound .obligation))
  write (.insertEvidence 0) .storage
    (·.insertEvidenceRow ⟨evidenceId, taskId, scope, observation, digest, .current, o.obligationId⟩)
  Script.change (.satisfyObligation 0) .storage (·.satisfyObligation o.obligationId)
  pure evidenceId

def insertObligations (taskId : TaskId) (obligationId : ℕ → String)
    (criteria : List (String × ℕ)) : Script Site TaskStore StoreError Unit :=
  Script.each (fun criterion => write (.insertObligation criterion.2) .storage
    (·.insertObligation (obligationId criterion.2) taskId criterion.1)) criteria

def materializeObligations (taskId : TaskId) (obligationId : ℕ → String) :
    Script Site TaskStore StoreError Unit := do
  let missing ← look .missingObligations .storage (·.missingObligations taskId)
  insertObligations taskId obligationId missing.zipIdx

/-! ## In one transaction -/

def insertEvidenceForTask (evidenceId : ℕ → String) (taskId : TaskId)
    (scope observation digest : String) : Script Site TaskStore StoreError Unit :=
  transaction .begin .commit .storage do
    let ids ← look .obligationIdsForTask .storage fun s =>
      (s.obligationsOf taskId).map ObligationRow.obligationId
    Script.each (fun o => do
      write (.insertEvidence o.2) .storage (·.insertEvidenceRow
        ⟨evidenceId o.2, taskId, scope, observation, digest, .current, o.1⟩)
      Script.change (.satisfyObligation o.2) .storage (·.satisfyObligation o.1)) ids.zipIdx
    pure (.commit ())

/-- What the creation of a task answers, by the snapshot of its row. -/
def created (taskId : TaskId) (snapshot : TaskRow) : CommandResult :=
  ⟨"accepted", taskId, snapshot.revision, snapshot.intentRevision, 1, some 1⟩

def insertNewTask (taskId : TaskId) (criterionId : ℕ → String) (commandId : String)
    (params : CreateParams) : Script Site TaskStore StoreError CommandResult :=
  transaction .begin .commit .storage do
    write .insertTask .storage (·.insertTask taskId criterionId params)
    write .appendEvent .storage (·.appendEvent params.sessionId (some taskId)
      (taskId.val, 1) "task.created"
      [("task_id", .string taskId.val), ("goal_digest", .digest params.goal)] "human")
    let snapshot ← read .snapshot .storage fun s =>
      found (s.tasks taskId) (TaskStore.missingTask taskId)
    write .insertReceipt .storage (·.recordReceipt commandId params (created taskId snapshot))
    pure (.commit (created taskId snapshot))

/-- A recorded command is replayed, unless another request stands under its id. -/
def replay (commandId : String) (params : CreateParams) (row : ReceiptRow) :
    Script Site TaskStore StoreError CommandResult := do
  ofExcept (require (row.paramsDigest = params) (.conflict (.duplicateCommand commandId)))
  pure row.result

def createTask (taskId : TaskId) (criterionId : ℕ → String) (commandId : String)
    (params : CreateParams) : Script Site TaskStore StoreError CommandResult := do
  ofExcept (require (params.goal ≠ "" ∧ params.goal.utf8ByteSize ≤ TEXT_MAX_BYTES)
    (.invalidInput .emptyGoal))
  let recorded ← look .receiptByCommand .storage (·.receipt commandId)
  match recorded with
  | some row => replay commandId params row
  | none => insertNewTask taskId criterionId commandId params

def releaseBlocked (taskId : TaskId) (lifecycle : Lifecycle) :
    Script Site TaskStore StoreError Unit :=
  if lifecycle = .blocked then
    Script.change .releasePlanOwnedBlock .storage (·.releasePlanOwnedBlock taskId)
  else pure ()

/-- The fork and the wait on its row. -/
def planFork (sessionId : SessionId) (question : Question) (update : PlanRowUpdate) :
    Script Site TaskStore StoreError (Close Unit) := do
  let taskId := question.taskId
  read .checkPlanBinding .storage
    (·.checkPlanBinding taskId update.selectionRevision update.factsDigest)
  let task ← read .taskLifecycle .storage fun s => found (s.tasks taskId) .storage
  releaseBlocked taskId task.lifecycle
  write .applyPlanRowChange .storage
    (·.applyPlanRowChange taskId update.capability update.handler update.change)
  write .insertQuestion .storage (·.insertQuestion sessionId question)
  write .settlePlanState .storage (·.settlePlanState taskId)
  pure (.commit ())

/-- The snapshot that a published fork answers is read after the commit. -/
def publishPlanFork (sessionId : SessionId) (question : Question) (update : PlanRowUpdate) :
    Script Site TaskStore StoreError TaskRow := do
  transaction .begin .commit .storage (planFork sessionId question update)
  read .snapshot .storage fun s =>
    found (s.tasks question.taskId) (TaskStore.missingTask question.taskId)

/-- Identical facts reset what they decide; where nothing is reset, nothing is committed. -/
def keepSelection (taskId : TaskId) (rows : List PlanRowWrite) (current : PlanSelectionRecord) :
    Script Site TaskStore StoreError (Close PlanSelectionRecord) := do
  let reset ← statement .resetRecoveredPlanRows .storage fun s =>
    .ok (s.resetRecoveredPlanRows taskId rows)
  if reset then do
    write .settlePlanState .storage (·.settlePlanState taskId)
    pure (.commit current)
  else pure (.drop current)

def replaceSelection (sessionId : SessionId) (taskId : TaskId) (selection : PlanSelectionWrite)
    (revision : ℕ) : Script Site TaskStore StoreError (Close PlanSelectionRecord) := do
  write .supersedePlanQuestions .storage (·.supersedeReplaced sessionId taskId revision)
  let stored ← ofExcept (TaskStore.storedU64 revision)
  let record : PlanSelectionRecord := ⟨stored, selection.factsDigest, selection.requestKind⟩
  Script.change .upsertPlanSelection .storage (·.setPlanSelection taskId record)
  write .insertPlanObligations .storage fun s => do
    require (selection.rows.map PlanRowWrite.capability).Nodup .storage
    .ok (s.setPlanRows taskId (selection.rows.map PlanRowWrite.row))
  write .settlePlanState .storage (·.settlePlanState taskId)
  pure (.commit record)

def recordPlanSelection (sessionId : SessionId) (taskId : TaskId) (selection : PlanSelectionWrite) :
    Script Site TaskStore StoreError PlanSelectionRecord :=
  transaction .begin .commit .storage do
    read .requireOpenTask .storage (·.requireOpenTask taskId)
    let recorded ← look .planSelection .storage (·.planSelections taskId)
    match recorded.filter (·.factsDigest = selection.factsDigest) with
    | some current => keepSelection taskId selection.rows current
    | none => replaceSelection sessionId taskId selection (recorded.elim 1 (·.revision + 1))

def beginSend (scopes : List String) (context : SendContext) (manifest : RequestManifest) :
    Script Site Ledger StoreError SendTicket := do
  let storedBound ← ofExcept (Ledger.budgetUnitsI64 manifest.costBound)
  transaction .begin .commit .storage do
    let replayed ← look .settlementRow .storage (·.settlementRow manifest.attemptId)
    ofExcept (require (replayed = none)
      (.conflict (.settlementAlreadyRecorded manifest.attemptId)))
    let opened ← look .budgetScopeExists .storage (·.openScopes scopes)
    read .workBudgetSendState .storage fun l => opened.forM l.checkSendBound
    write .reserveBudget .storage fun l =>
      opened.foldlM (Ledger.reserveAt manifest.attemptId storedBound manifest.costBound) l
    let rowid ← statement .nextSettlementRowid .storage (·.nextSettlementRowid)
    write .insertSettlementDispatched .storage
      (·.insertSettlementDispatched rowid context manifest.attemptId storedBound)
    pure (.commit ⟨manifest.attemptId, manifest.costBound, !opened.isEmpty⟩)

/-! ## Without a failing statement -/

theorem insertEvidence_computes (evidenceId : String) (taskId : TaskId) (obligationIndex : ℕ)
    (scope observation digest : String) :
    (insertEvidence evidenceId taskId obligationIndex scope observation digest).Computes fun s =>
      (s.insertEvidence evidenceId taskId obligationIndex scope observation digest).map
        fun s' => (s', evidenceId) := by
  refine (Script.Computes.bind (.look _ _ _) fun row => .bind (.ofExcept _) fun o =>
    .bind (.write _ _ _) fun _ => .bind (.change _ _ _) fun _ => .ret _).of_eq fun s => ?_
  simp only [TaskStore.insertEvidence, Script.map_eq_bind, bind_assoc, ok_bind]

theorem insertEvidenceForTask_computes (evidenceId : ℕ → String) (taskId : TaskId)
    (scope observation digest : String) :
    (insertEvidenceForTask evidenceId taskId scope observation digest).Computes fun s =>
      (s.insertEvidenceForTask evidenceId taskId scope observation digest).map
        fun s' => (s', ()) := by
  refine (Script.Computes.transaction <| .bind (.look _ _ _) fun ids =>
    .bind (.each (g := fun s o => do
      let s ← s.insertEvidenceRow
        ⟨evidenceId o.2, taskId, scope, observation, digest, .current, o.1⟩
      .ok (s.satisfyObligation o.1)) (fun o => ?_) _) fun _ => .ret _).of_eq fun s => ?_
  · refine (Script.Computes.bind (.write _ _ _) fun _ => .change _ _ _).of_eq fun s => ?_
    simp only [Script.map_eq_bind, bind_assoc, ok_bind]
  · simp only [TaskStore.insertEvidenceForTask, Script.map_eq_bind, bind_assoc, ok_bind,
      Close.rows]

/-- The transaction of a new task. -/
def newTask (taskId : TaskId) (criterionId : ℕ → String) (commandId : String)
    (params : CreateParams) (s : TaskStore) : Except StoreError (TaskStore × CommandResult) := do
  let s ← s.insertTask taskId criterionId params
  let s ← s.appendEvent params.sessionId (some taskId) (taskId.val, 1) "task.created"
    [("task_id", .string taskId.val), ("goal_digest", .digest params.goal)] "human"
  let result : CommandResult := ⟨"accepted", taskId, 1, 1, 1, some 1⟩
  let s ← s.recordReceipt commandId params result
  .ok (s, result)

theorem insertNewTask_computes (taskId : TaskId) (criterionId : ℕ → String) (commandId : String)
    (params : CreateParams) :
    (insertNewTask taskId criterionId commandId params).Computes
      (newTask taskId criterionId commandId params) := by
  refine (Script.Computes.transaction <| .bind (.write _ _ _) fun _ => .bind (.write _ _ _)
    fun _ => .bind (.read _ _ _) fun snapshot => .bind (.write _ _ _) fun _ => .ret _).of_eq
    fun s => ?_
  simp only [newTask, Script.map_eq_bind, bind_assoc, ok_bind, Close.rows]
  cases hinsert : s.insertTask taskId criterionId params with
  | error e => rfl
  | ok inserted =>
    obtain ⟨-, _, -, rfl⟩ := (TaskStore.insertTask_criteria criterionId params).of_ok hinsert
    rw [ok_bind, ok_bind]
    cases happend : TaskStore.appendEvent _ params.sessionId (some taskId) (taskId.val, 1)
        "task.created" [("task_id", .string taskId.val), ("goal_digest", .digest params.goal)]
        "human" with
    | error e => rfl
    | ok appended =>
      obtain ⟨_, rfl⟩ := (TaskStore.appendEvent_journals _ _ _ _ _ _).of_ok happend
      simp only [ok_bind, Function.update_self, found_some, created]

theorem createTask_computes (taskId : TaskId) (criterionId : ℕ → String) (commandId : String)
    (params : CreateParams) :
    (createTask taskId criterionId commandId params).Computes
      (·.createTask taskId criterionId commandId params) := by
  refine (Script.Computes.bind (.ofExcept _) fun _ => .bind (g := fun recorded s =>
      recorded.elim (newTask taskId criterionId commandId params s) fun row => do
        require (row.paramsDigest = params) (.conflict (.duplicateCommand commandId))
        .ok (s, row.result)) (.look _ _ _) fun recorded => ?_).of_eq fun s => ?_
  · cases recorded with
    | none => exact insertNewTask_computes taskId criterionId commandId params
    | some row =>
      refine (Script.Computes.bind (.ofExcept _) fun _ => .ret _).of_eq fun s => ?_
      simp only [Script.map_eq_bind, bind_assoc, ok_bind, Option.elim]
  · simp only [TaskStore.createTask, Script.map_eq_bind, bind_assoc, ok_bind]
    cases s.receipt commandId <;> rfl

theorem planFork_computes (sessionId : SessionId) (question : Question)
    (update : PlanRowUpdate) :
    (transaction .begin .commit .storage
      (planFork sessionId question update)).Computes fun s =>
        (s.publishPlanFork sessionId question update).map fun s' => (s', ()) := by
  have hrelease : ∀ taskId lifecycle, (releaseBlocked taskId lifecycle).Computes fun s =>
      .ok (if lifecycle = .blocked then s.releasePlanOwnedBlock taskId else s, ()) := by
    intro taskId lifecycle
    unfold releaseBlocked
    split
    · exact .change _ _ _
    · exact .ret ()
  refine (Script.Computes.transaction <| .bind (.read _ _ _) fun _ => .bind (.read _ _ _)
    fun task => .bind (hrelease _ _) fun _ => .bind (.write _ _ _) fun _ => .bind (.write _ _ _)
    fun _ => .bind (.write _ _ _) fun _ => .ret _).of_eq fun s => ?_
  simp only [TaskStore.publishPlanFork, Script.map_eq_bind, bind_assoc, ok_bind, Close.rows]

theorem publishPlanFork_computes (sessionId : SessionId) (question : Question)
    (update : PlanRowUpdate) :
    (publishPlanFork sessionId question update).Computes fun s => (do
      let s ← s.publishPlanFork sessionId question update
      let snapshot ← found (s.tasks question.taskId) (TaskStore.missingTask question.taskId)
      .ok (s, snapshot)) := by
  refine (Script.Computes.bind (planFork_computes sessionId question update) fun _ =>
    .read _ _ _).of_eq fun s => ?_
  simp only [Script.map_eq_bind, bind_assoc, ok_bind]

theorem beginSend_computes (scopes : List String) (context : SendContext)
    (manifest : RequestManifest) :
    (beginSend scopes context manifest).Computes (·.beginSend scopes context manifest) := by
  refine (Script.Computes.bind (.ofExcept _) fun storedBound => .transaction <|
      .bind (.look _ _ _) fun replayed => .bind (.ofExcept _) fun _ =>
      .bind (.look _ _ _) fun opened => .bind (.read _ _ _) fun _ => .bind (.write _ _ _) fun _ =>
      .bind (.statement _ _ _) fun rowid => .bind (.write _ _ _) fun _ => .ret _).of_eq fun l => ?_
  simp only [Ledger.beginSend, Script.map_eq_bind, bind_assoc, ok_bind, Close.rows]
  refine bind_congr fun storedBound => ?_
  by_cases hrow : l.settlementRow manifest.attemptId = none
  · simp only [hrow, require_pos, ok_bind, Option.isSome_none, Bool.false_eq_true, if_false]
  · rw [if_pos (Option.isSome_iff_ne_none.mpr hrow)]
    simp only [require_neg hrow, error_bind]

/-- The two ends of a recorded selection, each as one function. -/
def keptSelection (taskId : TaskId) (rows : List PlanRowWrite) (current : PlanSelectionRecord)
    (s : TaskStore) : Except StoreError (TaskStore × Close PlanSelectionRecord) :=
  if (s.resetRecoveredPlanRows taskId rows).2 then do
    let s ← (s.resetRecoveredPlanRows taskId rows).1.settlePlanState taskId
    .ok (s, .commit current)
  else .ok ((s.resetRecoveredPlanRows taskId rows).1, .drop current)

def replacedSelection (sessionId : SessionId) (taskId : TaskId) (selection : PlanSelectionWrite)
    (revision : ℕ) (s : TaskStore) : Except StoreError (TaskStore × Close PlanSelectionRecord) := do
  let s ← s.supersedeReplaced sessionId taskId revision
  let stored ← TaskStore.storedU64 revision
  let record : PlanSelectionRecord := ⟨stored, selection.factsDigest, selection.requestKind⟩
  require (selection.rows.map PlanRowWrite.capability).Nodup .storage
  let s ← ((s.setPlanSelection taskId record).setPlanRows taskId
    (selection.rows.map PlanRowWrite.row)).settlePlanState taskId
  .ok (s, .commit record)

theorem keepSelection_computes (taskId : TaskId) (rows : List PlanRowWrite)
    (current : PlanSelectionRecord) :
    (keepSelection taskId rows current).Computes (keptSelection taskId rows current) := by
  refine (Script.Computes.bind (g := fun reset s => if reset then do
      let s ← s.settlePlanState taskId
      .ok (s, .commit current) else .ok (s, .drop current))
    (.statement _ _ _) fun reset => ?_).of_eq fun s => ?_
  · cases reset with
    | false => exact .ret _
    | true =>
      refine (Script.Computes.bind (.write _ _ _) fun _ => .ret _).of_eq fun s => ?_
      simp only [Script.map_eq_bind, bind_assoc, ok_bind, if_true]
  · rw [ok_bind]
    rfl

theorem replaceSelection_computes (sessionId : SessionId) (taskId : TaskId)
    (selection : PlanSelectionWrite) (revision : ℕ) :
    (replaceSelection sessionId taskId selection revision).Computes
      (replacedSelection sessionId taskId selection revision) := by
  refine (Script.Computes.bind (.write _ _ _) fun _ => .bind (.ofExcept _) fun stored =>
    .bind (.change _ _ _) fun _ => .bind (.write _ _ _) fun _ => .bind (.write _ _ _) fun _ =>
    .ret _).of_eq fun s => ?_
  simp only [replacedSelection, Script.map_eq_bind, bind_assoc, ok_bind]

theorem recordPlanSelection_computes (sessionId : SessionId) (taskId : TaskId)
    (selection : PlanSelectionWrite) :
    (recordPlanSelection sessionId taskId selection).Computes
      (·.recordPlanSelection sessionId taskId selection) := by
  refine (Script.Computes.transaction <| .bind (.read _ _ _) fun _ => .bind (g := fun recorded s =>
      (recorded.filter (·.factsDigest = selection.factsDigest)).elim
        (replacedSelection sessionId taskId selection (recorded.elim 1 (·.revision + 1)) s)
        fun current => keptSelection taskId selection.rows current s)
    (.look _ _ _) fun recorded => ?_).of_eq fun s => ?_
  · cases recorded.filter (·.factsDigest = selection.factsDigest) with
    | none => exact replaceSelection_computes sessionId taskId selection _
    | some current => exact keepSelection_computes taskId selection.rows current
  · simp only [TaskStore.recordPlanSelection, Script.map_eq_bind, bind_assoc, ok_bind]
    refine bind_congr fun _ => ?_
    cases (s.planSelections taskId).filter (·.factsDigest = selection.factsDigest) with
    | none =>
      simp only [Option.elim, replacedSelection, bind_assoc, ok_bind, Close.rows]
    | some current =>
      simp only [Option.elim, keptSelection]
      split
      · simp only [bind_assoc, ok_bind, Close.rows]
      · rfl

theorem insertObligations_computes (taskId : TaskId) (obligationId : ℕ → String)
    (criteria : List (String × ℕ)) (s : TaskStore) :
    (insertObligations taskId obligationId criteria noFault s).2 =
        (TaskStore.insertObligations taskId obligationId s criteria).1 ∧
      (insertObligations taskId obligationId criteria noFault s).1.answer =
        (TaskStore.insertObligations taskId obligationId s criteria).2 := by
  induction criteria generalizing s with
  | nil => exact ⟨rfl, rfl⟩
  | cons criterion rest ih =>
    obtain ⟨criterionId, k⟩ := criterion
    unfold TaskStore.insertObligations insertObligations Script.each
    cases hinsert : s.insertObligation (obligationId k) taskId criterionId with
    | ok s' =>
      rw [Script.bind_of_done (Script.write_noFault hinsert _)]
      exact ih s'
    | error e =>
      rw [Script.bind_of_stopped (Script.write_refused hinsert _)]
      exact ⟨rfl, rfl⟩

/-- Statement by statement, with nothing failing, a mutator does what its function does at once. -/
theorem mutators_compute :
    (∀ a b c d, (createTask a b c d).Computes (·.createTask a b c d)) ∧
    (∀ a b c, (recordPlanSelection a b c).Computes (·.recordPlanSelection a b c)) ∧
    (∀ a b c, (beginSend a b c).Computes (·.beginSend a b c)) ∧
    (∀ a b c, (publishPlanFork a b c).Computes fun s => do
      let s ← s.publishPlanFork a b c
      let snapshot ← found (s.tasks b.taskId) (TaskStore.missingTask b.taskId)
      .ok (s, snapshot)) ∧
    (∀ a b c d e f, (insertEvidence a b c d e f).Computes fun s =>
      (s.insertEvidence a b c d e f).map fun s' => (s', a)) ∧
    (∀ a b c d e, (insertEvidenceForTask a b c d e).Computes fun s =>
      (s.insertEvidenceForTask a b c d e).map fun s' => (s', ())) ∧
    ∀ a b c s, (insertObligations a b c noFault s).2 = (s.insertObligations a b c).1 ∧
      (insertObligations a b c noFault s).1.answer = (s.insertObligations a b c).2 :=
  ⟨createTask_computes, recordPlanSelection_computes, beginSend_computes, publishPlanFork_computes,
    insertEvidence_computes, insertEvidenceForTask_computes, insertObligations_computes⟩

/-! ## Where a call fails -/

theorem insertObligations_stopped {taskId : TaskId} {obligationId : ℕ → String}
    {fails : Site → Bool} {site : Site} {criteria : List String} {k : ℕ} {s : TaskStore}
    (h : (insertObligations taskId obligationId (criteria.zipIdx k) fails s).1.failedAt =
      some site) :
    ∃ i, site = .insertObligation (k + i) ∧
      (insertObligations taskId obligationId (criteria.zipIdx k) fails s).2.obligations.length =
        s.obligations.length + i ∧
      (i = 0 → (insertObligations taskId obligationId (criteria.zipIdx k) fails s).2 = s) := by
  induction criteria generalizing k s with
  | nil => cases h
  | cons criterion rest ih =>
    rw [zipIdx_cons] at h ⊢
    unfold insertObligations Script.each at h ⊢
    rcases Script.bind_stopped h with ⟨hsite, hrows⟩ | ⟨_, s', hinserted, hrun⟩
    · have hquiet := (Script.Atomic.write _ _ _).rows hsite
      rw [hrows, hquiet]
      have := Script.Sites.write (S := (· = Site.insertObligation k)) rfl _ _ _ _ _ hsite
      exact ⟨0, this, rfl, fun _ => rfl⟩
    · rw [hrun] at h ⊢
      obtain ⟨i, hsite, hlength, -⟩ := ih h
      obtain ⟨_, -, hlast⟩ := bind_eq_ok (Script.write_done hinserted)
      cases hlast
      refine ⟨i + 1, ?_, ?_, nofun⟩
      · rw [hsite, Nat.add_right_comm, Nat.add_assoc]
      · refine hlength.trans ?_
        rw [length_append, length_singleton, Nat.add_right_comm, Nat.add_assoc]

theorem materializeObligations_stopped {taskId : TaskId} {obligationId : ℕ → String}
    {fails : Site → Bool} {site : Site} {s : TaskStore}
    (h : (materializeObligations taskId obligationId fails s).1.failedAt = some site) :
    let s' := (materializeObligations taskId obligationId fails s).2
    site = .missingObligations ∧ s' = s ∨
      ∃ position, site = .insertObligation position ∧
        s'.obligations.length = s.obligations.length + position ∧ (position = 0 → s' = s) := by
  unfold materializeObligations at h ⊢
  rcases Script.bind_stopped h with ⟨hsite, hrows⟩ | ⟨missing, s1, hread, hrun⟩
  · exact .inl ⟨Script.Sites.look (S := (· = Site.missingObligations)) rfl _ _ _ _ _ hsite,
      hrows.trans (Script.Quiet.look _ _ _ _ _)⟩
  · obtain ⟨rfl, -⟩ := Script.look_done hread
    rw [hrun] at h ⊢
    obtain ⟨i, hsite, hlength, hfirst⟩ := insertObligations_stopped h
    rw [Nat.zero_add] at hsite
    exact .inr ⟨i, hsite, hlength, hfirst⟩

theorem insertEvidence_stopped {evidenceId : String} {taskId : TaskId} {obligationIndex : ℕ}
    {scope observation digest : String} {fails : Site → Bool} {site : Site} {s : TaskStore}
    (h : (insertEvidence evidenceId taskId obligationIndex scope observation digest fails
      s).1.failedAt = some site) :
    let s' := (insertEvidence evidenceId taskId obligationIndex scope observation digest fails s).2
    (site = .obligationAtOffset ∨ site = .insertEvidence 0) ∧ s' = s ∨
      site = .satisfyObligation 0 ∧ s'.evidence.length = s.evidence.length + 1 := by
  unfold insertEvidence at h ⊢
  rcases Script.bind_stopped h with ⟨hsite, hrows⟩ | ⟨row, s1, hread, hrun⟩
  · exact .inl ⟨.inl (Script.Sites.look (S := (· = Site.obligationAtOffset)) rfl _ _ _ _ _ hsite),
      hrows.trans (Script.Quiet.look _ _ _ _ _)⟩
  obtain ⟨rfl, -⟩ := Script.look_done hread
  rw [hrun] at h ⊢
  rcases Script.bind_stopped h with ⟨hsite, -⟩ | ⟨o, s2, hfound, hrun⟩
  · exact (Script.Sites.ofExcept (S := fun _ => False) _ _ _ _ hsite).elim
  obtain ⟨rfl, -⟩ := Script.ofExcept_done hfound
  rw [hrun] at h ⊢
  rcases Script.bind_stopped h with ⟨hsite, hrows⟩ | ⟨_, s3, hinserted, hrun⟩
  · exact .inl ⟨.inr (Script.Sites.write (S := (· = Site.insertEvidence 0)) rfl _ _ _ _ _ hsite),
      hrows.trans ((Script.Atomic.write _ _ _).rows hsite)⟩
  rw [hrun] at h ⊢
  obtain ⟨_, -, hlast⟩ := bind_eq_ok (Script.write_done hinserted)
  cases hlast
  rcases Script.bind_stopped h with ⟨hsite, hrows⟩ | ⟨_, s4, -, hrun⟩
  · refine .inr ⟨Script.Sites.change (S := (· = Site.satisfyObligation 0)) rfl _ _ _ _ _ hsite, ?_⟩
    rw [hrows, (Script.Atomic.change _ _ _).rows hsite]
    exact length_append
  · rw [hrun] at h
    cases h

section

variable (sessionId : SessionId) (question : Question)
include sessionId question

theorem publishPlanFork_turns (update : PlanRowUpdate) (s : TaskStore) :
    Within TaskStore.Refuses (fun s' => s' ≠ s) (s.publishPlanFork sessionId question update) := by
  have hturns := (TaskStore.frame_turns question.taskId).publishPlanFork sessionId rfl (s := s)
    fun row _ => TaskStore.keepsRow_apply update.change row
  cases hrow : s.tasks question.taskId with
  | none =>
    unfold TaskStore.publishPlanFork TaskStore.checkPlanBinding TaskStore.requireOpenTask
    dsimp only
    rw [hrow]
    trivial
  | some row =>
    refine hturns.imp ?_
    rintro s' h rfl
    obtain ⟨row', hrow', -, hraised⟩ := h.own row hrow
    obtain rfl := Option.mem_unique hrow hrow'
    exact (hraised rfl).false

theorem planFork_honest (update : PlanRowUpdate) :
    Script.Honest (planFork sessionId question update) := by
  have hrelease : ∀ taskId lifecycle, Script.Honest (releaseBlocked taskId lifecycle) := by
    intro taskId lifecycle
    unfold releaseBlocked
    split
    · exact .change _ _ _
    · exact .ret ()
  exact .bind (.read _ _ _) fun _ => .bind (.read _ _ _) fun _ => .bind (hrelease _ _)
    fun _ => .bind (.write _ _ _) fun _ => .bind (.write _ _ _) fun _ =>
    .bind (.write _ _ _) fun _ => .ret _

theorem planFork_sites (update : PlanRowUpdate) :
    Script.Sites (· ≠ .snapshot) (planFork sessionId question update) := by
  have hrelease : ∀ taskId lifecycle,
      Script.Sites (· ≠ .snapshot) (releaseBlocked taskId lifecycle) := by
    intro taskId lifecycle
    unfold releaseBlocked
    split
    · exact .change nofun _ _
    · exact .ret ()
  exact .bind (.read nofun _ _) fun _ => .bind (.read nofun _ _) fun _ => .bind (hrelease _ _)
    fun _ => .bind (.write nofun _ _) fun _ => .bind (.write nofun _ _) fun _ =>
    .bind (.write nofun _ _) fun _ => .ret _

end

theorem publishPlanFork_stopped {sessionId : SessionId} {question : Question}
    {update : PlanRowUpdate} {fails : Site → Bool} {site : Site} {s : TaskStore}
    (h : (publishPlanFork sessionId question update fails s).1.failedAt = some site) :
    let s' := (publishPlanFork sessionId question update fails s).2
    site ≠ .snapshot ∧ s' = s ∨ site = .snapshot ∧ s' ≠ s := by
  have hatomic := Script.Atomic.transaction Site.begin .commit StoreError.storage
    (planFork sessionId question update)
  have hsites : Script.Sites (· ≠ Site.snapshot) (transaction .begin .commit
      StoreError.storage (planFork sessionId question update)) :=
    .transaction nofun nofun _ (planFork_sites sessionId question update)
  have hhonest : Script.Honest (transaction Site.begin .commit StoreError.storage
      (planFork sessionId question update)) :=
    .transaction (planFork_honest sessionId question update)
  unfold publishPlanFork at h ⊢
  rcases Script.bind_stopped h with ⟨hsite, hrows⟩ | ⟨_, s', hcommitted, hrun⟩
  · exact .inl ⟨hsites _ _ _ hsite, hrows.trans (hatomic.rows hsite)⟩
  · rw [hrun] at h ⊢
    refine .inr ⟨Script.Sites.read (S := (· = Site.snapshot)) rfl _ _ _ _ _ h, ?_⟩
    rw [(Script.Quiet.read _ _ _).atomic.rows h]
    have hcomputes := planFork_computes sessionId question update s
    rw [hhonest _ _ _ _ hcommitted] at hcomputes
    dsimp only at hcomputes
    cases hforked : s.publishPlanFork sessionId question update with
    | error e =>
      rw [hforked] at hcomputes
      cases hcomputes
    | ok forked =>
      rw [hforked] at hcomputes
      cases hcomputes
      exact (publishPlanFork_turns sessionId question update s).of_ok hforked

end Statements

/-! ## All or nothing -/

inductive Mutator where
  | openSession (call : OpenSession)
  | insertEvidence (evidenceId : String) (taskId : TaskId) (obligationIndex : ℕ)
      (scope observation digest : String)
  | insertEvidenceForTask (evidenceId : ℕ → String) (taskId : TaskId)
      (scope observation digest : String)
  | materializeObligations (taskId : TaskId) (obligationId : ℕ → String)
  | createTask (taskId : TaskId) (criterionId : ℕ → String) (commandId : String)
      (params : CreateParams)
  | publishPlanFork (sessionId : SessionId) (question : Question) (update : PlanRowUpdate)
  | recordPlanSelection (sessionId : SessionId) (taskId : TaskId) (selection : PlanSelectionWrite)
  | beginSend (scopes : List String) (context : SendContext) (manifest : RequestManifest)

namespace Mutator

/-- A call on the session tables, beside the others. -/
def onSessions {α : Type} (x : Script Site SessionTables StoreError α) :
    Script Site StoreTables StoreError Unit :=
  focus StoreTables.sessions (fun t d => { d with sessions := t }) x.void

def onTasks {α : Type} (x : Script Site TaskStore StoreError α) :
    Script Site StoreTables StoreError Unit :=
  focus StoreTables.tasks (fun s d => { d with tasks := s }) x.void

def onLedger {α : Type} (x : Script Site Ledger StoreError α) :
    Script Site StoreTables StoreError Unit :=
  focus StoreTables.ledger (fun l d => { d with ledger := l }) x.void

def script : Mutator → Script Site StoreTables StoreError Unit
  | .openSession call => onSessions call.openSession
  | .insertEvidence evidenceId taskId obligationIndex scope observation digest =>
    onTasks
      (Statements.insertEvidence evidenceId taskId obligationIndex scope observation digest)
  | .insertEvidenceForTask evidenceId taskId scope observation digest =>
    onTasks (Statements.insertEvidenceForTask evidenceId taskId scope observation digest)
  | .materializeObligations taskId obligationId =>
    onTasks (Statements.materializeObligations taskId obligationId)
  | .createTask taskId criterionId commandId params =>
    onTasks (Statements.createTask taskId criterionId commandId params)
  | .publishPlanFork sessionId question update =>
    onTasks (Statements.publishPlanFork sessionId question update)
  | .recordPlanSelection sessionId taskId selection =>
    onTasks (Statements.recordPlanSelection sessionId taskId selection)
  | .beginSend scopes context manifest =>
    onLedger (Statements.beginSend scopes context manifest)

/-- The statements of a call that stand after a committed write of it. -/
def Late : Mutator → Site → Prop
  | .openSession _, site => OpenSession.Late site
  | .insertEvidence .., site => site = .satisfyObligation 0
  | .materializeObligations .., .insertObligation position => 0 < position
  | .publishPlanFork .., site => site = .snapshot
  | _, _ => False

/-- A call that a failing statement ended reports it and left every table alone, and a session that
it did not open can be opened by a call under the same ids. -/
structure AllOrNothing (m : Mutator) (fails : Site → Bool) (d : StoreTables) : Prop where
  reported : ∃ e, (m.script fails d).1.answer = .error e
  untouched : (m.script fails d).2 = d
  retried : ∀ call, m = .openSession call → ∀ again : OpenSession,
    again.bootstrapId = call.bootstrapId → again.connectionId = call.connectionId →
    again.Anew d.sessions → ∃ t', again.openSession noFault (m.script fails d).2.sessions =
      (.done ⟨again.target, again.attachmentId, 1, false⟩, t') ∧ again.Opens d.sessions t'

theorem AllOrNothing.of_untouched {m : Mutator} {fails : Site → Bool} {d : StoreTables}
    {site : Site} (h : (m.script fails d).1.failedAt = some site)
    (huntouched : (m.script fails d).2 = d) : m.AllOrNothing fails d where
  reported := Outcome.answer_of_failedAt h
  untouched := huntouched
  retried := by
    intro call _ again _ _ hanew
    rw [huntouched]
    exact OpenSession.openSession_anew hanew

section Parts

variable {α : Type} {fails : Site → Bool} {d : StoreTables} {site : Site}

theorem onSessions_failedAt (x : Script Site SessionTables StoreError α) :
    (onSessions x fails d).1.failedAt = (x fails d.sessions).1.failedAt :=
  (Script.focus_failedAt _ _ _).trans (Script.void_failedAt x)

theorem onTasks_failedAt (x : Script Site TaskStore StoreError α) :
    (onTasks x fails d).1.failedAt = (x fails d.tasks).1.failedAt :=
  (Script.focus_failedAt _ _ _).trans (Script.void_failedAt x)

theorem onLedger_failedAt (x : Script Site Ledger StoreError α) :
    (onLedger x fails d).1.failedAt = (x fails d.ledger).1.failedAt :=
  (Script.focus_failedAt _ _ _).trans (Script.void_failedAt x)

theorem onSessions_untouched (x : Script Site SessionTables StoreError α) :
    (onSessions x fails d).2 = d ↔ (x fails d.sessions).2 = d.sessions := by
  unfold onSessions
  rw [Script.focus_rows, Script.void_rows]
  exact ⟨fun h => congrArg StoreTables.sessions h, fun h => by rw [h]⟩

theorem onTasks_untouched (x : Script Site TaskStore StoreError α) :
    (onTasks x fails d).2 = d ↔ (x fails d.tasks).2 = d.tasks := by
  unfold onTasks
  rw [Script.focus_rows, Script.void_rows]
  exact ⟨fun h => congrArg StoreTables.tasks h, fun h => by rw [h]⟩

theorem onLedger_untouched (x : Script Site Ledger StoreError α) :
    (onLedger x fails d).2 = d ↔ (x fails d.ledger).2 = d.ledger := by
  unfold onLedger
  rw [Script.focus_rows, Script.void_rows]
  exact ⟨fun h => congrArg StoreTables.ledger h, fun h => by rw [h]⟩

theorem onTasks_of_atomic {x : Script Site TaskStore StoreError α} (hatomic : x.Atomic)
    (h : (onTasks x fails d).1.failedAt = some site) : (onTasks x fails d).2 = d := by
  rw [onTasks_failedAt] at h
  exact (onTasks_untouched x).mpr (hatomic.rows h)

theorem onLedger_of_atomic {x : Script Site Ledger StoreError α} (hatomic : x.Atomic)
    (h : (onLedger x fails d).1.failedAt = some site) : (onLedger x fails d).2 = d := by
  rw [onLedger_failedAt] at h
  exact (onLedger_untouched x).mpr (hatomic.rows h)

end Parts

theorem createTask_atomic (taskId : TaskId) (criterionId : ℕ → String) (commandId : String)
    (params : CreateParams) :
    (Statements.createTask taskId criterionId commandId params).Atomic := by
  refine .bind_of_quiet (Script.Keeps.ofExcept _) fun _ =>
    .bind_of_quiet (Script.Quiet.look _ _ _) fun recorded => ?_
  cases recorded with
  | some row =>
    exact Script.Quiet.atomic (.bind (.ofExcept _) fun _ => .ret _)
  | none => exact .transaction _ _ _ _

theorem beginSend_atomic (scopes : List String) (context : SendContext)
    (manifest : RequestManifest) : (Statements.beginSend scopes context manifest).Atomic :=
  .bind_of_quiet (Script.Keeps.ofExcept _) fun _ => .transaction _ _ _ _

/-- A call that a failing statement ends left a row exactly where the statement stands late. -/
theorem untouched_iff {m : Mutator} {fails : Site → Bool} {d : StoreTables} {site : Site}
    (h : (m.script fails d).1.failedAt = some site) :
    (m.script fails d).2 = d ↔ ¬ m.Late site := by
  cases m with
  | openSession call =>
    rw [script, onSessions_untouched]
    rw [script, onSessions_failedAt] at h
    rcases call.openSession_stopped h with ⟨hearly, hrows⟩ | ⟨hlate, sessionId, hattachments⟩
    · exact iff_of_true hrows hearly
    · refine iff_of_false (fun hrows => ?_) (not_not_intro hlate)
      rw [hrows] at hattachments
      exact cons_ne_nil _ _ (self_eq_append_right.mp hattachments)
  | insertEvidence evidenceId taskId obligationIndex scope observation digest =>
    rw [script, onTasks_untouched]
    rw [script, onTasks_failedAt] at h
    rcases Statements.insertEvidence_stopped h with ⟨hearly, hrows⟩ | ⟨hlate, hlength⟩
    · refine iff_of_true hrows fun hlate => ?_
      rw [hlate] at hearly
      rcases hearly with hearly | hearly <;> cases hearly
    · refine iff_of_false (fun hrows => ?_) (not_not_intro hlate)
      rw [hrows] at hlength
      exact Nat.ne_add_one _ hlength
  | insertEvidenceForTask evidenceId taskId scope observation digest =>
    exact iff_of_true (onTasks_of_atomic (.transaction _ _ _ _) h) id
  | materializeObligations taskId obligationId =>
    rw [script, onTasks_untouched]
    rw [script, onTasks_failedAt] at h
    rcases Statements.materializeObligations_stopped h with
      ⟨rfl, hrows⟩ | ⟨position, rfl, hlength, hfirst⟩
    · exact iff_of_true hrows id
    · refine ⟨fun hrows hlate => ?_, fun hearly => hfirst (Nat.eq_zero_of_not_pos hearly)⟩
      rw [hrows] at hlength
      exact hlate.ne (Nat.left_eq_add.mp hlength).symm
  | createTask taskId criterionId commandId params =>
    exact iff_of_true (onTasks_of_atomic (createTask_atomic _ _ _ _) h) id
  | publishPlanFork sessionId question update =>
    rw [script, onTasks_untouched]
    rw [script, onTasks_failedAt] at h
    rcases Statements.publishPlanFork_stopped h with ⟨hearly, hrows⟩ | ⟨hlate, hturned⟩
    · exact iff_of_true hrows hearly
    · exact iff_of_false hturned (not_not_intro hlate)
  | recordPlanSelection sessionId taskId selection =>
    exact iff_of_true (onTasks_of_atomic (.transaction _ _ _ _) h) id
  | beginSend scopes context manifest =>
    exact iff_of_true (onLedger_of_atomic (beginSend_atomic _ _ _) h) id

theorem stopped_allOrNothing {m : Mutator} {fails : Site → Bool} {d : StoreTables} {site : Site}
    (h : (m.script fails d).1.failedAt = some site) :
    m.AllOrNothing fails d ↔ ¬ m.Late site :=
  ⟨fun hall => (untouched_iff h).mp hall.untouched,
    fun hlate => .of_untouched h ((untouched_iff h).mpr hlate)⟩

/-- A new session for a connection that no session holds. -/
def firstSession : OpenSession :=
  ⟨⟨"session-1"⟩, ⟨"attachment-1"⟩, "bootstrap-1", "connection-1", none⟩

theorem attachment_stops_clean :
    (Mutator.openSession firstSession).AllOrNothing (· = .insertAttachment) .fresh :=
  have h : ((Mutator.openSession firstSession).script (· = .insertAttachment) .fresh).1.failedAt =
      some .insertAttachment := by rfl
  (stopped_allOrNothing h).mpr id

/-- The session row fails after its attachment is committed. -/
theorem session_leaves_attachment :
    ¬ ∀ (m : Mutator) (fails : Site → Bool) (d : StoreTables) (site : Site),
      (m.script fails d).1.failedAt = some site → m.AllOrNothing fails d := by
  intro h
  have huntouched := (h (.openSession firstSession) (· = .insertSession) .fresh .insertSession
    (by rfl)).untouched
  exact cons_ne_nil _ _ (congrArg (·.sessions.attachments) huntouched)

end Mutator

end Rivect
