import Rivect.TaskStore.Journal

/-! # Every call keeps the outbox

What each call leaves of the rows and of the outbox, from a state whose outbox is consistent.
-/

namespace Rivect.TaskStore

open Lib TaskView
open Within (map_fst ok_iff)

variable {s s' s'' : TaskStore} {taskId : TaskId} {ids : Ids} {n : ℕ}
  {left : Option (TaskId × Lifecycle)}

/-- The ids that a call brings with it are of their kind. -/
def Op.Named (ids : Ids) : Op → Prop
  | .createTask taskId _ _ _ => ids.task taskId.val
  | .publishQuestion _ question => ids.question question.questionId.val
  | .publishPlanFork _ question _ => ids.question question.questionId.val
  | _ => True

/-- What a call leaves to the plan's settlement after its event: its task, and the lifecycle that
the call gave it. -/
def Op.unsettled (s : TaskStore) : Op → Option (TaskId × Lifecycle)
  | .answerQuestion _ taskId .. => some (taskId, .running)
  | .steerTask _ taskId .. => (s.tasks taskId).map fun task =>
    (taskId, if task.lifecycle = .waiting ∨ task.lifecycle = .paused then .running
      else task.lifecycle)
  | _ => none

/-! ## Creation -/

theorem insertTask_keeps (h : Journaled ids [] s) (htask : ids.task taskId.val)
    (criterionId : ℕ → String) (params : CreateParams) :
    Within Appends (fun s' => s.tasks taskId = none ∧ Keeps ids 0 s s' ∧
        ∃ row, s'.tasks taskId = some row ∧ row.revision = 1)
      (s.insertTask taskId criterionId params) := by
  apply guard_appends (by simp)
  intro habsent
  have hother : ∀ t row, s.tasks t = some row → t ≠ taskId := by
    rintro t row hrow rfl
    simp [habsent] at hrow
  apply Within.foldlM (I := fun _ (s' : TaskStore) => s.tasks taskId = none ∧ Keeps ids 0 s s' ∧
    ∃ row, s'.tasks taskId = some row ∧ row.revision = 1)
  · rintro seen text s' - ⟨-, hs', row, hrow⟩
    apply guard_appends (by simp)
    intro _
    exact ⟨habsent, hs'.trans (n := 0) (.of_tables hs'.journaled rfl rfl rfl rfl), row, hrow⟩
  · refine ⟨habsent, ?_, _, Function.update_self .., rfl⟩
    have hev := insertTaskRow_evolves habsent params
    refine ⟨⟨?_, h.questions, h.cursors, h.ordered, fun e he => (h.names e he).mono hev, h.reported,
      by simp⟩, hev, ?_, fun e he => .inl he⟩
    · intro t row hrow
      by_cases ht : t = taskId
      · rw [ht]
        exact htask
      · exact h.tasks t row (by simpa [Function.update_of_ne ht] using hrow)
    · intro t row row' hrow hrow'
      have hsame : s.tasks t = some row' := by
        simpa [Function.update_of_ne (hother t row hrow)] using hrow'
      obtain rfl := Option.mem_unique hrow hsame
      exact le_rfl

theorem createTask_commits (h : Journaled ids [] s) (htask : ids.task taskId.val)
    (criterionId : ℕ → String) (commandId : String) (params : CreateParams) :
    Within Appends (fun r => Commits ids none s r.1)
      (s.createTask taskId criterionId commandId params) := by
  apply guard_appends (by simp)
  intro _
  split
  · apply guard_appends (by simp)
    intro _
    exact (Keeps.refl (n := 0) h).commits
  · apply Within.bind (insertTask_keeps h htask criterionId params)
    rintro s1 ⟨habsent, h1, row, hrow, hone⟩
    rw [← hone]
    apply Within.bind (appendTaskEvent_commits h htask h1 hrow (by simp [habsent]) _ _
      (by decide) _ _)
    intro s2 h2
    unfold recordReceipt
    rw [bind_assoc]
    apply guard_appends (by simp)
    intro _
    exact h2.then_keeps (.of_tables h2.journaled rfl rfl rfl rfl)

/-! ## Questions -/

theorem nextRevision_keeps {row : TaskRow} (h : Journaled ids [] s)
    (hrow : s.tasks taskId = some row) (hlive : row.lifecycle ≠ .cancelled) {f : TaskRow → TaskRow}
    (hsession : (f row).sessionId = row.sessionId) (hrevision : (f row).revision = row.revision + 1)
    (hintent : row.intentRevision ≤ (f row).intentRevision) :
    Keeps ids 1 s (s.updateTask taskId f) ∧ (s.updateTask taskId f).tasks taskId = some (f row) := by
  refine ⟨Keeps.updateTask h (nextRevision_later hrow hlive hsession hrevision hintent) ?_,
    updateTask_task hrow f⟩
  intro row' hrow'
  obtain rfl := Option.mem_unique hrow hrow'
  exact hrevision.le

theorem lt_nextRevision {row : TaskRow} (h : s.tasks taskId = some row) :
    ∀ last, s.tasks taskId = some last → last.revision < row.revision + 1 := by
  intro last hlast
  obtain rfl := Option.mem_unique h hlast
  exact Nat.lt_succ_self _

theorem moveTask_row {row : TaskRow} (h : s.tasks taskId = some row) {source : Lifecycle → Bool}
    (hsource : source row.lifecycle = true) {lifecycle : Lifecycle} :
    (s.moveTask taskId source lifecycle).tasks taskId = some { row with
      revision := row.revision + 1
      lifecycle := lifecycle
      eventCursor := row.eventCursor + 1 } := by
  rw [moveTask, updateTask_task h, if_pos hsource]

theorem Journals.row {row : TaskRow} (h : Journals s s') (hrow : s.tasks taskId = some row) :
    s'.tasks taskId = some row := by
  obtain ⟨_, rfl⟩ := h
  exact hrow

/-- What the plan's settlement does to the tasks: its own stays as it is, or moves to its next
revision. -/
def Settled (taskId : TaskId) (row : TaskRow) (s s' : TaskStore) : Prop :=
  (∀ t ≠ taskId, s'.tasks t = s.tasks t) ∧ ∃ row', s'.tasks taskId = some row' ∧
    row'.revision = row.revision + settled (some (taskId, row.lifecycle)) taskId row'

theorem moveTask_settled {row : TaskRow} (h : s.tasks taskId = some row)
    {source : Lifecycle → Bool} (hsource : source row.lifecycle = true) {lifecycle : Lifecycle}
    (hmoves : row.lifecycle ≠ lifecycle) :
    Settled taskId row s (s.moveTask taskId source lifecycle) :=
  ⟨fun _ ht => updateTask_tasks_of_ne _ ht, _, moveTask_row h hsource, by simp [settled, hmoves]⟩

theorem settlePlanLifecycle_settled {row : TaskRow} (h : s.tasks taskId = some row) :
    Within Appends (Settled taskId row s) (s.settlePlanLifecycle taskId) := by
  have hstays : Settled taskId row s s := ⟨fun _ _ => rfl, row, h, by simp [settled]⟩
  unfold settlePlanLifecycle releasePlanOwnedBlock
  rw [h, found_some, ok_bind, ok_iff]
  split
  · next hrunning =>
    split
    · exact @moveTask_settled _ _ _ h (· = .running) (by simp [hrunning]) _ (by simp [hrunning])
    · exact hstays
  · next hblocked =>
    split
    · exact hstays
    · split
      · exact @moveTask_settled _ _ _ h (· = .blocked) (by simp [hblocked]) _
          (by simp [hblocked])
      · exact hstays
  all_goals exact hstays

theorem Commits.then_settles (h : Commits ids none s s') {row : TaskRow}
    (hrow : s'.tasks taskId = some row) :
    Within Appends (Commits ids (some (taskId, row.lifecycle)) s)
      (s'.settlePlanLifecycle taskId) := by
  apply ((settlePlanLifecycle_keeps h.journaled).and (settlePlanLifecycle_settled hrow)).imp
  rintro s'' ⟨h', hother, row', hrow', hrevision⟩
  refine ⟨h'.journaled, h.evolves.trans h'.quiet.toEvolves, fun e he => ?_⟩
  rcases h'.quiet.quiet e he with he | he
  · rcases h.carried e he with he | he | ⟨t, row1, hid, hrow1, hrevision1⟩
    · exact .inl he
    · exact .inr (.inl he)
    · by_cases ht : t = taskId
      · obtain rfl := ht
        obtain rfl := Option.mem_unique hrow hrow1
        exact .inr (.inr ⟨t, row', hid, hrow', hrevision.trans (by rw [hrevision1]; rfl)⟩)
      · refine .inr (.inr ⟨t, row1, hid, by rw [hother t ht, hrow1], ?_⟩)
        rw [hrevision1]
        simp [settled, Ne.symm ht]
  · exact .inr (.inl he)

theorem insertQuestion_commits (h : Journaled ids [] s) (sessionId : SessionId)
    {question : Question} (hid : ids.question question.questionId.val) :
    Within Appends (Commits ids none s) (s.insertQuestion sessionId question) := by
  apply look_appends (by simp [missingTask])
  intro task htask
  apply guard_appends (by simp)
  intro hlifecycle
  apply guard_appends (by simp)
  intro _
  apply Within.bind (supersedePendingQuestions_keeps h _ _ _)
  rintro s1 ⟨h1, ht1⟩
  apply guard_appends (by simp)
  intro _
  apply Within.bind (insertQuestionRow_keeps h1.journaled hid)
  rintro s2 ⟨h2, ht2⟩
  have hrow2 : s2.tasks question.taskId = some task := by rw [ht2, ht1, htask]
  have hlive : task.lifecycle ≠ .cancelled := by
    rintro hc
    simp [hc] at hlifecycle
  obtain ⟨h3, hrow3⟩ := nextRevision_keeps (f := fun r => { r with
    revision := task.revision + 1
    lifecycle := .waiting
    eventCursor := r.eventCursor + 1 }) h2.journaled hrow2 hlive rfl rfl le_rfl
  exact appendTaskEvent_commits h (h.tasks _ _ htask) ((h1.trans h2).trans h3) hrow3
    (lt_nextRevision htask) _ _ (by decide) _ _

theorem requireOpenTask_appends : Within Appends (fun _ => True) (s.requireOpenTask taskId) := by
  apply look_appends (by simp [missingTask])
  intro _ _
  exact (Within.require fun _ => by simp).imp fun _ _ => trivial

theorem checkPlanBinding_appends (selectionRevision : ℕ) (factsDigest : String) :
    Within Appends (fun _ => True)
      (s.checkPlanBinding taskId selectionRevision factsDigest) := by
  apply Within.bind requireOpenTask_appends
  intro _ _
  apply look_appends (by simp)
  intro _ _
  exact (Within.require fun _ => by simp).imp fun _ _ => trivial

theorem applyPlanRowChange_keeps (h : Journaled ids [] s) (capability handler : String)
    (change : PlanRowChange) :
    Within Appends (Keeps ids 0 s) (s.applyPlanRowChange taskId capability handler change) := by
  apply look_appends (by simp)
  intro _ _
  apply guard_appends (by simp)
  intro _
  apply guard_appends (by simp)
  intro _
  exact .of_tables h rfl rfl rfl rfl

theorem settlePlanState_keeps_waiting (h : Journaled ids [] s)
    (hl : s.lifecycleOf taskId = some .waiting) :
    Within Appends (Keeps ids 0 s) (s.settlePlanState taskId) := by
  obtain ⟨ht, hq, he, hr⟩ := settlePlanGateHold_tables s taskId
  obtain ⟨task, htask, hwaiting⟩ := lifecycleOf_eq_some.mp hl
  unfold settlePlanState settlePlanLifecycle
  rw [ht, htask, found_some, ok_bind, hwaiting]
  exact .of_tables h ht hq he hr

theorem publishPlanFork_commits (h : Journaled ids [] s) (sessionId : SessionId)
    {question : Question} (hid : ids.question question.questionId.val) (update : PlanRowUpdate) :
    Within Appends (Commits ids none s) (s.publishPlanFork sessionId question update) := by
  apply Within.bind (checkPlanBinding_appends _ _)
  intro _ _
  apply look_appends (by simp)
  intro task _
  have hrelease : Keeps ids 1 s
      (if task.lifecycle = .blocked then s.releasePlanOwnedBlock question.taskId else s) := by
    split
    · exact releasePlanOwnedBlock_keeps h
    · exact .refl h
  apply Within.bind (applyPlanRowChange_keeps hrelease.journaled _ _ _)
  intro s1 h1
  apply Within.bind ((insertQuestion_commits h1.journaled sessionId hid).and
    (insertQuestion_changes sessionId question))
  rintro s2 ⟨h2, -, q, hpub⟩
  have hwaiting : s2.lifecycleOf question.taskId = some .waiting := congrArg lifecycle hpub.2.2
  apply (settlePlanState_keeps_waiting h2.journaled hwaiting).imp
  intro s' hs'
  exact (hrelease.trans h1).then_commits (h2.then_keeps hs')

theorem checkAnswer_appends (question : Question) (questionId : QuestionId)
    (selection : AnswerSelection) :
    Within Appends (fun _ => True) (checkAnswer question questionId selection) := by
  unfold checkAnswer
  split
  · split
    · exact fun h => by cases h
    · split
      · exact fun h => by cases h
      · trivial
  · exact (Within.require fun _ => by simp).imp fun _ _ => trivial

theorem result_appends (status : String) (intentRevision : ℕ) :
    Within Appends (fun _ => True) (s.result status taskId intentRevision) := by
  apply look_appends (by simp [missingTask])
  intro _ _
  trivial

theorem retainAnsweredPlanFork_keeps (h : Journaled ids [] s) (taskId : TaskId)
    (questionId : QuestionId) (questionRevision : ℕ) :
    Keeps ids 0 s (s.retainAnsweredPlanFork taskId questionId questionRevision) := by
  obtain ⟨ht, hq, he, hr⟩ := retainAnsweredPlanFork_tables s taskId questionId questionRevision
  exact .of_tables h ht hq he hr

theorem answerQuestionCommit_commits (h : Journaled ids [] s) (sessionId : SessionId)
    (questionId : QuestionId) (questionRevision : ℕ) (selection : AnswerSelection)
    (author : String) :
    Within Appends (fun r => Commits ids (some (taskId, .running)) s r.1)
      (s.answerQuestionCommit sessionId taskId questionId questionRevision selection author) := by
  apply look_appends (by simp [missingTask])
  intro task htask
  apply guard_appends (by simp)
  intro hlive
  apply look_appends (by simp)
  intro q hq
  apply guard_appends (by split <;> simp)
  intro hpending
  apply guard_appends (by simp)
  intro _
  apply guard_appends (by simp)
  intro _
  apply Within.bind (checkAnswer_appends _ _ _)
  intro _ _
  have h1 := setAnswer_keeps h hq hpending selection author
  obtain ⟨h2, hrow2⟩ := nextRevision_keeps (f := fun r => { r with
    revision := task.revision + 1
    lifecycle := .running
    eventCursor := r.eventCursor + 1 }) h1.journaled htask (not_cancelled hlive) rfl rfl le_rfl
  apply Within.bind ((appendTaskEvent_commits h (h.tasks _ _ htask) (h1.trans h2) hrow2
    (lt_nextRevision htask) _ _ (by decide) _ _).and (appendEvent_journals _ _ _ _ _ _))
  rintro s3 ⟨h3, hjournals⟩
  have h4 : Commits ids none s (s3.insertAnswerAttempt
      ⟨questionId, taskId, questionRevision, .selection selection, author, .applied, none⟩) :=
    h3.then_keeps (.of_tables h3.journaled rfl rfl rfl rfl)
  have h5 := h4.then_keeps (retainAnsweredPlanFork_keeps h4.journaled taskId questionId
    questionRevision)
  apply Within.bind (h5.then_settles ((congrFun (retainAnsweredPlanFork_tables ..).1 taskId).trans
    (hjournals.row hrow2)))
  intro s6 h6
  apply Within.bind (result_appends _ _)
  intro _ _
  exact h6

theorem answerQuestion_commits (h : Journaled ids [] s) (sessionId : SessionId)
    (taskId : TaskId) (questionId : QuestionId) (questionRevision : ℕ) (selection : AnswerSelection)
    (author : String) :
    Commits ids (some (taskId, .running)) s
        (s.answerQuestion sessionId taskId questionId questionRevision selection author).1 ∧
      (s.answerQuestion sessionId taskId questionId questionRevision selection author).2 ≠
        .error .eventExists := by
  have hw : Within Appends (fun r => Commits ids (some (taskId, .running)) s r.1)
      (s.answerQuestionCommit sessionId taskId questionId questionRevision selection author) :=
    answerQuestionCommit_commits h _ _ _ _ _
  unfold answerQuestion
  split
  · next s' result hok =>
    rw [hok] at hw
    exact ⟨hw, by simp⟩
  · next e herr =>
    rw [herr] at hw
    have hdenied : Keeps ids 0 s (s.recordDeniedAttempt taskId questionId questionRevision
        (.selection selection) author (denialClass e)) := .of_tables h rfl rfl rfl rfl
    refine ⟨hdenied.commits, ?_⟩
    simpa only [ne_eq, Except.error.injEq] using hw.of_error rfl

/-! ## Pausing, steering and ending a task -/

section

variable (h : Journaled ids [] s)
include h

theorem pauseForWorkflowOff_commits (sessionId : SessionId) :
    Within Appends (fun r => Commits ids none s r.1) (s.pauseForWorkflowOff sessionId taskId) := by
  apply look_appends (by simp [missingTask])
  intro task htask
  split
  · next hl =>
    apply Within.bind (appendTaskEvent_commits h (h.tasks _ _ htask)
      (moveTask_keeps h taskId (fun l => l = .running ∨ l = .waiting) .paused rfl)
      (moveTask_row htask (by simpa using hl)) (lt_nextRevision htask) _ _ (by decide) _ _)
    intro s' hs'
    exact hs'
  · exact (Keeps.refl (n := 0) h).commits

theorem steerTask_commits (sessionId : SessionId) (intent revision : ℕ)
    (instruction : String) :
    Within Appends (fun r => Commits ids
        ((Op.steerTask sessionId taskId intent revision instruction).unsettled s) s r.1)
      (s.steerTask sessionId taskId intent revision instruction) := by
  apply look_appends (by simp [missingTask])
  intro task htask
  apply guard_appends (by simp)
  intro hlive
  apply guard_appends (by simp)
  intro _
  apply guard_appends (by simp)
  intro _
  obtain ⟨h1, hrow1⟩ := nextRevision_keeps (f := fun r => { r with
    revision := task.revision + 1
    intentRevision := task.intentRevision + 1
    eventCursor := r.eventCursor + 1 }) h htask (not_cancelled hlive) rfl rfl (Nat.le_succ _)
  apply Within.bind (supersedePendingQuestions_keeps h1.journaled _ _ _)
  rintro s2 ⟨h2, ht2⟩
  have h3 := flipTask_keeps h2.journaled taskId .waiting .running (by simp) (by simp)
  obtain ⟨row, hrow, hrevision, hlifecycle⟩ : ∃ row, (s2.supersessionResumesTask taskId).tasks
      taskId = some row ∧ row.revision = task.revision + 1 ∧
      row.lifecycle = if task.lifecycle = .waiting then .running else task.lifecycle := by
    refine ⟨_, updateTask_task (by rw [ht2]; exact hrow1) _, ?_⟩
    split <;> simp_all
  rw [← hrevision]
  apply Within.bind ((appendTaskEvent_commits h (h.tasks _ _ htask) ((h1.trans h2).trans h3) hrow
    (by rw [hrevision]; exact lt_nextRevision htask) _ _ (by decide) _ _).and
    (appendEvent_journals _ _ _ _ _ _))
  rintro s4 ⟨h4, hjournals⟩
  have h5 := h4.then_keeps (flipTask_keeps h4.journaled taskId .paused .running (by simp) (by simp))
  have hrow5 := updateTask_task (hjournals.row hrow) fun r =>
    if r.lifecycle = .paused then { r with lifecycle := .running } else r
  have hleft : (Op.steerTask sessionId taskId intent revision instruction).unsettled s =
      some (taskId, (if row.lifecycle = .paused then { row with lifecycle := .running }
        else row).lifecycle) := by
    simp only [Op.unsettled, htask, Option.map_some]
    cases hl : task.lifecycle <;> simp [hlifecycle, hl]
  rw [hleft]
  apply Within.bind (h5.then_settles hrow5)
  intro s6 h6
  apply Within.bind (result_appends _ _)
  intro _ _
  exact h6

theorem endTask_keeps {row : TaskRow} (hrow : s.tasks taskId = some row)
    (hlive : row.lifecycle.isTerminal = false) (sessionId : SessionId) (lifecycle : Lifecycle)
    (origin : String) :
    Within Appends (fun s' => Keeps ids 1 s s' ∧ s'.tasks taskId = some { row with
        revision := row.revision + 1
        lifecycle := lifecycle
        eventCursor := row.eventCursor + 1 })
      ((s.endTask taskId lifecycle (row.revision + 1)).supersedeTerminalQuestions sessionId taskId
        lifecycle origin) := by
  obtain ⟨h1, hrow1⟩ := nextRevision_keeps (f := fun r => { r with
    revision := row.revision + 1
    lifecycle := lifecycle
    eventCursor := r.eventCursor + 1 }) h hrow (not_cancelled hlive) rfl rfl le_rfl
  apply (supersedeTerminalQuestions_keeps h1.journaled _ _ _).imp
  rintro s' ⟨h2, ht2⟩
  exact ⟨h1.trans h2, by rw [ht2]; exact hrow1⟩

theorem cancelTaskWithOrigin_commits (sessionId : SessionId)
    (intent : ℕ) (reason : Option String) (origin : String) :
    Within Appends (fun r => Commits ids none s r.1)
      (s.cancelTaskWithOrigin sessionId taskId intent reason origin) := by
  apply look_appends (by simp [missingTask])
  intro task htask
  apply guard_appends (by simp)
  intro _
  split
  · apply Within.bind (supersedeTerminalQuestions_keeps h _ _ _)
    rintro s1 ⟨h1, -⟩
    apply Within.bind (result_appends _ _)
    intro _ _
    exact h1.commits
  · next hlive =>
    apply Within.bind (endTask_keeps h htask (by simpa using hlive) _ _ _)
    rintro s1 ⟨h1, hrow1⟩
    apply Within.bind (appendTaskEvent_commits h (h.tasks _ _ htask) h1 hrow1
      (lt_nextRevision htask) _ _ (by decide) _ _)
    intro s2 h2
    apply Within.bind (result_appends _ _)
    intro _ _
    exact h2

theorem completeTask_commits (sessionId : SessionId) {task : TaskRow}
    (htask : s.tasks taskId = some task) (hlive : task.lifecycle.isTerminal = false) :
    Within Appends (Commits ids none s) (s.completeTask sessionId taskId task) := by
  apply guard_appends (by simp)
  intro _
  apply Within.bind (endTask_keeps h htask hlive _ _ _)
  rintro s1 ⟨h1, hrow1⟩
  exact appendTaskEvent_commits h (h.tasks _ _ htask) h1 hrow1 (lt_nextRevision htask) _ _
    (by decide) _ _

theorem completeIfEligible_commits (sessionId : SessionId) :
    Commits ids none s (s.completeIfEligible sessionId taskId).1 ∧
      (s.completeIfEligible sessionId taskId).2 ≠ .error .eventExists := by
  unfold completeIfEligible
  split
  · exact ⟨(Keeps.refl (n := 0) h).commits, by simp [missingTask]⟩
  · next task htask =>
    split
    · exact ⟨(Keeps.refl (n := 0) h).commits, by simp⟩
    · next hlive =>
      dsimp only
      split
      · exact ⟨(flipTask_keeps h taskId .running .waiting (by simp) (by simp)).commits, by simp⟩
      · have hw := completeTask_commits h sessionId htask (by simpa using hlive)
        split
        · next s' hok =>
          rw [hok] at hw
          exact ⟨hw, by simp⟩
        · next e herr =>
          rw [herr] at hw
          refine ⟨(Keeps.refl (n := 0) h).commits, ?_⟩
          simpa only [ne_eq, Except.error.injEq] using hw.of_error rfl

end

/-! ## Foreign blocks -/

section

variable (h : Journaled ids [] s)
include h

theorem blockForeign_keeps (ht : s'.tasks = s.tasks)
    (hq : s'.questions = s.questions) (he : s'.events = s.events) {source : Lifecycle → Bool}
    (hsource : source .cancelled = false) (hr : s'.rowids = s.rowids) :
    Keeps ids 1 s ((s'.moveTask taskId source .blocked).clearPlanBlock taskId) := by
  have h1 : Keeps ids 0 s s' := .of_tables h ht hq he hr
  have h2 := h1.trans (moveTask_keeps h1.journaled taskId source .blocked hsource)
  exact h2.trans (n := 0) (.of_tables h2.journaled rfl rfl rfl rfl)

theorem invalidateEvidence_keeps (evidenceId : String) :
    Within Appends (fun r => Keeps ids 1 s r.1) (s.invalidateEvidence evidenceId) := by
  apply look_appends (by simp)
  intro _ _
  apply look_appends (by simp)
  intro _ _
  exact blockForeign_keeps h (by rfl) (by rfl) (by rfl) (by rfl) (by rfl)

theorem markApplicabilityUnresolved_keeps (obligationId : String) :
    Within Appends (fun r => Keeps ids 1 s r.1) (s.markApplicabilityUnresolved obligationId) := by
  unfold markApplicabilityUnresolved
  split
  · exact .refl h
  · apply look_appends (by simp)
    intro _ _
    exact blockForeign_keeps h (by rfl) (by rfl) (by rfl) (by rfl) (by rfl)

end

/-! ## The plan writes -/

theorem settlePlanState_after_keeps (h : Keeps ids n s s') :
    Within Appends (Keeps ids (n + 1) s) (s'.settlePlanState taskId) :=
  (settlePlanState_keeps h.journaled).imp fun _ h' => h.trans h'

section

variable (h : Journaled ids [] s)
include h

theorem setPlanRows_keeps (rows : List PlanObligationRecord) :
    Keeps ids 0 s (s.setPlanRows taskId rows) := .of_tables h rfl rfl rfl rfl

theorem recordPlanSelection_keeps (sessionId : SessionId)
    (selection : PlanSelectionWrite) :
    Within Appends (fun r => Keeps ids 1 s r.1)
      (s.recordPlanSelection sessionId taskId selection) := by
  apply Within.bind requireOpenTask_appends
  intro _ _
  dsimp only
  split
  · unfold resetRecoveredPlanRows
    split
    · exact .refl h
    · dsimp only
      split
      · apply Within.bind (settlePlanState_after_keeps (setPlanRows_keeps h _))
        intro _ h'
        exact h'
      · exact .refl h
  · apply Within.bind (supersedeReplaced_keeps h _ _)
    intro s1 h1
    apply Within.bind (storedU64_appends _)
    rintro _ rfl
    apply guard_appends (by simp)
    intro _
    have h2 : Keeps ids 0 s1 (s1.setPlanSelection taskId
        ⟨(s.planSelections taskId).elim 1 (·.revision + 1), selection.factsDigest,
          selection.requestKind⟩) := .of_tables h1.journaled rfl rfl rfl rfl
    apply Within.bind (settlePlanState_after_keeps
      ((h1.trans h2).trans (setPlanRows_keeps h2.journaled _)))
    intro _ h'
    exact h'

theorem updatePlanRow_keeps (update : PlanRowUpdate) :
    Within Appends (Keeps ids 1 s) (s.updatePlanRow taskId update) := by
  apply Within.bind (checkPlanBinding_appends _ _)
  intro _ _
  apply Within.bind (applyPlanRowChange_keeps h _ _ _)
  exact fun _ h1 => settlePlanState_after_keeps h1

theorem recordPlanRevision_keeps (revision : PlanRevisionWrite) :
    Within Appends (fun r => Keeps ids 1 s r.1) (s.recordPlanRevision taskId revision) := by
  apply Within.bind (checkPlanBinding_appends _ _)
  intro _ _
  apply Within.bind (storedU64_appends _)
  rintro _ rfl
  have h1 : Keeps ids 0 s (s.setPlans taskId (s.plans taskId ++
      [⟨maxRevision (s.plans taskId) + 1, revision.selectionRevision, revision.body, none,
        none⟩])) := .of_tables h rfl rfl rfl rfl
  apply Within.bind (applyPlanRowChange_keeps h1.journaled _ _ _)
  intro s2 h2
  have h3 : Keeps ids 0 s2 (s2.reopenPlanRowsByHandler taskId revision.reopens) :=
    .of_tables h2.journaled rfl rfl rfl rfl
  apply Within.bind (settlePlanState_after_keeps ((h1.trans h2).trans h3))
  intro _ h'
  exact h'

theorem recordPlanAssessment_keeps (assessment : PlanAssessmentWrite) :
    Within Appends (Keeps ids 1 s) (s.recordPlanAssessment taskId assessment) := by
  apply Within.bind (checkPlanBinding_appends _ _)
  intro _ _
  apply Within.bind (storedU64_appends _)
  rintro _ rfl
  apply guard_appends (by simp)
  intro _
  apply Within.bind (P := Keeps ids 0 s)
  · apply Within.foldlM (I := fun _ (s' : TaskStore) => Keeps ids 0 s s')
    · intro seen change s' _ hs'
      exact (applyPlanRowChange_keeps hs'.journaled _ _ _).imp fun _ h' => hs'.trans h'
    · exact .of_tables h rfl rfl rfl rfl
  · exact fun _ h1 => settlePlanState_after_keeps h1

theorem holdForPlanGate_keeps (observed : PlanGateHold) :
    Within Appends (fun r => Keeps ids 1 s r.1) (s.holdForPlanGate taskId observed) := by
  apply Within.bind requireOpenTask_appends
  intro _ _
  have h1 : Keeps ids 0 s
      (if s.gateOn taskId ≠ .open then s.setPlanGateHold taskId (some observed) else s) := by
    split
    · exact .of_tables h rfl rfl rfl rfl
    · exact .refl h
  apply Within.bind (settlePlanState_after_keeps h1)
  intro _ h'
  exact h'

theorem markPlanApplicabilityUnresolved_keeps :
    Within Appends (Keeps ids 1 s) (s.markPlanApplicabilityUnresolved taskId) := by
  apply Within.bind requireOpenTask_appends
  intro _ _
  split
  · exact .refl h
  · exact settlePlanState_after_keeps (setPlanRows_keeps h _)

end

/-! ## Every call -/

/-- What a call leaves, and that no event of it found its place taken. -/
def Lands (ids : Ids) (left : Option (TaskId × Lifecycle)) (s : TaskStore)
    (r : TaskStore × Except StoreError Unit) : Prop :=
  Commits ids left s r.1 ∧ r.2 ≠ .error .eventExists

theorem commit_lands (h : Journaled ids [] s) {body : Except StoreError TaskStore}
    (hbody : Within Appends (Commits ids left s) body) :
    Lands ids left s (s.commit body) :=
  commit_appends (Keeps.refl (n := 0) h).commits hbody

theorem commit_keeps_lands (h : Journaled ids [] s) {body : Except StoreError TaskStore}
    (hbody : Within Appends (Keeps ids n s) body) : Lands ids left s (s.commit body) :=
  commit_lands h (hbody.imp fun _ h' => h'.commits)

/-- Every call keeps the outbox, whether it succeeds or fails. -/
theorem perform_lands (h : Journaled ids [] s) {op : Op} (hop : op.Named ids) :
    Lands ids (op.unsettled s) s (s.perform op) := by
  cases op with
  | createTask =>
    exact commit_lands h (map_fst (createTask_commits h hop _ _ _))
  | publishQuestion => exact commit_lands h (insertQuestion_commits h _ hop)
  | publishPlanFork => exact commit_lands h (publishPlanFork_commits h _ hop _)
  | answerQuestion sessionId taskId questionId questionRevision selection author =>
    obtain ⟨hcommits, herr⟩ := answerQuestion_commits h sessionId taskId questionId
      questionRevision selection author
    refine ⟨hcommits, ?_⟩
    simp only [perform]
    cases hr : (s.answerQuestion sessionId taskId questionId questionRevision selection author).2
    · rw [hr] at herr
      simpa [Except.map] using herr
    · simp [Except.map]
  | recordDeniedAttempt =>
    exact ⟨(Keeps.of_tables (n := 0) h (by rfl) (by rfl) (by rfl) (by rfl)).commits, by simp [perform]⟩
  | pauseForWorkflowOff =>
    exact commit_lands h (map_fst (pauseForWorkflowOff_commits h _))
  | steerTask => exact commit_lands h (map_fst (steerTask_commits h _ _ _ _))
  | cancelTask =>
    exact commit_lands h (map_fst (cancelTaskWithOrigin_commits h _ _ _ _))
  | invalidateEvidence =>
    exact commit_keeps_lands h (map_fst (invalidateEvidence_keeps h _))
  | markApplicabilityUnresolved =>
    exact commit_keeps_lands h (map_fst (markApplicabilityUnresolved_keeps h _))
  | markOutcomeUnknown =>
    exact ⟨(blockForeign_keeps h (by rfl) (by rfl) (by rfl) (by rfl) (by rfl)).commits, by simp [perform]⟩
  | markNoReady =>
    exact ⟨(blockForeign_keeps h (by rfl) (by rfl) (by rfl) (by rfl) (by rfl)).commits, by simp [perform]⟩
  | completeIfEligible => exact completeIfEligible_commits h _
  | recordPlanSelection =>
    exact commit_keeps_lands h (map_fst (recordPlanSelection_keeps h _ _))
  | updatePlanRow => exact commit_keeps_lands h (updatePlanRow_keeps h _)
  | recordPlanRevision =>
    exact commit_keeps_lands h (map_fst (recordPlanRevision_keeps h _))
  | recordPlanAssessment => exact commit_keeps_lands h (recordPlanAssessment_keeps h _)
  | holdForPlanGate =>
    exact commit_keeps_lands h (map_fst (holdForPlanGate_keeps h _))
  | markPlanApplicabilityUnresolved =>
    exact commit_keeps_lands h (markPlanApplicabilityUnresolved_keeps h)
  | _ =>
    exact ⟨(Keeps.of_records h (perform_records (by rfl)).1).commits, (perform_records (by rfl)).2⟩

end Rivect.TaskStore
