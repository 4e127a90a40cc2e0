import Rivect.TaskStore.Lifecycle

/-! # When an answer applies

The answer that the store commits: to a pending question of the task at its revision, pinned to
the live intent, with a selection that the question offers.
-/

namespace Rivect.TaskStore

open Lib TaskView

variable {s : TaskStore} {taskId : TaskId} {questionId : QuestionId} {questionRevision : ℕ}
  {selection : AnswerSelection}

def Answers (s : TaskStore) (taskId : TaskId) (questionId : QuestionId) (questionRevision : ℕ)
    (selection : AnswerSelection) : Prop :=
  ∃ task q, s.tasks taskId = some task ∧ task.lifecycle.isTerminal = false ∧
    s.questionById questionId taskId = some q ∧ q.state = .pending ∧
    q.revision = questionRevision ∧ q.body.intentRevision = task.intentRevision ∧
    checkAnswer q.body questionId selection = .ok () ∧
    s.HasRoom (taskId.val, task.revision + 1)

theorem appendEvent_ok {aggregate : String × ℕ} (h : s.HasRoom aggregate) (sessionId : SessionId)
    (task : Option TaskId) (eventType : String) (delta : List (String × Value))
    (origin : String) :
    ∃ s', s.appendEvent sessionId task aggregate eventType delta origin = .ok s' ∧
      Journals s s' := by
  unfold appendEvent
  rw [require_pos h, ok_bind, require_pos fun e he => cursor_ne_nextCursor he]
  exact ⟨_, rfl, _, rfl⟩

theorem appendEvent_hasRoom (sessionId : SessionId) (task : Option TaskId)
    (aggregate : String × ℕ) (eventType : String) (delta : List (String × Value))
    (origin : String) :
    Within Refuses (fun _ => s.HasRoom aggregate)
      (s.appendEvent sessionId task aggregate eventType delta origin) := by
  apply Within.guard
  intro hroom
  apply Within.skip
  exact fun _ => hroom

theorem updateTask_task {task : TaskRow} (h : s.tasks taskId = some task)
    (f : TaskRow → TaskRow) : (s.updateTask taskId f).tasks taskId = some (f task) := by
  simp [h]

theorem settlePlanLifecycle_ok {task : TaskRow} (h : s.tasks taskId = some task) :
    ∃ s' task', s.settlePlanLifecycle taskId = .ok s' ∧ s'.tasks taskId = some task' := by
  unfold settlePlanLifecycle
  rw [h, found_some, ok_bind]
  split
  · split
    · exact ⟨_, _, rfl, updateTask_task h _⟩
    · exact ⟨_, _, rfl, h⟩
  · split
    · exact ⟨_, _, rfl, h⟩
    · unfold releasePlanOwnedBlock
      split
      · exact ⟨_, _, rfl, updateTask_task h _⟩
      · exact ⟨_, _, rfl, h⟩
  all_goals exact ⟨_, _, rfl, h⟩

theorem settle_result_ok {task : TaskRow} (h : s.tasks taskId = some task) (status : String)
    (intentRevision : ℕ) :
    ∃ r, (do
      let s' ← s.settlePlanLifecycle taskId
      let result ← s'.result status taskId intentRevision
      .ok (s', result)) = .ok r := by
  obtain ⟨s', task', hs', htask'⟩ := settlePlanLifecycle_ok h
  rw [hs', ok_bind, result, htask']
  exact ⟨_, rfl⟩

theorem retainAnsweredPlanFork_tasks :
    (s.retainAnsweredPlanFork taskId questionId questionRevision).tasks = s.tasks := by
  unfold retainAnsweredPlanFork
  split
  · rfl
  · split <;> rfl

theorem answerQuestionCommit_ok_iff {sessionId : SessionId} {author : String} :
    (∃ r, s.answerQuestionCommit sessionId taskId questionId questionRevision selection author =
      .ok r) ↔ s.Answers taskId questionId questionRevision selection := by
  constructor
  · rintro ⟨r, h⟩
    have hw : Within Refuses
        (fun _ => s.Answers taskId questionId questionRevision selection)
        (s.answerQuestionCommit sessionId taskId questionId questionRevision selection
          author) := by
      apply Within.look
      intro task htask
      apply Within.guard
      intro hlive
      apply Within.look
      intro q hq
      apply Within.guard
      intro hpending
      apply Within.guard
      intro hrevision
      apply Within.guard
      intro hintent
      apply Within.bind (Within.of_forall (P := fun _ =>
        checkAnswer q.body questionId selection = .ok ()) fun _ h => h)
      intro _ hcheck
      apply Within.bind (appendEvent_hasRoom _ _ _ _ _ _)
      intro s1 hroom
      apply Within.of_forall
      exact fun _ _ =>
        ⟨task, q, htask, hlive, hq, hpending, hrevision, hintent, hcheck, hroom⟩
    exact hw.of_ok h
  · rintro ⟨task, q, htask, hlive, hq, hpending, hrevision, hintent, hcheck, hroom⟩
    unfold answerQuestionCommit
    rw [htask, found_some, ok_bind, require_pos hlive, ok_bind, hq, found_some, ok_bind,
      require_pos hpending, ok_bind, require_pos hrevision, ok_bind, require_pos hintent, ok_bind,
      hcheck, ok_bind]
    dsimp only
    obtain ⟨s1, hs1, hjournal⟩ := appendEvent_ok (s := (s.setAnswer questionId selection
      author).taskSetRunning taskId (task.revision + 1)) hroom sessionId (some taskId)
      "question.answered" [("question_id", .string questionId.val), ("author", .string author)]
      author
    rw [hs1, ok_bind]
    obtain ⟨events, rfl⟩ := hjournal
    apply settle_result_ok
    rw [retainAnsweredPlanFork_tasks]
    exact updateTask_task htask _

/-- An answer that does not apply is journaled as denied, and that is all. -/
theorem answerQuestion_denied (h : ¬ s.Answers taskId questionId questionRevision selection)
    (sessionId : SessionId) (author : String) :
    ∃ e, s.answerQuestion sessionId taskId questionId questionRevision selection author =
      (s.recordDeniedAttempt taskId questionId questionRevision (.selection selection) author
        (denialClass e), .error e) := by
  unfold answerQuestion
  split
  · next hok => exact absurd (answerQuestionCommit_ok_iff.mp ⟨_, hok⟩) h
  · next e _ => exact ⟨e, rfl⟩

theorem answerQuestion_applied (h : s.Answers taskId questionId questionRevision selection)
    (sessionId : SessionId) (author : String) :
    ∃ s' result, s.answerQuestion sessionId taskId questionId questionRevision selection author =
        (s', .ok result) ∧
      s.answerQuestionCommit sessionId taskId questionId questionRevision selection author =
        .ok (s', result) ∧ Changes taskId (Step (.answer questionId)) s s' := by
  obtain ⟨⟨s', result⟩, hok⟩ := answerQuestionCommit_ok_iff.mpr h
  refine ⟨s', result, ?_, hok, (answerQuestionCommit_changes _ _ _ _ _).of_ok hok⟩
  unfold answerQuestion
  rw [hok]

end Rivect.TaskStore
