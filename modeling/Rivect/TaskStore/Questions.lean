import Rivect.TaskStore.Frame
import Rivect.TaskStore.Pause

/-! # The life of a question

A task has one live question at most, pinned to its live intent. A question that was answered or
superseded stays so, and an answer that comes too late is journaled and changes nothing.
-/

namespace Rivect.TaskStore

open Lib TaskView

variable {s s' : TaskStore} {taskId : TaskId}

/-- The live questions of one task. -/
structure QuestionsKept (s : TaskStore) (taskId : TaskId) : Prop where
  one : (s.pendingOf taskId).length ≤ 1
  pinned : ∀ q ∈ s.pendingOf taskId, ∃ task, s.tasks taskId = some task ∧
    q.intentRevision = task.intentRevision
  ended : s.lifecycleOf taskId = some .completed ∨ s.lifecycleOf taskId = some .cancelled →
    s.pendingOf taskId = []

theorem questionsKept_of_inv (h : (s.view taskId).Inv) : QuestionsKept s taskId where
  one := h.pending.1
  pinned q hq := by
    have hpin : q.intentRevision = (s.tasks taskId).elim 0 TaskRow.intentRevision :=
      h.pending.2 q hq
    cases htask : s.tasks taskId with
    | none =>
      have habsent : (s.view taskId).lifecycle = none := by simp [view, lifecycleOf, htask]
      have hnone : s.pendingOf taskId = [] := (h.absent habsent).1
      simp [hnone] at hq
    | some task => exact ⟨task, rfl, by simpa [htask] using hpin⟩
  ended := h.ended

/-- The answer names a question that is not pending, is another revision's or another task's, or
is pinned to an intent that is not live. -/
def Late (s : TaskStore) (taskId : TaskId) (questionId : QuestionId) (questionRevision : ℕ) : Prop :=
  ∃ q ∈ s.questions.rows, q.questionId = questionId ∧
    (q.state ≠ .pending ∨ q.revision ≠ questionRevision ∨ q.taskId ≠ taskId ∨
      ∃ task, s.tasks taskId = some task ∧ q.intentRevision ≠ task.intentRevision)

theorem not_answers_of_late {questionId : QuestionId} {questionRevision : ℕ}
    {selection : AnswerSelection} (hkept : QuestionsKept s taskId)
    (h : Late s taskId questionId questionRevision) :
    ¬ s.Answers taskId questionId questionRevision selection := by
  rintro ⟨task, q', htask, -, hq', hpending, hrevision, -⟩
  obtain ⟨q, hq, hid, hlate⟩ := h
  obtain ⟨hmem, hid', htaskId⟩ := questionById_some hq'
  obtain rfl := question_unique hq hmem (hid.trans hid'.symm)
  rcases hlate with hlate | hlate | hlate | ⟨task', htask', hlate⟩
  · exact hlate hpending
  · exact hlate hrevision
  · exact hlate htaskId
  · obtain ⟨live, hlive, hpin⟩ := hkept.pinned q (mem_pendingOf.mpr ⟨hmem, htaskId, hpending⟩)
    obtain rfl := Option.mem_unique hlive htask'
    exact hlate hpin

/-- What holds of the questions in one state, and what a later state keeps of them. -/
structure QuestionLaws (s s' : TaskStore) : Prop where
  kept : ∀ taskId, QuestionsKept s taskId
  leave : ∀ q ∈ s.questions.rows, ∃ q' ∈ s'.questions.rows, Ages q q'
  later : ∀ taskId task, s.tasks taskId = some task →
    ∃ task', s'.tasks taskId = some task' ∧ Later task task'
  denied : ∀ sessionId taskId questionId questionRevision selection author,
    Late s taskId questionId questionRevision →
      ∃ e, s.answerQuestion sessionId taskId questionId questionRevision selection author =
        (s.recordDeniedAttempt taskId questionId questionRevision (.selection selection) author
          (denialClass e), .error e)

/-- The laws hold of every two states of a run, the earlier one first. -/
theorem question_lifecycle {ops ops' : List Op} (h : Run Performs fresh ops s)
    (h' : Run Performs s ops' s') : QuestionLaws s s' := by
  have hkept : ∀ taskId, QuestionsKept s taskId :=
    fun taskId => questionsKept_of_inv (inv_of_run h taskId)
  have hevolves := evolves_of_run h'
  refine ⟨hkept, hevolves.questions, hevolves.tasks, ?_⟩
  intro sessionId taskId questionId questionRevision selection author hlate
  exact answerQuestion_denied (not_answers_of_late (hkept taskId) hlate) sessionId author

/-- A steer between the question and its answer: the answer is late. -/
theorem question_lifecycle_steered :
    Late (after [created, .publishQuestion ⟨"session"⟩ question,
        .steerTask ⟨"session"⟩ ⟨"task"⟩ 1 2 "shorter"]) ⟨"task"⟩ ⟨"question"⟩ 1 ∧
      QuestionLaws
        (after [created, .publishQuestion ⟨"session"⟩ question,
          .steerTask ⟨"session"⟩ ⟨"task"⟩ 1 2 "shorter"])
        (after [created, .publishQuestion ⟨"session"⟩ question,
          .steerTask ⟨"session"⟩ ⟨"task"⟩ 1 2 "shorter",
          .answerQuestion ⟨"session"⟩ ⟨"task"⟩ ⟨"question"⟩ 1 (.option ⟨"brief"⟩) "human"]) := by
  refine ⟨⟨_, List.mem_singleton.mpr rfl, rfl, .inl (by decide)⟩, ?_⟩
  exact question_lifecycle (run_after _) (.single rfl)

end Rivect.TaskStore
