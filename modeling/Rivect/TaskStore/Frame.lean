import Rivect.TaskStore.Growth

/-! # What the statements leave alone

A relation that every statement respects is respected by every call made of these statements.
The plan's handlers rewrite the execution, the outcome and the blocker of a row; its applicability
they can only put in doubt.
-/

namespace Rivect.TaskStore

open Lib TaskView List Option
open Within (skip map_fst ok_iff)

/-- What a write to a plan row leaves of it. -/
structure KeepsRow (row row' : PlanObligationRecord) : Prop where
  capability : row'.capability = row.capability
  handler : row'.handler = row.handler
  stage : row'.stage = row.stage
  applicability : row'.applicability = row.applicability ∨ row'.applicability = .unresolved

theorem KeepsRow.refl (row : PlanObligationRecord) : KeepsRow row row := ⟨rfl, rfl, rfl, .inl rfl⟩

theorem KeepsRow.trans {row row' row'' : PlanObligationRecord} (h : KeepsRow row row')
    (h' : KeepsRow row' row'') : KeepsRow row row'' where
  capability := h'.capability.trans h.capability
  handler := h'.handler.trans h.handler
  stage := h'.stage.trans h.stage
  applicability := by
    rcases h'.applicability with h' | h'
    · rw [h']
      exact h.applicability
    · exact .inr h'

theorem keepsRow_apply (change : PlanRowChange) (row : PlanObligationRecord) :
    KeepsRow row (change.apply row) := by
  cases change <;> exact ⟨rfl, rfl, rfl, .inl rfl⟩

/-- The statements about one task, of the calls that neither select nor write criteria,
obligations, evidence or attempts; a plan row is written within `K`. `R` is marked where the task
takes a new revision. -/
structure Frame (taskId : TaskId) (K : PlanObligationRecord → PlanObligationRecord → Prop)
    (R : Bool → TaskStore → TaskStore → Prop) : Prop where
  doubted : ∀ row, K row { row with applicability := .unresolved }
  answered : ∀ row outcome, K row { row with outcome := outcome }
  reopened : ∀ row, K row { row with execution := .pending, outcome := none, blocker := none }
  refl : ∀ s, R false s s
  trans : ∀ {a b s s' s''}, R a s s' → R b s' s'' → R (b || a) s s''
  weaken : ∀ {a s s'}, R a s s' → R false s s'
  journal : ∀ s e, R false s { s with events := s.events ++ [e] }
  questions : ∀ s questions, (∀ q ∈ s.questions.rows, ∃ q' ∈ questions.rows, Ages q q') →
    R false s { s with questions := questions }
  task : ∀ s f, (∀ row, s.tasks taskId = some row → Later row (f row)) →
    R false s (s.updateTask taskId f)
  next : ∀ s row f, s.tasks taskId = some row → Later row (f row) →
    row.revision < (f row).revision → R true s (s.updateTask taskId f)
  answers : ∀ s row, R false s (s.insertAnswerAttempt row)
  hold : ∀ s kind, R false s (s.setPlanGateHold taskId kind)
  mark : ∀ s marked, R false s (s.setPlanBlock taskId marked)
  plans : ∀ s plans, (∀ p ∈ s.plans taskId, ∃ p' ∈ plans,
    p'.selectionRevision = p.selectionRevision) → R false s (s.setPlans taskId plans)
  rows : ∀ s (source : PlanObligationRecord → Bool) f,
    (∀ row, source row = true → K row (f row)) → R false s (s.updatePlanRows taskId source f)

/-- The call writes plan rows within `K`. -/
def Op.RowsWithin (K : PlanObligationRecord → PlanObligationRecord → Prop) : Op → Prop
  | .updatePlanRow _ update | .publishPlanFork _ _ update =>
    ∀ row, row.capability = update.capability → K row (update.change.apply row)
  | .recordPlanRevision _ revision => ∀ row planRevision, row.capability = revision.handler →
    K row (PlanRowChange.apply (.close .satisfied (.revision planRevision)) row)
  | .recordPlanAssessment _ assessment => ∀ change ∈ assessment.changes, ∀ row,
    row.capability = change.1 → K row (change.2.apply row)
  | _ => True

theorem Op.rowsWithin_keepsRow (op : Op) : op.RowsWithin KeepsRow := by
  cases op with
  | updatePlanRow | publishPlanFork => exact fun row _ => keepsRow_apply _ row
  | recordPlanRevision => exact fun row _ _ => keepsRow_apply _ row
  | recordPlanAssessment => exact fun _ _ row _ => keepsRow_apply _ row
  | _ => trivial

namespace Frame

variable {K : PlanObligationRecord → PlanObligationRecord → Prop}
  {R : Bool → TaskStore → TaskStore → Prop} {s s' : TaskStore} {taskId : TaskId}

theorem within (F : Frame taskId K R) {a b : Bool} (h : R a s s')
    {x : Except StoreError TaskStore} (hx : Within Refuses (R b s') x) :
    Within Refuses (R (b || a) s) x :=
  hx.imp fun _ h' => F.trans h h'

/-! ## Statements -/

section

variable (F : Frame taskId K R)
include F

theorem appendEvent (sessionId : SessionId) (task : Option TaskId)
    (aggregate : String × ℕ) (eventType : String) (delta : List (String × Value))
    (origin : String) :
    Within Refuses (R false s) (s.appendEvent sessionId task aggregate eventType delta origin) := by
  apply skip
  intro _
  apply skip
  exact fun _ => F.journal s _

theorem moveTask (s : TaskStore) (source : Lifecycle → Bool)
    (hsource : source .cancelled = false) (lifecycle : Lifecycle) :
    R false s (s.moveTask taskId source lifecycle) :=
  F.task s _ fun row _ => moveTask_later hsource lifecycle row

theorem moveTask_raises {row : TaskRow} (hrow : s.tasks taskId = some row)
    (source : Lifecycle → Bool) (hsource : source .cancelled = false)
    (h : source row.lifecycle = true) (lifecycle : Lifecycle) :
    R true s (s.moveTask taskId source lifecycle) :=
  F.next s row _ hrow (moveTask_later hsource lifecycle row) (by simp [h])

theorem flipTask (s : TaskStore) (source lifecycle : Lifecycle) (hsource : source ≠ .cancelled)
    (htarget : lifecycle ≠ .blocked) : R false s (s.flipTask taskId source lifecycle) :=
  F.task s _ fun row _ => flipTask_later hsource htarget row

theorem nextRevision {row : TaskRow} (hrow : s.tasks taskId = some row)
    (hlive : row.lifecycle ≠ .cancelled) {f : TaskRow → TaskRow}
    (hsession : (f row).sessionId = row.sessionId) (hrevision : (f row).revision = row.revision + 1)
    (hintent : row.intentRevision ≤ (f row).intentRevision) : R true s (s.updateTask taskId f) :=
  F.next s row f hrow (nextRevision_later hrow hlive hsession hrevision hintent row hrow)
    (by omega)

theorem supersede (dies : QuestionRow → Bool) (sessionId : SessionId)
    (killed : List QuestionRow) (cause : QuestionRow → List (String × Value)) (origin : String) :
    Within Refuses (fun s' => R false s s' ∧ s'.tasks = s.tasks)
      ((s.supersede dies).journalDeaths sessionId taskId killed cause origin) := by
  have hw : Within Refuses (R false s)
      ((s.supersede dies).journalDeaths sessionId taskId killed cause origin) := by
    apply Within.foldlM (I := fun _ s' => R false s s')
    · exact fun _ _ _ _ hs' => F.within hs' (F.appendEvent _ _ _ _ _ _)
    · exact F.questions s _ fun q hq => supersede_ages dies hq
  apply (hw.and (journalDeaths_journals sessionId killed cause origin)).imp
  rintro s' ⟨h, _, rfl⟩
  exact ⟨h, rfl⟩

theorem insertQuestionRow (question : Question) :
    Within Refuses (fun s' => R false s s' ∧ s'.tasks = s.tasks) (s.insertQuestionRow question) := by
  unfold TaskStore.insertQuestionRow
  dsimp only
  split
  · exact ⟨F.questions s _ fun q hq => ⟨q, mem_append_left _ hq, .stays q⟩, rfl⟩
  · trivial

theorem releasePlanOwnedBlock (s : TaskStore) :
    R false s (s.releasePlanOwnedBlock taskId) := by
  unfold TaskStore.releasePlanOwnedBlock
  split
  · exact F.trans (F.moveTask s (· = .blocked) rfl _) (F.mark _ false)
  · exact F.refl s

theorem settlePlanLifecycle : Within Refuses (R false s) (s.settlePlanLifecycle taskId) := by
  apply skip
  intro task
  split
  · split
    · exact F.trans (F.moveTask s (· = .running) rfl _) (F.mark _ true)
    · exact F.refl s
  · split
    · exact F.refl s
    · exact F.releasePlanOwnedBlock s
  all_goals exact F.refl s

theorem settlePlanGateHold (s : TaskStore) :
    R false s (s.settlePlanGateHold taskId) := by
  unfold TaskStore.settlePlanGateHold
  split
  · exact F.refl s
  · split
    · exact F.hold s _
    · split
      · exact F.hold s _
      · exact F.refl s
    · split
      · exact F.hold s _
      · exact F.refl s

theorem settles {a : Bool} (h : R a s s') :
    Within Refuses (R a s) (s'.settlePlanState taskId) :=
  F.within (F.trans h (F.settlePlanGateHold s')) F.settlePlanLifecycle

theorem applyPlanRowChange {capability : String} (handler : String)
    {change : PlanRowChange} (h : ∀ row, row.capability = capability → K row (change.apply row)) :
    Within Refuses (R false s) (s.applyPlanRowChange taskId capability handler change) := by
  apply skip
  intro _
  apply skip
  intro _
  apply skip
  exact fun _ => F.rows s _ _ fun row hrow => h row (of_decide_eq_true hrow)

theorem unresolvePlanRows (s : TaskStore) :
    R false s (s.unresolvePlanRows taskId) :=
  F.rows s _ _ fun row _ => F.doubted row

theorem supersedePlanQuestion (sessionId : SessionId) (selectionRevision next : ℕ)
    {acc : TaskStore × Bool} (row : PlanObligationRecord) :
    Within Refuses (fun acc' => R false acc.1 acc'.1)
      (supersedePlanQuestion sessionId taskId selectionRevision next acc row) := by
  unfold TaskStore.supersedePlanQuestion
  split
  · apply skip
    intro _
    dsimp only
    split
    · exact F.refl _
    · apply Within.bind (F.within (F.questions acc.1 _ fun q hq => supersede_ages _ hq)
        (F.appendEvent _ _ _ _ _ _))
      exact fun _ h => h
  · exact F.refl _

theorem supersedeReplaced (sessionId : SessionId) (next : ℕ) :
    Within Refuses (R false s) (s.supersedeReplaced sessionId taskId next) := by
  unfold TaskStore.supersedeReplaced
  split
  · apply Within.bind (P := fun acc : TaskStore × Bool => R false s acc.1)
    · apply Within.foldlM (I := fun _ (acc : TaskStore × Bool) => R false s acc.1)
      · exact fun _ row acc _ hacc =>
          (F.supersedePlanQuestion _ _ _ row).imp fun _ h => F.trans hacc h
      · exact F.refl s
    · intro acc hacc
      rw [ok_iff]
      split
      · exact F.trans hacc (F.flipTask _ _ _ (by simp) (by simp))
      · exact hacc
  · exact F.refl s

end

/-! ## Calls -/

section

variable (F : Frame taskId K R)
include F

theorem insertQuestion (sessionId : SessionId) {question : Question}
    (hquestion : question.taskId = taskId) :
    Within Refuses (R true s) (s.insertQuestion sessionId question) := by
  subst hquestion
  apply Within.look
  intro task htask
  apply Within.guard
  intro hlifecycle
  apply skip
  intro _
  apply Within.bind (F.supersede _ _ _ _ _)
  rintro s1 ⟨h1, ht1⟩
  apply skip
  intro _
  apply Within.bind (F.insertQuestionRow question)
  rintro s2 ⟨h2, ht2⟩
  have hrow : s2.tasks question.taskId = some task := by rw [ht2, ht1, htask]
  have hlive : task.lifecycle ≠ .cancelled := by
    intro hc
    simp [hc] at hlifecycle
  have h3 : R true s2 (s2.taskSetWaiting question.taskId (task.revision + 1)) :=
    F.nextRevision hrow hlive rfl rfl le_rfl
  exact F.within (F.trans (F.trans h1 h2) h3) (F.appendEvent _ _ _ _ _ _)

theorem publishPlanFork (sessionId : SessionId) {question : Question}
    (hquestion : question.taskId = taskId) {update : PlanRowUpdate}
    (h : ∀ row, row.capability = update.capability → K row (update.change.apply row)) :
    Within Refuses (R true s) (s.publishPlanFork sessionId question update) := by
  subst hquestion
  apply skip
  intro _
  apply skip
  intro task
  have hrelease : R false s
      (if task.lifecycle = .blocked then s.releasePlanOwnedBlock question.taskId else s) := by
    split
    · exact F.releasePlanOwnedBlock s
    · exact F.refl s
  apply Within.bind (F.within hrelease (F.applyPlanRowChange _ h))
  intro s1 h1
  apply Within.bind (F.within h1 (F.insertQuestion sessionId rfl))
  exact fun s2 h2 => F.settles h2

theorem retainAnsweredPlanFork (s : TaskStore)
    (questionId : QuestionId) (questionRevision : ℕ) :
    R false s (s.retainAnsweredPlanFork taskId questionId questionRevision) := by
  unfold TaskStore.retainAnsweredPlanFork
  split
  · exact F.refl s
  · split
    · exact F.refl s
    · exact F.rows s _ _ fun row _ => F.answered row _

theorem answerQuestionCommit (sessionId : SessionId) (questionId : QuestionId)
    (questionRevision : ℕ) (selection : AnswerSelection) (author : String) :
    Within Refuses (fun r => R true s r.1)
      (s.answerQuestionCommit sessionId taskId questionId questionRevision selection author) := by
  apply Within.look
  intro task htask
  apply Within.guard
  intro hlive
  apply Within.look
  intro q hq
  apply Within.guard
  intro hpending
  apply skip
  intro _
  apply skip
  intro _
  apply skip
  intro _
  have hset : R false s (s.setAnswer questionId selection author) := F.questions s _ fun r hr =>
    ⟨_, mem_map_of_mem hr, setAnswer_ages hq hpending selection author hr⟩
  have hrow : (s.setAnswer questionId selection author).tasks taskId = some task := htask
  have hnext : R true _ ((s.setAnswer questionId selection author).taskSetRunning taskId
      (task.revision + 1)) := F.nextRevision hrow (not_cancelled hlive) rfl rfl le_rfl
  apply Within.bind (F.within (F.trans hset hnext) (F.appendEvent _ _ _ _ _ _))
  intro s1 h1
  have hattempt := F.trans h1 (F.answers s1
    ⟨questionId, taskId, questionRevision, .selection selection, author, .applied, none⟩)
  have hfork := F.trans hattempt (F.retainAnsweredPlanFork _ questionId questionRevision)
  apply Within.bind (F.within hfork F.settlePlanLifecycle)
  intro s2 h2
  apply skip
  exact fun _ => h2

theorem answerQuestion (sessionId : SessionId) (questionId : QuestionId)
    (questionRevision : ℕ) (selection : AnswerSelection) (author : String) :
    R false s (s.answerQuestion sessionId taskId questionId questionRevision selection author).1 := by
  unfold TaskStore.answerQuestion
  split
  · next s' result hok =>
    exact F.weaken ((F.answerQuestionCommit sessionId questionId questionRevision selection
      author).of_ok hok)
  · exact F.answers s _

theorem pauseForWorkflowOff (sessionId : SessionId) :
    Within Refuses (fun r => R false s r.1 ∧ ∀ row, s.tasks taskId = some row →
      row.lifecycle = .running ∨ row.lifecycle = .waiting → R true s r.1)
      (s.pauseForWorkflowOff sessionId taskId) := by
  apply Within.look
  intro task htask
  split
  · next hflight =>
    have hpause := F.moveTask_raises htask (fun l => l = .running ∨ l = .waiting) rfl
      (decide_eq_true hflight) .paused
    apply Within.bind (F.within hpause (F.appendEvent _ _ _ _ _ _))
    exact fun _ h => ⟨F.weaken h, fun _ _ _ => h⟩
  · next hidle =>
    refine ⟨F.refl s, fun row hrow hflight => absurd hflight ?_⟩
    obtain rfl := mem_unique htask hrow
    exact hidle

theorem steerTask (sessionId : SessionId) (intent revision : ℕ)
    (instruction : String) :
    Within Refuses (fun r => R true s r.1)
      (s.steerTask sessionId taskId intent revision instruction) := by
  apply Within.look
  intro task htask
  apply Within.guard
  intro hlive
  apply skip
  intro _
  apply skip
  intro _
  have hintent : R true s (s.updateIntent taskId (task.revision + 1) (task.intentRevision + 1)) :=
    F.nextRevision htask (not_cancelled hlive) rfl rfl (Nat.le_succ _)
  apply Within.bind (F.supersede _ _ _ _ _)
  rintro s1 ⟨h1, -⟩
  have hresume := F.trans (F.trans hintent h1)
    (F.flipTask s1 .waiting .running (by simp) (by simp))
  apply Within.bind (F.within hresume (F.appendEvent _ _ _ _ _ _))
  intro s2 h2
  have hrelease := F.trans h2 (F.flipTask s2 .paused .running (by simp) (by simp))
  apply Within.bind (F.within hrelease F.settlePlanLifecycle)
  intro s3 h3
  apply skip
  exact fun _ => h3

theorem endTask {task : TaskRow} (htask : s.tasks taskId = some task)
    (hlive : task.lifecycle.isTerminal = false) (sessionId : SessionId) (lifecycle : Lifecycle)
    (origin : String) :
    Within Refuses (R true s)
      ((s.endTask taskId lifecycle (task.revision + 1)).supersedeTerminalQuestions sessionId taskId
        lifecycle origin) :=
  F.within (F.nextRevision htask (not_cancelled hlive) rfl rfl le_rfl)
    ((F.supersede _ _ _ _ _).imp fun _ h => h.1)

theorem cancelTaskWithOrigin (sessionId : SessionId) (intent : ℕ)
    (reason : Option String) (origin : String) :
    Within Refuses (fun r => R false s r.1 ∧ ∀ row, s.tasks taskId = some row →
      if row.lifecycle.isTerminal then r.1.tasks = s.tasks else R true s r.1)
      (s.cancelTaskWithOrigin sessionId taskId intent reason origin) := by
  apply Within.look
  intro task htask
  apply skip
  intro _
  split
  · next hterminal =>
    apply Within.bind (F.supersede _ _ _ _ _)
    rintro s1 ⟨h1, ht1⟩
    apply skip
    refine fun _ => ⟨h1, fun row hrow => ?_⟩
    obtain rfl := mem_unique htask hrow
    rwa [if_pos hterminal]
  · next hlive =>
    apply Within.bind (F.endTask htask (by simpa using hlive) _ _ _)
    intro s1 h1
    apply Within.bind (F.within h1 (F.appendEvent _ _ _ _ _ _))
    intro s2 h2
    apply skip
    refine fun _ => ⟨F.weaken h2, fun row hrow => ?_⟩
    obtain rfl := mem_unique htask hrow
    rwa [if_neg hlive]

theorem completeIfEligible (sessionId : SessionId) :
    R false s (s.completeIfEligible sessionId taskId).1 ∧
      ((s.completeIfEligible sessionId taskId).2 = .ok () →
        R true s (s.completeIfEligible sessionId taskId).1) := by
  unfold TaskStore.completeIfEligible
  split
  · exact ⟨F.refl s, nofun⟩
  · next task htask =>
    split
    · exact ⟨F.refl s, nofun⟩
    · next hlive =>
      dsimp only
      split
      · exact ⟨F.flipTask s _ _ (by simp) (by simp), nofun⟩
      · have hw : Within Refuses (R true s) (s.completeTask sessionId taskId task) := by
          apply skip
          intro _
          apply Within.bind (F.endTask htask (by simpa using hlive) _ _ _)
          exact fun s1 h1 => F.within h1 (F.appendEvent _ _ _ _ _ _)
        split
        · next s' hok => exact ⟨F.weaken (hw.of_ok hok), fun _ => hw.of_ok hok⟩
        · exact ⟨F.refl s, nofun⟩

theorem recordPlanSelection
    (hselection : ∀ s selection, R false s (s.setPlanSelection taskId selection))
    (hrows : ∀ s rows, R false s (s.setPlanRows taskId rows)) (sessionId : SessionId)
    (selection : PlanSelectionWrite) :
    Within Refuses (fun r => R false s r.1) (s.recordPlanSelection sessionId taskId selection) := by
  apply skip
  intro _
  dsimp only
  split
  · unfold resetRecoveredPlanRows
    split
    · exact F.refl s
    · dsimp only
      split
      · apply Within.bind (F.settles (hrows s _))
        exact fun _ h => h
      · exact F.refl s
  · apply Within.bind (F.supersedeReplaced _ _)
    intro s1 h1
    apply skip
    intro _
    apply skip
    intro _
    apply Within.bind (F.settles (F.trans (F.trans h1 (hselection s1 _)) (hrows _ _)))
    exact fun _ h => h

theorem commit {a : Bool} {body : Except StoreError TaskStore}
    (h : Within Refuses (R a s) body) : R false s (s.commit body).1 :=
  commit_within (F.refl s) (h.imp fun _ => F.weaken)

theorem blockForeign (h : R false s s') {source : Lifecycle → Bool}
    (hsource : source .cancelled = false) :
    R false s ((s'.moveTask taskId source .blocked).clearPlanBlock taskId) :=
  F.trans (F.trans h (F.moveTask s' _ hsource _)) (F.mark _ false)

end

end Frame

/-- The task that a call names which is made of the framed statements alone. -/
def Op.framed : Op → Option TaskId
  | .publishQuestion _ question | .publishPlanFork _ question _ => some question.taskId
  | .answerQuestion _ taskId .. | .recordDeniedAttempt taskId .. | .pauseForWorkflowOff _ taskId
  | .steerTask _ taskId .. | .cancelTask _ taskId .. | .markOutcomeUnknown taskId
  | .markNoReady taskId | .completeIfEligible _ taskId | .updatePlanRow taskId _
  | .recordPlanRevision taskId _ | .recordPlanAssessment taskId _ | .holdForPlanGate taskId _
  | .markPlanApplicabilityUnresolved taskId => some taskId
  | _ => none

theorem Frame.perform {K : PlanObligationRecord → PlanObligationRecord → Prop}
    {R : Bool → TaskStore → TaskStore → Prop} {taskId : TaskId} (F : Frame taskId K R) {s : TaskStore}
    {op : Op} (hop : op.framed = some taskId) (hrows : op.RowsWithin K) :
    R false s (s.perform op).1 := by
  -- each framed call is a composition of writes that the frame has a rule for
  cases op with
  | publishQuestion => exact F.commit (F.insertQuestion _ (some.inj hop))
  | publishPlanFork => exact F.commit (F.publishPlanFork _ (some.inj hop) hrows)
  | answerQuestion =>
    cases hop
    exact F.answerQuestion _ _ _ _ _
  | recordDeniedAttempt => exact F.answers s _
  | pauseForWorkflowOff =>
    cases hop
    exact F.commit (map_fst ((F.pauseForWorkflowOff _).imp fun _ h => h.1))
  | steerTask =>
    cases hop
    exact F.commit (map_fst (F.steerTask _ _ _ _))
  | cancelTask =>
    cases hop
    exact F.commit (map_fst ((F.cancelTaskWithOrigin _ _ _ _).imp fun _ h => h.1))
  | completeIfEligible =>
    cases hop
    exact (F.completeIfEligible _).1
  | markOutcomeUnknown =>
    cases hop
    exact F.blockForeign (F.refl s) rfl
  | markNoReady =>
    cases hop
    exact F.blockForeign (F.refl s) rfl
  | updatePlanRow =>
    cases hop
    apply F.commit
    apply skip
    intro _
    apply Within.bind (F.applyPlanRowChange _ hrows)
    exact fun _ h => F.settles h
  | recordPlanRevision taskId revision =>
    cases hop
    apply F.commit
    apply map_fst
    apply skip
    intro _
    apply skip
    intro planRevision
    have hplans := F.plans s (s.plans taskId ++
      [⟨planRevision, revision.selectionRevision, revision.body, none, none⟩])
      fun p hp => ⟨p, mem_append_left _ hp, rfl⟩
    apply Within.bind (F.within hplans
      (F.applyPlanRowChange _ fun row => hrows row planRevision))
    intro s1 h1
    have hreopen := F.trans h1 (F.rows s1
      (fun row => row.handler = some revision.reopens ∧ row.applicability = .required)
      (fun row => { row with execution := .pending, outcome := none, blocker := none })
      fun row _ => F.reopened row)
    apply Within.bind (F.settles hreopen)
    exact fun _ h => h
  | recordPlanAssessment =>
    cases hop
    apply F.commit
    apply skip
    intro _
    apply skip
    intro _
    apply skip
    intro _
    apply Within.bind (P := R false s)
    · apply Within.foldlM (I := fun _ (s' : TaskStore) => R false s s')
      · intro _ change s' hchange hs'
        exact F.within hs' (F.applyPlanRowChange _ (hrows change hchange))
      · apply F.plans s
        intro p hp
        exact ⟨_, mem_map_of_mem hp, by split <;> rfl⟩
    · exact fun _ h => F.settles h
  | holdForPlanGate _ observed =>
    cases hop
    apply F.commit
    apply map_fst
    apply skip
    intro _
    have hhold : R false s
        (if s.gateOn taskId ≠ .open then s.setPlanGateHold taskId (some observed) else s) := by
      split
      · exact F.hold s _
      · exact F.refl s
    apply Within.bind (F.settles hhold)
    exact fun _ h => h
  | markPlanApplicabilityUnresolved =>
    cases hop
    apply F.commit
    apply skip
    intro _
    split
    · exact F.refl s
    · exact F.settles (F.unresolvePlanRows s)
  | _ => cases hop

/-- Of a task in this lifecycle, the call raises the revision where it commits. -/
def Op.raises (l : Lifecycle) : Op → Bool
  | .publishQuestion .. | .publishPlanFork .. | .answerQuestion .. | .steerTask ..
  | .completeIfEligible .. => true
  | .cancelTask .. | .markOutcomeUnknown _ | .markNoReady _ => !l.isTerminal
  | .pauseForWorkflowOff .. => l = .running ∨ l = .waiting
  | .invalidateEvidence _ | .markApplicabilityUnresolved _ => l ≠ .cancelled
  | _ => false

theorem ok_of_commit {s : TaskStore} {P : TaskStore → Prop} {body : Except StoreError TaskStore}
    (h : Within Refuses P body) (hok : (s.commit body).2 = .ok ()) : P (s.commit body).1 := by
  cases body with
  | ok s' => exact h
  | error e => cases hok

theorem Frame.raises {K : PlanObligationRecord → PlanObligationRecord → Prop}
    {R : Bool → TaskStore → TaskStore → Prop} {taskId : TaskId} (F : Frame taskId K R)
    {s : TaskStore} {row : TaskRow} (hrow : s.tasks taskId = some row) {op : Op}
    (hop : op.framed = some taskId) (hrows : op.RowsWithin K) (hraises : op.raises row.lifecycle)
    (hok : (s.perform op).2 = .ok ()) : R true s (s.perform op).1 := by
  cases op with
  | publishQuestion => exact ok_of_commit (F.insertQuestion _ (some.inj hop)) hok
  | publishPlanFork => exact ok_of_commit (F.publishPlanFork _ (some.inj hop) hrows) hok
  | answerQuestion sessionId t questionId questionRevision selection author =>
    cases hop
    simp only [TaskStore.perform, TaskStore.answerQuestion] at hok ⊢
    split at hok
    · next hcommit => exact (F.answerQuestionCommit _ _ _ _ _).of_ok hcommit
    · cases hok
  | steerTask =>
    cases hop
    exact ok_of_commit (map_fst (F.steerTask _ _ _ _)) hok
  | completeIfEligible =>
    cases hop
    exact (F.completeIfEligible _).2 hok
  | cancelTask =>
    cases hop
    have hlive : ¬ row.lifecycle.isTerminal := by simpa [Op.raises] using hraises
    exact ok_of_commit (map_fst ((F.cancelTaskWithOrigin _ _ _ _).imp
      fun _ h => by simpa [hlive] using h.2 row hrow)) hok
  | pauseForWorkflowOff =>
    cases hop
    exact ok_of_commit (map_fst ((F.pauseForWorkflowOff _).imp
      fun _ h => h.2 row hrow (by simpa [Op.raises] using hraises))) hok
  | markOutcomeUnknown | markNoReady =>
    cases hop
    exact F.trans (F.moveTask_raises hrow (fun l => !l.isTerminal) rfl hraises .blocked)
      (F.mark _ false)
  | invalidateEvidence | markApplicabilityUnresolved => cases hop
  | _ => cases hraises

/-! ## Every call -/

/-- What every call respects: the framed statements of each task, a task's row, records and
selections. -/
structure Frames (K : PlanObligationRecord → PlanObligationRecord → Prop)
    (R : TaskStore → TaskStore → Prop) : Prop where
  task : ∀ taskId, Frame taskId K fun _ => R
  records : ∀ {T s s'}, Records T s s' → R s s'
  insert : ∀ s taskId (params : CreateParams), s.tasks taskId = none → R s { s with
    tasks := Function.update s.tasks taskId
      (some ⟨params.sessionId, 1, 1, 1, .running, params.goal, 1⟩)
    rowids := s.rowids ++ [taskId]
    constraints := Function.update s.constraints taskId params.constraints }

def Op.selects : Op → Bool
  | .recordPlanSelection .. => true
  | _ => false

namespace Frames

variable {K : PlanObligationRecord → PlanObligationRecord → Prop}
  {R : TaskStore → TaskStore → Prop} {s s' : TaskStore} {taskId : TaskId}

section

variable (F : Frames K R)
include F

theorem refl (s : TaskStore) : R s s := (F.task ⟨""⟩).refl s

theorem trans {s'' : TaskStore} (h : R s s') (h' : R s' s'') : R s s'' :=
  (F.task ⟨""⟩).trans (a := false) (b := false) h h'

theorem commit {body : Except StoreError TaskStore} (h : Within Refuses (R s) body) :
    R s (s.commit body).1 := (F.task ⟨""⟩).commit (a := false) h

theorem createTask (criterionId : ℕ → String) (commandId : String)
    (params : CreateParams) :
    Within Refuses (fun r => R s r.1) (s.createTask taskId criterionId commandId params) := by
  apply (createTask_creates criterionId commandId params).imp
  rintro r (hsame | ⟨-, habsent, -, criteria, event, receipts, hcreated⟩)
  · rw [hsame]
    exact F.refl s
  · rw [hcreated]
    have hinsert := F.insert s taskId params habsent
    have hrecords := F.trans hinsert
      (F.records (T := fun _ => False) (.uncounted _ criteria s.evidence receipts))
    exact F.trans hrecords ((F.task taskId).journal _ event)

theorem perform {op : Op} (hop : op.selects = false) (hrows : op.RowsWithin K) :
    R s (s.perform op).1 := by
  cases op with
  | createTask => exact F.commit (map_fst (F.createTask _ _ _))
  | materializeObligations | planAttempt | setAttemptState | insertEvidence
  | insertEvidenceForTask | deleteScopedRecord => exact F.records (perform_records rfl).1
  | invalidateEvidence =>
    apply F.commit
    apply map_fst
    apply skip
    intro _
    apply skip
    intro taskId
    apply (F.task taskId).blockForeign ?_ (by rfl)
    exact F.records (doubt_records _ fun _ => rfl)
  | markApplicabilityUnresolved obligationId =>
    apply F.commit
    apply map_fst
    unfold markApplicabilityUnresolved
    split
    · exact F.refl s
    · apply skip
      intro taskId
      have hdoubt : R s (s.unresolvedApplicability obligationId) :=
        F.records (doubt_records _ fun _ => rfl)
      exact (F.task taskId).blockForeign
        (F.trans hdoubt ((F.task taskId).unresolvePlanRows _)) rfl
  | recordPlanSelection => cases hop
  | _ => exact (F.task _).perform rfl hrows

end

end Frames

/-! ## The rows that no call takes back -/

theorem frames_evolves : Frames KeepsRow Evolves where
  task taskId :=
    { doubted := fun _ => ⟨rfl, rfl, rfl, .inr rfl⟩
      answered := fun _ _ => ⟨rfl, rfl, rfl, .inl rfl⟩
      reopened := fun _ => ⟨rfl, rfl, rfl, .inl rfl⟩
      refl := .refl
      trans := .trans
      journal := fun s e => .of_events rfl rfl rfl (prefix_append _ _)
      questions := fun s _ h =>
        ⟨.of_rowids rfl fun _ => .rfl, fun t row hrow => ⟨row, hrow, .refl row⟩, h,
          prefix_refl _⟩
      weaken := id
      task := fun s f => updateTask_evolves
      next := fun s row f hrow h _ => updateTask_evolves fun row' hrow' =>
        mem_unique hrow hrow' ▸ h
      answers := fun s _ => .of_tables rfl rfl rfl rfl
      hold := fun s _ => .of_tables rfl rfl rfl rfl
      mark := fun s _ => .of_tables rfl rfl rfl rfl
      plans := fun s _ _ => .of_tables rfl rfl rfl rfl
      rows := fun s _ _ _ => .of_tables rfl rfl rfl rfl }
  records h := by
    obtain ⟨_, _, _, _, _, rfl⟩ := h.rest
    exact .of_tables rfl rfl rfl rfl
  insert s taskId params habsent := insertTaskRow_evolves habsent params

/-- No call takes a row back, whether it succeeds or fails. -/
theorem perform_evolves (s : TaskStore) (op : Op) : Evolves s (s.perform op).1 := by
  cases op with
  | recordPlanSelection _ taskId =>
    apply frames_evolves.commit
    apply map_fst
    exact (frames_evolves.task taskId).recordPlanSelection
      (fun _ _ => .of_tables rfl rfl rfl rfl) (fun _ _ => .of_tables rfl rfl rfl rfl) _ _
  | _ => exact frames_evolves.perform rfl (Op.rowsWithin_keepsRow _)

theorem evolves_of_run {s s' : TaskStore} {ops : List Op} (h : Run Performs s ops s') :
    Evolves s s' := by
  apply h.relates (I := fun _ => True) Evolves.refl (fun _ _ _ => Evolves.trans) (fun _ _ _ _ _ => trivial)
  · rintro s op _ - rfl
    exact perform_evolves s op
  · trivial

/-! ## The rows of other tasks -/

/-- Only the task's row is written, and it grows older; with a mark, by a revision. -/
structure Turns (taskId : TaskId) (raised : Bool) (s s' : TaskStore) : Prop where
  rowids : s'.rowids = s.rowids
  others : ∀ u, u ≠ taskId → s'.tasks u = s.tasks u
  obligations : s'.obligations = s.obligations
  attempts : s'.attempts = s.attempts
  own : ∀ row, s.tasks taskId = some row → ∃ row', s'.tasks taskId = some row' ∧
    Later row row' ∧ (raised = true → row.revision < row'.revision)

namespace Turns

variable {s s' s'' : TaskStore} {taskId : TaskId} {a b : Bool}

theorem trans (h : Turns taskId a s s') (h' : Turns taskId b s' s'') :
    Turns taskId (b || a) s s'' where
  rowids := h'.rowids.trans h.rowids
  others u hu := (h'.others u hu).trans (h.others u hu)
  obligations := h'.obligations.trans h.obligations
  attempts := h'.attempts.trans h.attempts
  own row hrow := by
    obtain ⟨row', hrow', hlater, hraised⟩ := h.own row hrow
    obtain ⟨row'', hrow'', hlater', hraised'⟩ := h'.own row' hrow'
    refine ⟨row'', hrow'', hlater.trans hlater', fun hab => ?_⟩
    rcases Bool.or_eq_true_iff.mp hab with hb | ha
    · exact hlater.revision.trans_lt (hraised' hb)
    · exact (hraised ha).trans_le hlater'.revision

theorem of_tasks (ht : s'.tasks = s.tasks) (hr : s'.rowids = s.rowids)
    (ho : s'.obligations = s.obligations) (ha : s'.attempts = s.attempts) :
    Turns taskId false s s' :=
  ⟨hr, fun u _ => by rw [ht], ho, ha, fun row hrow => ⟨row, by rw [ht, hrow], .refl row, nofun⟩⟩

theorem updateTask {f : TaskRow → TaskRow} (hf : ∀ row, s.tasks taskId = some row →
      Later row (f row) ∧ (a = true → row.revision < (f row).revision)) :
    Turns taskId a s (s.updateTask taskId f) :=
  ⟨rfl, fun _ => updateTask_tasks_of_ne f, rfl, rfl, fun row hrow =>
    ⟨f row, updateTask_task hrow f, hf row hrow⟩⟩

end Turns

theorem frame_turns (taskId : TaskId) : Frame taskId KeepsRow (Turns taskId) where
  doubted _ := ⟨rfl, rfl, rfl, .inr rfl⟩
  answered _ _ := ⟨rfl, rfl, rfl, .inl rfl⟩
  reopened _ := ⟨rfl, rfl, rfl, .inl rfl⟩
  refl _ := .of_tasks rfl rfl rfl rfl
  trans := .trans
  weaken h := { h with own := fun row hrow =>
    let ⟨row', hrow', hlater, _⟩ := h.own row hrow
    ⟨row', hrow', hlater, nofun⟩ }
  journal _ _ := .of_tasks rfl rfl rfl rfl
  questions _ _ _ := .of_tasks rfl rfl rfl rfl
  task _ _ hf := .updateTask fun row hrow => ⟨hf row hrow, nofun⟩
  next _ _ _ hrow hlater hlt := .updateTask fun _ hrow' => by
    obtain rfl := mem_unique hrow hrow'
    exact ⟨hlater, fun _ => hlt⟩
  answers _ _ := .of_tasks rfl rfl rfl rfl
  hold _ _ := .of_tasks rfl rfl rfl rfl
  mark _ _ := .of_tasks rfl rfl rfl rfl
  plans _ _ _ := .of_tasks rfl rfl rfl rfl
  rows _ _ _ _ := .of_tasks rfl rfl rfl rfl

end Rivect.TaskStore
