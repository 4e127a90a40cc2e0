import Rivect.TaskStore.Waiting

/-! # The list that the pages show

A page is refused once the session's greatest revision has moved. A call that writes what the
pages list of a task moves it if the task stands at that revision, and otherwise need not.
-/

namespace Rivect

open Lib List Option

namespace TaskStore

open TaskView

variable {s s' : TaskStore} {sessionId : SessionId} {taskId u : TaskId} {op : Op} {α : Type}
  {item : Item α}

/-! ## Rows -/

/-- Every task has one row. -/
structure Rows (s : TaskStore) : Prop where
  nodup : s.rowids.Nodup
  present : ∀ t, t ∈ s.rowids ↔ s.tasks t ≠ none

theorem Rows.evolves (h : Rows s) (hs : Evolves s s') : Rows s' := by
  obtain ⟨new, hrows, hnodup, hfree, htasks⟩ := hs.rows
  constructor
  · rw [hrows]
    refine nodup_append.mpr ⟨h.nodup, hnodup, ?_⟩
    rintro a ha b hb rfl
    exact (h.present a).mp ha (hfree a hb)
  · intro t
    rw [hrows, mem_append, htasks, h.present]

theorem mem_sessionRows {task : TaskId × TaskRow} :
    task ∈ s.sessionRows sessionId ↔
      task.1 ∈ s.rowids ∧ s.tasks task.1 = some task.2 ∧ task.2.sessionId = sessionId := by
  obtain ⟨t, row⟩ := task
  simp only [sessionRows, mem_filterMap, bind_eq_some_iff]
  constructor
  · rintro ⟨t', hmem, row', hrow, hif⟩
    split at hif
    · next hsession =>
      obtain ⟨rfl, rfl⟩ := Prod.mk.inj (some.inj hif)
      exact ⟨hmem, hrow, hsession⟩
    · cases hif
  · rintro ⟨hmem, hrow, hsession⟩
    exact ⟨t, hmem, row, hrow, if_pos hsession⟩

/-- The pages list the session's tasks, each once, by their rows. -/
structure ListsOnce (s : TaskStore) (sessionId : SessionId) : Prop where
  order : ((s.sessionRows sessionId).map Prod.fst).Sublist s.rowids
  once : ((s.sessionRows sessionId).map Prod.fst).Nodup
  every : ∀ t row, (t, row) ∈ s.sessionRows sessionId ↔
    s.tasks t = some row ∧ row.sessionId = sessionId

theorem sessionRows_sublist (s : TaskStore) (sessionId : SessionId) :
    ((s.sessionRows sessionId).map Prod.fst).Sublist s.rowids := by
  rw [sessionRows, map_filterMap]
  have hloop : ∀ rowids : List TaskId, (rowids.filterMap fun t => Option.map Prod.fst
      ((s.tasks t).bind fun row => if row.sessionId = sessionId then some (t, row) else none)
      ).Sublist rowids := by
    intro rowids
    induction rowids with
    | nil => exact Sublist.refl _
    | cons t rowids ih =>
      rw [filterMap_cons]
      split
      · exact ih.cons t
      · next t' ht =>
        obtain ⟨task, hbind, rfl⟩ := map_eq_some_iff.mp ht
        obtain ⟨row, -, hif⟩ := bind_eq_some_iff.mp hbind
        split at hif
        · obtain rfl := some.inj hif
          exact ih.cons_cons t
        · cases hif
  exact hloop s.rowids

theorem Rows.lists (h : Rows s) (sessionId : SessionId) : ListsOnce s sessionId where
  order := sessionRows_sublist s sessionId
  once := h.nodup.sublist (sessionRows_sublist s sessionId)
  every t row := by
    rw [mem_sessionRows]
    constructor
    · exact fun hmem => hmem.2
    · exact fun hrow => ⟨(h.present t).mpr (by simp [hrow.1]), hrow⟩

/-! ## The generation -/

theorem foldl_max_le {l : List ℕ} {bound : ℕ} (h : ∀ n ∈ l, n ≤ bound) : l.foldl max 0 ≤ bound := by
  have hloop : ∀ (l : List ℕ) (acc : ℕ), acc ≤ bound → (∀ n ∈ l, n ≤ bound) →
      l.foldl max acc ≤ bound := by
    intro l
    induction l with
    | nil => exact fun _ hacc _ => hacc
    | cons n l ih =>
      intro acc hacc hl
      exact ih _ (max_le hacc (hl n (by simp))) fun m hm => hl m (by simp [hm])
  exact hloop l 0 (Nat.zero_le _) h

/-- Rows grow older and more, so the generation never falls. -/
theorem generation_mono (h : Evolves s s') :
    s.sessionGeneration sessionId ≤ s'.sessionGeneration sessionId := by
  apply foldl_max_le
  intro n hn
  obtain ⟨⟨t, row⟩, hmem, rfl⟩ := mem_map.mp hn
  obtain ⟨hrowid, hrow, hsession⟩ := mem_sessionRows.mp hmem
  obtain ⟨row', hrow', hlater⟩ := h.tasks t row hrow
  obtain ⟨new, hrows, -⟩ := h.rows
  have hmem' : (t, row') ∈ s'.sessionRows sessionId := mem_sessionRows.mpr
    ⟨by rw [hrows]; exact mem_append_left _ hrowid, hrow', hlater.session.trans hsession⟩
  exact hlater.revision.trans (le_foldl_max (mem_map.mpr ⟨_, hmem', rfl⟩))

/-! ## What the list reads of a task -/

structure Alike (s s' : TaskStore) (u : TaskId) : Prop where
  task : s'.tasks u = s.tasks u
  listed : ∀ row, s.tasks u = some row → s'.blockers u row.lifecycle = s.blockers u row.lifecycle

theorem blockers_quiet {l : Lifecycle} (h : l.projectsPlan = false) : s.blockers u l = none := by
  cases l <;> first | rfl | cases h

theorem Alike.of_quiet (ht : s'.tasks u = s.tasks u)
    (hl : ∀ row, s.tasks u = some row → row.lifecycle.projectsPlan = false) : Alike s s' u :=
  ⟨ht, fun row hrow => by rw [blockers_quiet (hl row hrow), blockers_quiet (hl row hrow)]⟩

theorem Alike.of_view (ht : s'.tasks u = s.tasks u) (hv : s'.view u = s.view u)
    (hcounts : ∀ row, s.tasks u = some row → row.lifecycle = .blocked →
      s'.unresolvedObligations u = s.unresolvedObligations u ∧
        s'.unknownAttempts u = s.unknownAttempts u) : Alike s s' u := by
  refine ⟨ht, fun row hrow => ?_⟩
  have hpending : s'.pendingOf u = s.pendingOf u := congrArg TaskView.pending hv
  have hplan : s'.planBlockers u = s.planBlockers u := congrArg TaskView.planBlockers hv
  unfold blockers
  rw [hpending, hplan]
  by_cases hl : row.lifecycle = .blocked
  · obtain ⟨hunresolved, hunknown⟩ := hcounts row hrow hl
    rw [hunresolved, hunknown]
  · simp [hl]

/-- The pages of the session list the row. -/
def Lists (s : TaskStore) (sessionId : SessionId) (t : TaskId) (row : TaskRow) : Prop :=
  s.tasks t = some row ∧ row.sessionId = sessionId

/-- The list reads the same if its tasks are alike and the new rows are of other sessions. -/
theorem listing_of_alike (hs : Evolves s s')
    (hnew : ∀ u row, s.tasks u = none → s'.tasks u = some row → row.sessionId ≠ sessionId)
    (h : ∀ u row, s.Lists sessionId u row → Alike s s' u) :
    s'.listing item sessionId = s.listing item sessionId := by
  have hunlisted : ∀ u, s.tasks u = none → ((s'.tasks u).bind fun row =>
      if row.sessionId = sessionId then some (u, row) else none) = none := by
    intro u hu
    rw [bind_eq_none_iff]
    exact fun row hrow => if_neg (hnew u row hu hrow)
  have hsame : s'.sessionRows sessionId = s.sessionRows sessionId := by
    obtain ⟨new, hrowids, -, hfree, -⟩ := hs.rows
    rw [sessionRows, hrowids, filterMap_append,
      filterMap_eq_nil_iff.mpr fun u hu => hunlisted u (hfree u hu), append_nil]
    refine filterMap_congr fun u _ => ?_
    cases hrow : s.tasks u with
    | none => exact hunlisted u hrow
    | some row =>
      by_cases hsession : row.sessionId = sessionId
      · rw [(h u row ⟨hrow, hsession⟩).task, hrow]
      · obtain ⟨row', hrow', hlater⟩ := hs.tasks u row hrow
        simp [hrow', hlater.session, hsession]
  rw [listing, listing, hsame]
  refine map_congr_left fun task htask => ?_
  obtain ⟨-, hlists⟩ := mem_sessionRows.mp htask
  rw [(h _ _ hlists).listed _ hlists.1]

/-! ## What a call may write of a listed task -/

/-- The task whose revision the call may raise. -/
def Op.owner (s : TaskStore) : Op → Option TaskId
  | .invalidateEvidence evidenceId =>
    (s.evidence.find? (·.evidenceId = evidenceId)).bind fun e => s.taskIdForObligation e.obligationId
  | .markApplicabilityUnresolved obligationId => s.taskIdForObligation obligationId
  | op => op.framed

/-- The call completes a running task that is not eligible, and leaves it waiting. -/
def Op.flips (s : TaskStore) : Op → Prop
  | .completeIfEligible _ t => s.lifecycleOf t = some .running ∧ s.CompletionOpen t
  | _ => False

/-- If the call commits, it raises a listed task above the session's greatest revision. -/
def Rises (s : TaskStore) (sessionId : SessionId) (op : Op) : Prop :=
  ¬ op.flips s ∧ ∃ t row, op.owner s = some t ∧ s.Lists sessionId t row ∧
    row.revision = s.sessionGeneration sessionId ∧ op.raises row.lifecycle = true

/-- What the call writes of the listed tasks is not listed of them. -/
structure Unseen (s : TaskStore) (sessionId : SessionId) (op : Op) : Prop where
  creates : ∀ t criterionId commandId params, op = .createTask t criterionId commandId params →
    params.sessionId = sessionId → s.receipt commandId ≠ none
  raises : ∀ t row, s.Lists sessionId t row → op.framed = some t → op.raises row.lifecycle = false
  plans : ∀ t row, s.Lists sessionId t row → op.writesPlan t →
    row.lifecycle = .running ∧ row.revision = s.sessionGeneration sessionId
  counts : ∀ t row, s.Lists sessionId t row → op.recounts s t →
    row.lifecycle ≠ .blocked ∧ op.raises row.lifecycle = false

/-- A call after which the list reads as before or under a greater generation. -/
def Stamps (s : TaskStore) (sessionId : SessionId) (op : Op) : Prop :=
  Rises s sessionId op ∨ Unseen s sessionId op

/-! ## Untouched tasks -/

theorem view_of_ne (hop : op.framed = some taskId ∨ op.writesPlan taskId) (hu : u ≠ taskId) :
    (s.perform op).1.view u = s.view u := by
  obtain ⟨m, hm, hstep⟩ := perform_moves s op u
  suffices m = .stay by
    subst this
    exact hstep
  cases op <;> cases m <;> first
    | rfl
    | exact hm.elim
    | (rcases hop with hop | hop <;> cases hop <;> first
        | exact absurd hm.symm hu
        | exact absurd hm.1.symm hu)

theorem alike_of_turns {raised : Bool} (h : Turns taskId raised s (s.perform op).1)
    (hop : op.framed = some taskId ∨ op.writesPlan taskId) (hu : u ≠ taskId) :
    Alike s (s.perform op).1 u := by
  refine .of_view (h.others u hu) (view_of_ne hop hu) fun _ _ _ => ⟨?_, ?_⟩
  · rw [unresolvedObligations, obligationsOf, h.obligations]
    rfl
  · rw [unknownAttempts, h.attempts]
    rfl

/-! ## Foreign blocks -/

/-- An obligation of the owner goes unresolved, and its row is blocked. -/
structure BlocksOwner (s : TaskStore) (op : Op) (t : TaskId) (s' : TaskStore) : Prop where
  owner : op.owner s = some t
  rowids : s'.rowids = s.rowids
  own : ∀ row, s.tasks t = some row → row.lifecycle ≠ .cancelled → ∃ row', s'.tasks t = some row' ∧
    row'.sessionId = row.sessionId ∧ row.revision < row'.revision
  others : ∀ u, ¬ op.recounts s u → Alike s s' u

theorem blocksOwner {s1 s2 : TaskStore} {obligationId : String}
    (howner : op.owner s = some taskId)
    (howes : s.taskIdForObligation obligationId = some taskId)
    (hrecounts : ∀ u, s.Owes obligationId u → op.recounts s u)
    (h : Records (s.Owes obligationId) s s1) (h2 : s2 = s1 ∨ s2 = s1.unresolvePlanRows taskId) :
    BlocksOwner s op taskId ((s2.blockTaskNotCancelled taskId).clearPlanBlock taskId) := by
  have hblock : Changes taskId (Step .block) s2
      ((s2.blockTaskNotCancelled taskId).clearPlanBlock taskId) :=
    blockForeign_changes cancelled_isTerminal rfl
  have hview : ∀ u, u ≠ taskId → s2.view u = s.view u := by
    intro u hu
    rcases h2 with rfl | rfl
    · exact h.view u
    · exact ((updatePlanRows_changes _ _).1 u hu).trans (h.view u)
  have hrest : s2.tasks = s.tasks ∧ s2.rowids = s.rowids ∧ s2.obligations = s1.obligations ∧
      s2.attempts = s1.attempts := by
    obtain ⟨_, _, _, _, _, rfl⟩ := h.rest
    rcases h2 with rfl | rfl <;> exact ⟨rfl, rfl, rfl, rfl⟩
  obtain ⟨ht, hr, ho, ha⟩ := hrest
  refine ⟨howner, hr, fun row hrow hlive => ?_, fun u hu => ?_⟩
  · have hrow2 : s2.tasks taskId = some row := by rw [ht, hrow]
    refine ⟨_, updateTask_task hrow2 _, ?_⟩
    simp [hlive]
  · have hne : u ≠ taskId := by
      rintro rfl
      exact hu (hrecounts u (taskIdForObligation_some howes))
    refine .of_view ((updateTask_tasks_of_ne _ hne).trans (by rw [ht]))
      ((hblock.1 u hne).trans (hview u hne)) fun _ _ _ => ⟨?_, ?_⟩
    · rw [← h.unresolved u fun h => hu (hrecounts u h), unresolvedObligations, obligationsOf, unresolvedObligations,
        obligationsOf, ← ho]
      rfl
    · rw [← h.unknown u fun h => hu (hrecounts u h), unknownAttempts, unknownAttempts, ← ha]
      rfl

theorem invalidateEvidence_blocksOwner (evidenceId : String) :
    Within Refuses (fun r => ∃ t, BlocksOwner s (.invalidateEvidence evidenceId) t r.1)
      (s.invalidateEvidence evidenceId) := by
  apply Within.look
  intro e he
  apply Within.look
  intro t ht
  have hdoubt : Records (s.Owes e.obligationId) s ({ s with
      evidence := s.evidence.map fun e : EvidenceRow =>
        if e.evidenceId = evidenceId then { e with validity := .stale } else e }.staleObligation
      e.obligationId) := doubt_records _ fun _ => rfl
  refine ⟨t, blocksOwner (by simp [Op.owner, he, ht]) ht (fun u hu => ?_) hdoubt (.inl rfl)⟩
  exact ⟨e, mem_of_find?_eq_some he, by simpa using find?_some he, hu⟩

theorem markApplicabilityUnresolved_blocksOwner (obligationId : String) :
    Within Refuses (fun r => r.1 = s ∨
      ∃ t, BlocksOwner s (.markApplicabilityUnresolved obligationId) t r.1)
      (s.markApplicabilityUnresolved obligationId) := by
  unfold markApplicabilityUnresolved
  split
  · exact .inl rfl
  · apply Within.look
    intro t ht
    have hdoubt : Records (s.Owes obligationId) s (s.unresolvedApplicability obligationId) :=
      doubt_records _ fun _ => rfl
    exact .inr ⟨t, blocksOwner ht ht (fun _ hu => hu) hdoubt (.inr rfl)⟩

/-- The calls that put an obligation in doubt. -/
def Op.doubts : Op → Bool
  | .invalidateEvidence _ | .markApplicabilityUnresolved _ => true
  | _ => false

theorem perform_blocksOwner (hop : op.doubts = true) :
    (s.perform op).1 = s ∨ ∃ t, BlocksOwner s op t (s.perform op).1 := by
  cases op with
  | invalidateEvidence =>
    apply commit_within (P := fun s' => s' = s ∨ ∃ t, BlocksOwner s _ t s') (.inl rfl)
    exact Within.map_fst ((invalidateEvidence_blocksOwner _).imp fun _ => .inr)
  | markApplicabilityUnresolved =>
    apply commit_within (P := fun s' => s' = s ∨ ∃ t, BlocksOwner s _ t s') (.inl rfl)
    exact Within.map_fst (markApplicabilityUnresolved_blocksOwner _)
  | _ => cases hop

/-! ## Calls -/

/-- No row is added, and a task that the call does not touch is listed as before. -/
structure Spared (s : TaskStore) (op : Op) (s' : TaskStore) : Prop where
  rowids : s'.rowids = s.rowids
  alike : ∀ u, op.framed ≠ some u → ¬ op.writesPlan u → ¬ op.recounts s u → Alike s s' u

theorem turns_of_writesPlan (hop : op.writesPlan taskId) :
    Turns taskId false s (s.perform op).1 := by
  have F := frame_turns taskId
  cases op with
  | recordPlanSelection =>
    obtain rfl := hop
    apply F.commit
    apply Within.map_fst
    exact F.recordPlanSelection (fun _ _ => .of_tasks rfl rfl rfl rfl)
      (fun _ _ => .of_tasks rfl rfl rfl rfl) _ _
  | updatePlanRow | recordPlanRevision | recordPlanAssessment | holdForPlanGate
  | markPlanApplicabilityUnresolved =>
    obtain rfl := hop
    exact F.perform rfl (Op.rowsWithin_keepsRow _)
  | _ => exact hop.elim

theorem spared_of_turns (h : Turns taskId false s (s.perform op).1)
    (hop : op.framed = some taskId ∨ op.writesPlan taskId) : Spared s op (s.perform op).1 := by
  refine ⟨h.rowids, fun u hframed hplan _ => alike_of_turns h hop ?_⟩
  rintro rfl
  exact hop.elim hframed hplan

theorem spared_of_records (hop : op.recordsOnly = true) : Spared s op (s.perform op).1 := by
  have h := (perform_records (s := s) hop).1
  obtain ⟨_, _, _, _, _, hs'⟩ := h.rest
  exact ⟨by rw [hs'], fun u _ _ hu => .of_view (by rw [hs']) (h.view u)
    fun _ _ _ => ⟨h.unresolved u hu, h.unknown u hu⟩⟩

theorem spared_of_doubts (hop : op.doubts = true) : Spared s op (s.perform op).1 := by
  rcases perform_blocksOwner hop with hsame | ⟨t, hblocks⟩
  · rw [hsame]
    exact ⟨rfl, fun _ _ _ _ => .of_view rfl rfl fun _ _ _ => ⟨rfl, rfl⟩⟩
  · exact ⟨hblocks.rowids, fun u _ _ hu => hblocks.others u hu⟩

theorem perform_spared (hop : ∀ t criterionId commandId params,
      op ≠ .createTask t criterionId commandId params) : Spared s op (s.perform op).1 := by
  cases op with
  | createTask => exact absurd rfl (hop _ _ _ _)
  | materializeObligations | planAttempt | setAttemptState | insertEvidence
  | insertEvidenceForTask | deleteScopedRecord => exact spared_of_records rfl
  | recordPlanSelection => exact spared_of_turns (turns_of_writesPlan rfl) (.inr rfl)
  | invalidateEvidence | markApplicabilityUnresolved =>
    exact spared_of_doubts rfl
  | _ =>
    exact spared_of_turns ((frame_turns _).perform rfl (Op.rowsWithin_keepsRow _)) (.inl rfl)

/-! ## Touched tasks -/

theorem updateTask_same {row : TaskRow} {f : TaskRow → TaskRow} (hrow : s.tasks taskId = some row)
    (hf : f row = row) : s.updateTask taskId f = s := by
  have htasks : Function.update s.tasks taskId ((s.tasks taskId).map f) = s.tasks := by
    rw [hrow, map_some, hf, ← hrow, Function.update_eq_self]
  rw [updateTask, htasks]

theorem alike_of_framed {row : TaskRow} (hrow : s.tasks u = some row) (hop : op.framed = some u)
    (hplan : ¬ op.writesPlan u) (hraises : op.raises row.lifecycle = false) :
    Alike s (s.perform op).1 u := by
  have hterminal : row.lifecycle.isTerminal → ∀ r, s.tasks u = some r →
      r.lifecycle.projectsPlan = false := by
    intro hl r hr
    obtain rfl := mem_unique hrow hr
    cases h : row.lifecycle <;> simp_all [Lifecycle.isTerminal, Lifecycle.projectsPlan]
  cases op with
  | recordDeniedAttempt => exact .of_view rfl rfl fun _ _ _ => ⟨rfl, rfl⟩
  | pauseForWorkflowOff =>
    cases hop
    have hidle : ¬ (row.lifecycle = .running ∨ row.lifecycle = .waiting) := of_decide_eq_false hraises
    simp only [perform, TaskStore.pauseForWorkflowOff, hrow, found_some, ok_bind, if_neg hidle]
    exact .of_view rfl rfl fun _ _ _ => ⟨rfl, rfl⟩
  | cancelTask sessionId t intent reason origin =>
    cases hop
    have hl : row.lifecycle.isTerminal := by simpa [Op.raises] using hraises
    refine .of_quiet ?_ (hterminal hl)
    have h : (s.perform (.cancelTask sessionId u intent reason origin)).1.tasks = s.tasks := by
      apply commit_within (P := fun s' : TaskStore => s'.tasks = s.tasks) rfl
      apply Within.map_fst
      exact ((frame_turns u).cancelTaskWithOrigin _ _ _ _).imp fun _ h => by
        simpa [hl] using h.2 row hrow
    rw [h]
  | markOutcomeUnknown | markNoReady =>
    cases hop
    have hl : row.lifecycle.isTerminal := by simpa [Op.raises] using hraises
    refine .of_quiet ?_ (hterminal hl)
    have h : s.blockTaskOpen u = s := updateTask_same hrow (if_neg (by simp [hl]))
    simp only [perform, markOutcomeUnknown, markNoReady, blockForeignOpen, h]
    rfl
  | updatePlanRow | recordPlanRevision | recordPlanAssessment | holdForPlanGate
  | markPlanApplicabilityUnresolved => exact absurd (some.inj hop) hplan
  | publishQuestion | publishPlanFork | answerQuestion | steerTask | completeIfEligible =>
    cases hraises
  | _ => cases hop

theorem lifecycle_of_writesPlan {m : Move} {v v' : TaskView} (hm : m = .stay ∨ WritesPlan m)
    (h : Step m v v') (hl : v.lifecycle = some .running) :
    v'.lifecycle = some .running ∨ v'.lifecycle = some .blocked := by
  rcases hm with rfl | hm
  · rw [show v' = v from h]
    exact .inl hl
  obtain ⟨-, v1, _, _, _, _, hdrops, hset⟩ := settles_of_writesPlan hm h
  have hl1 : v1.lifecycle = some .running := by
    cases hdrops with
    | keeps => exact hl
    | drops => simp [hl, moved]
  cases hset with
  | blocks => exact .inr rfl
  | releases hblocked => cases hl1.symm.trans hblocked
  | stays => exact .inl hl1

theorem alike_of_plan {row : TaskRow} (hrow : s.tasks u = some row) (hop : op.writesPlan u)
    (hl : row.lifecycle = .running) : Alike s (s.perform op).1 u ∨
      ∃ row', (s.perform op).1.tasks u = some row' ∧ row'.sessionId = row.sessionId ∧
        row.revision < row'.revision := by
  obtain ⟨row', hrow', hlater, -⟩ := (turns_of_writesPlan (s := s) hop).own row hrow
  rcases hlater.revision.lt_or_eq with hlt | heq
  · exact .inr ⟨row', hrow', hlater.session, hlt⟩
  left
  obtain ⟨m, hmakes, hstep⟩ := perform_moves s op u
  obtain ⟨hsame, hblocked⟩ := hlater.flips heq.symm
  have hl' : row'.lifecycle = .running := by
    rcases lifecycle_of_writesPlan (writesPlan_cases hop hmakes) hstep (view_lifecycle hrow hl)
      with h | h
    · rw [view_lifecycle hrow' rfl] at h
      exact some.inj h
    · rw [view_lifecycle hrow' rfl] at h
      exact absurd (hl.symm.trans (hblocked (some.inj h))) nofun
  rw [hl', ← hl] at hsame
  refine .of_quiet (by rw [hrow', hsame, hrow]) fun r hr => ?_
  obtain rfl := mem_unique hrow hr
  rw [hl]
  rfl

theorem alike_of_recounts {row : TaskRow} (hrow : s.tasks u = some row) (hop : op.recounts s u)
    (hblocked : row.lifecycle ≠ .blocked) (hraises : op.raises row.lifecycle = false) :
    Alike s (s.perform op).1 u := by
  cases op with
  | setAttemptState attemptId state detail =>
    have h := (@perform_records s (.setAttemptState attemptId state detail) rfl).1
    obtain ⟨_, _, _, _, _, hs'⟩ := h.rest
    refine .of_view (by rw [hs']) (h.view u) fun r hr hl => absurd hl ?_
    obtain rfl := mem_unique hrow hr
    exact hblocked
  | invalidateEvidence | markApplicabilityUnresolved =>
    have hl : row.lifecycle = .cancelled := by simpa [Op.raises] using hraises
    obtain ⟨row', hrow', hlater⟩ := (perform_evolves s _).tasks u row hrow
    obtain rfl := hlater.cancelled hl
    refine .of_quiet (hrow'.trans hrow.symm) fun r hr => ?_
    obtain rfl := mem_unique hrow hr
    rw [hl]
    rfl
  | _ => exact hop.elim

/-! ## Every call -/

theorem generation_lt (hrows : Rows s) {row : TaskRow}
    (hrow : (s.perform op).1.tasks u = some row) (hsession : row.sessionId = sessionId)
    (hlt : s.sessionGeneration sessionId < row.revision) :
    s.sessionGeneration sessionId < (s.perform op).1.sessionGeneration sessionId := by
  have hrows' := hrows.evolves (perform_evolves s op)
  have hmem : (u, row) ∈ (s.perform op).1.sessionRows sessionId :=
    ((hrows'.lists sessionId).every u row).mpr ⟨hrow, hsession⟩
  exact hlt.trans_le (le_foldl_max (mem_map.mpr ⟨_, hmem, rfl⟩))

theorem Creates.listing {params : CreateParams} (h : Creates taskId params s s')
    (hs : Evolves s s') (hsession : params.sessionId ≠ sessionId) :
    s'.listing item sessionId = s.listing item sessionId := by
  have hothers := h.changes.1
  obtain ⟨habsent, -, _, _, _, rfl⟩ := h
  apply listing_of_alike hs
  · intro u row hu hrow
    have hne : u = taskId := by
      by_contra hne
      simp [Function.update_of_ne hne, hu] at hrow
    subst hne
    simp only [Function.update_self, some.injEq] at hrow
    exact hrow ▸ hsession
  · rintro u row ⟨hrow, -⟩
    have hne : u ≠ taskId := by
      rintro rfl
      simp [habsent] at hrow
    exact .of_view (Function.update_of_ne hne _ _) (hothers u hne) fun _ _ _ => ⟨rfl, rfl⟩

theorem unseen_listing (hrows : Rows s) (h : Unseen s sessionId op) :
    (s.perform op).1.listing item sessionId = s.listing item sessionId ∨
      s.sessionGeneration sessionId < (s.perform op).1.sessionGeneration sessionId := by
  by_cases hraised : s.sessionGeneration sessionId < (s.perform op).1.sessionGeneration sessionId
  · exact .inr hraised
  left
  have hs := perform_evolves s op
  by_cases hop : ∃ t criterionId commandId params, op = .createTask t criterionId commandId params
  · obtain ⟨t, criterionId, commandId, params, rfl⟩ := hop
    have hcreates : (s.perform (.createTask t criterionId commandId params)).1 = s ∨
        s.receipt commandId = none ∧
          Creates t params s (s.perform (.createTask t criterionId commandId params)).1 :=
      commit_within (P := fun s' => s' = s ∨ s.receipt commandId = none ∧ Creates t params s s')
        (.inl rfl) (Within.map_fst (createTask_creates _ _ _))
    rcases hcreates with hsame | ⟨hreceipt, hcreates⟩
    · rw [hsame]
    · exact hcreates.listing hs fun hsession => h.creates _ _ _ _ rfl hsession hreceipt
  have hspared : Spared s op (s.perform op).1 :=
    perform_spared fun t c i p he => hop ⟨t, c, i, p, he⟩
  have hrows' := hrows.evolves hs
  apply listing_of_alike hs
  · intro u row hu hrow
    have hmem := (hrows'.present u).mpr (by simp [hrow])
    rw [hspared.rowids] at hmem
    exact absurd hu ((hrows.present u).mp hmem)
  intro u row hlists
  by_cases hplan : op.writesPlan u
  · obtain ⟨hl, htop⟩ := h.plans u row hlists hplan
    rcases alike_of_plan hlists.1 hplan hl with halike | ⟨row', hrow', hsession, hlt⟩
    · exact halike
    · exact absurd (generation_lt hrows hrow' (hsession.trans hlists.2) (htop ▸ hlt)) hraised
  by_cases hframed : op.framed = some u
  · exact alike_of_framed hlists.1 hframed hplan (h.raises u row hlists hframed)
  by_cases hcounts : op.recounts s u
  · obtain ⟨hblocked, hlow⟩ := h.counts u row hlists hcounts
    exact alike_of_recounts hlists.1 hcounts hblocked hlow
  · exact hspared.alike u hframed hplan hcounts

/-- A call about a task that is refused leaves the list alone, unless it flips the task. -/
theorem refused_listing {t : TaskId} (howner : op.owner s = some t) (hflips : ¬ op.flips s)
    (hrefused : (s.perform op).2 ≠ .ok ()) :
    (s.perform op).1.listing item sessionId = s.listing item sessionId := by
  have hcommit : ∀ body : Except StoreError TaskStore, (s.commit body).2 ≠ .ok () →
      (s.commit body).1.listing item sessionId = s.listing item sessionId := by
    intro body hbody
    cases body with
    | ok s' => exact absurd rfl hbody
    | error e => rfl
  cases op with
  | answerQuestion sessionId' t' questionId questionRevision selection author =>
    simp only [perform, answerQuestion] at hrefused ⊢
    split at hrefused
    · exact absurd rfl hrefused
    · rfl
  | completeIfEligible sessionId' t' =>
    simp only [perform, completeIfEligible] at hrefused ⊢
    split at hrefused
    · rfl
    next task htask =>
    split at hrefused
    · rw [if_pos ‹_›]
    · rw [if_neg ‹_›]
      split at hrefused
      · next hopen =>
        have hidle : task.lifecycle ≠ .running := fun hl =>
          hflips ⟨lifecycleOf_eq_some.mpr ⟨task, htask, hl⟩, hopen⟩
        have hsame : s.pauseRunningTask t' = s := updateTask_same htask (if_neg hidle)
        rw [if_pos hopen, hsame]
      · rw [if_neg ‹_›]
        split at hrefused
        · exact absurd rfl hrefused
        · rfl
  | recordDeniedAttempt | markOutcomeUnknown | markNoReady => exact absurd rfl hrefused
  | createTask | materializeObligations | planAttempt | setAttemptState | insertEvidence
  | insertEvidenceForTask | deleteScopedRecord | recordPlanSelection => cases howner
  | _ => exact hcommit _ hrefused

theorem rises_listing (hrows : Rows s) (h : Rises s sessionId op) :
    (s.perform op).1.listing item sessionId = s.listing item sessionId ∨
      s.sessionGeneration sessionId < (s.perform op).1.sessionGeneration sessionId := by
  obtain ⟨hflips, t, row, howner, ⟨hrow, hsession⟩, htop, hraises⟩ := h
  by_cases hok : (s.perform op).2 = .ok ()
  · by_cases hdoubts : op.doubts = true
    · rcases perform_blocksOwner (s := s) hdoubts with hsame | ⟨t', hblocks⟩
      · rw [hsame]
        exact .inl rfl
      · right
        obtain rfl := mem_unique howner hblocks.owner
        obtain ⟨row', hrow', hsession', hlt⟩ := hblocks.own row hrow (by
          cases op <;> first | exact of_decide_eq_true hraises | cases hdoubts)
        exact generation_lt hrows hrow' (hsession'.trans hsession) (htop ▸ hlt)
    · right
      have hframed : op.framed = some t := by
        cases op <;> first | exact howner | exact absurd rfl hdoubts
      obtain ⟨row', hrow', hlater, hlt⟩ := ((frame_turns t).raises hrow hframed
        (Op.rowsWithin_keepsRow _) hraises hok).own row hrow
      exact generation_lt hrows hrow' (hlater.session.trans hsession) (htop ▸ hlt rfl)
  · exact .inl (refused_listing howner hflips hok)

theorem stamps_listing (hrows : Rows s) (h : Stamps s sessionId op) :
    (s.perform op).1.listing item sessionId = s.listing item sessionId ∨
      s.sessionGeneration sessionId < (s.perform op).1.sessionGeneration sessionId :=
  h.elim (rises_listing hrows) (unseen_listing hrows)

end TaskStore

end Rivect
