import Rivect.Supervision.Bounds

/-! # Progress signals

An observation with a progress signal is useful, except for a waiting task whose grace is spent:
there the signals are not read.
-/

namespace Rivect.Supervision

open Lib List

/-! ## A cut run reaches the same caps -/

theorem takeWhile_take {α : Type*} (p : α → Bool) (n : ℕ) (l : List α) :
    (l.take n).takeWhile p = (l.takeWhile p).take n := by
  induction l generalizing n with
  | nil => simp
  | cons a l ih =>
    cases n with
    | zero => simp
    | succ n =>
      rw [take_succ_cons]
      by_cases ha : p a = true
      · rw [takeWhile_cons_of_pos ha, takeWhile_cons_of_pos ha, take_succ_cons, ih]
      · rw [takeWhile_cons_of_neg ha, takeWhile_cons_of_neg ha, take_nil]

theorem length_takeWhile_take {α : Type*} (p : α → Bool) (n : ℕ) (l : List α) :
    ((l.take n).takeWhile p).length = min n (l.takeWhile p).length := by
  rw [takeWhile_take, length_take]

theorem zipIdx_take {α : Type*} (n : ℕ) (l : List α) : (l.take n).zipIdx = l.zipIdx.take n := by
  apply ext_getElem?
  intro i
  rw [getElem?_zipIdx, getElem?_take, getElem?_take, getElem?_zipIdx]
  split <;> rfl

theorem trailingAlternations_take {n : ℕ} (hn : 2 ≤ n) (run : List Sample) :
    trailingAlternations (run.take n) = min n (trailingAlternations run) := by
  obtain ⟨n, rfl⟩ := Nat.exists_eq_add_of_le' hn
  cases run with
  | nil => simp [trailingAlternations]
  | cons first run =>
    cases run with
    | nil => simp [trailingAlternations]
    | cons second rest =>
      have htake : (first :: second :: rest).take (n + 2) = first :: second :: rest.take n := rfl
      rw [htake, trailingAlternations, trailingAlternations]
      split
      · simp
      · rw [← htake, zipIdx_take, length_takeWhile_take]

theorem stalls_take {t : ClassThresholds} (h : t.Accepted) (run : List Sample) :
    Stalls t (run.take t.window) ↔ Stalls t run := by
  have hwindow : 2 ≤ t.window := Nat.le_trans h.pair h.pingPong_le
  have hhead : (run.take t.window).head? = run.head? := by
    rw [head?_take, if_neg (by omega)]
  unfold Stalls exactCount fuzzyCount
  simp only [hhead, length_takeWhile_take, trailingAlternations_take hwindow, length_take,
    Nat.le_min, h.exact_le, h.fuzzy_le, h.pingPong_le, h.noProgress_le, true_and]

theorem sterileRun_pushed (t : ClassThresholds) (window : List Sample) (sample : Sample) :
    sterileRun (TaskWatch.pushed t window sample) =
      ((sample :: window.reverse).takeWhile fun sample => !sample.useful).take t.window := by
  unfold sterileRun TaskWatch.pushed
  rw [reverse_drop, reverse_append, reverse_singleton, singleton_append,
    takeWhile_take]
  by_cases hlength : t.window ≤ (window ++ [sample]).length
  · rw [Nat.sub_sub_self hlength]
  · have hrun : ((sample :: window.reverse).takeWhile fun sample => !sample.useful).length ≤
        (window ++ [sample]).length := by
      have := (takeWhile_sublist (fun sample : Sample => !sample.useful)
        (l := sample :: window.reverse)).length_le
      simpa using this
    rw [take_of_length_le (by omega), take_of_length_le (by omega)]

theorem stalls_pushed {t : ClassThresholds} (h : t.Accepted) (window : List Sample)
    (sample : Sample) : Stalls t (sterileRun (TaskWatch.pushed t window sample)) ↔
      sample.useful = false ∧ Stalls t (sample :: sterileRun window) := by
  rw [sterileRun_pushed, stalls_take h]
  cases huseful : sample.useful with
  | true =>
    rw [takeWhile_cons_of_neg (by simp [huseful])]
    simp [Stalls]
  | false =>
    rw [takeWhile_cons_of_pos (by simp [huseful])]
    simp [sterileRun]

namespace Supervisor

/-- The task waits and has used up the grace of the class. -/
def GraceSpent (s : Supervisor) (scheduler : Scheduler) (observation : Observation) : Prop :=
  waiting scheduler observation.task = true ∧
    (s.policy.forClass observation.operationClass).noProgress ≤
      (s.watchOf observation.task).waitingGrace

/-- The task does not cool down, and its sterile run with one more such sample reaches a cap. -/
def Due (s : Supervisor) (observation : Observation) : Prop :=
  (s.watchOf observation.task).cooldown = 0 ∧
    Stalls (s.policy.forClass observation.operationClass)
      (⟨observation.signature, false⟩ ::
        sterileRun ((s.watchOf observation.task).windows observation.operationClass))

/-- In every history an observation with a progress signal is answered with no reaction, unless
the grace of its waiting task is spent and a reaction is due. -/
theorem progress_heard {policy : SupervisorPolicy} {s0 s : Supervisor} {events : List Event}
    (hnew : Supervisor.new policy = .ok s0) (hrun : Run Step s0 events s) (scheduler : Scheduler)
    (observation : Observation) (hprogress : observation.carriesProgress = true) :
    ∃ s' reaction, s.observe scheduler observation = .ok (s', reaction) ∧
      (reaction = none ↔ ¬ (s.GraceSpent scheduler observation ∧ s.Due observation)) := by
  have h := (kept_new hnew).run hrun
  obtain ⟨s', reaction, hobserve, hstepped⟩ := h.observe scheduler observation
  obtain ⟨w, -, hobserved⟩ := hstepped.own
  refine ⟨s', reaction, hobserve, ?_⟩
  have haccepted : (s.policy.forClass observation.operationClass).Accepted :=
    h.policy_eq ▸ h.accepted _
  have hsterile : ((s.watchOf observation.task).weigh
      (s.policy.forClass observation.operationClass) (waiting scheduler observation.task)
      observation).1 = false ↔ s.GraceSpent scheduler observation := by
    unfold TaskWatch.weigh GraceSpent
    cases waiting scheduler observation.task with
    | false => simp [hprogress]
    | true => by_cases hgrace : (s.policy.forClass observation.operationClass).noProgress ≤
        (s.watchOf observation.task).waitingGrace <;> simp [hgrace]
  rw [hobserved.none_iff, hobserved.windows, TaskWatch.record_windows, stalls_pushed haccepted,
    hsterile]
  unfold Due
  by_cases hspent : s.GraceSpent scheduler observation
  · rw [hsterile.mpr hspent]
    simp only [hspent, true_and, not_and]
    by_cases hcooldown : (s.watchOf observation.task).cooldown = 0
    · simp [hcooldown]
    · simp [hcooldown, Nat.pos_of_ne_zero hcooldown]
  · simp [hspent]

/-- A scheduler whose one node waits. -/
def oneWaiting : Scheduler :=
  { Scheduler.new 1 1 with
    nodes := [⟨⟨"task"⟩, .custom "", "grant", none, [], 0, 1, .waiting⟩]
    byTask := [(⟨"task"⟩, 0)] }

/-- A failed read of the task with a heartbeat. -/
def beating : Observation :=
  (Observation.failure ⟨"task"⟩ .read "read_file" "/scope/a" "denied").withHeartbeat

def fresh : Supervisor := ⟨.default, ∅, []⟩

/-- Eight waiting observations use up the grace; the third after them is an exact repeat. -/
theorem beating_answers : fresh.answers (List.replicate 10 (oneWaiting, beating) ++
    [(oneWaiting, beating)]) = .ok (List.replicate 10 none ++
      [some ⟨⟨"task"⟩, .read, .exactRepeat beating.signature 3, SupervisorPolicy.default.read⟩]) := by
  decide +kernel

theorem heartbeat_stalls : ¬ ∀ policy s0 events s, Supervisor.new policy = .ok s0 →
    Run Step s0 events s → ∀ scheduler observation, observation.carriesProgress = true →
      ∀ s' reaction, s.observe scheduler observation = .ok (s', reaction) → reaction = none := by
  intro hclaim
  obtain ⟨events, a, b, hrun, hobserve⟩ := run_of_answers beating_answers rfl
  have hnone := hclaim .default fresh events a rfl hrun _ _ rfl b _ hobserve
  cases hnone

/-- The heartbeat that is not heard comes with the grace spent and a reaction due. -/
theorem progress_heard_waiting : ∃ (s s' : Supervisor) (reaction : Reaction),
    s.observe oneWaiting beating = .ok (s', some reaction) ∧ s.GraceSpent oneWaiting beating ∧
      s.Due beating := by
  obtain ⟨events, s, s', hrun, hobserve⟩ := run_of_answers beating_answers rfl
  obtain ⟨_, _, hanswer, hiff⟩ :=
    @progress_heard .default fresh s events rfl hrun oneWaiting beating rfl
  obtain ⟨rfl, rfl⟩ := Prod.mk.inj (Except.ok.inj (hobserve.symm.trans hanswer))
  refine ⟨s, s', _, hobserve, ?_⟩
  by_contra hdue
  cases hiff.mpr hdue

end Supervisor

end Rivect.Supervision
