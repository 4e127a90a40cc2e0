import Rivect.Lib.Run
import Rivect.Supervision.Observe

/-! # What the supervisor keeps

The watches stay bounded and in step with their recency, a reaction starts a cooldown that the next
one outlasts, and a progress signal is heard unless the grace of a waiting task is spent.
-/

namespace Rivect.Supervision

open Lib List

variable {policy : SupervisorPolicy} {s : Supervisor}

/-! ## The ceiling -/

/-- What evicting at the ceiling leaves: the tail of the order, and only watches held before. -/
theorem evict_spec {task : TaskId} (order : List TaskId) (watches : Watches)
    (hperm : order.Perm watches.keys) :
    ∃ order' watches', evict (order ++ [task]) watches = (order' ++ [task], watches') ∧
      order'.Perm watches'.keys ∧ watches'.keys.length < WATCH_LIMIT ∧
      ∀ other w, watches'.lookup other = some w → watches.lookup other = some w := by
  induction order generalizing watches with
  | nil =>
    have hkeys : watches.keys = [] := hperm.nil_eq.symm
    have hroom : ¬ WATCH_LIMIT ≤ watches.keys.length := by simp [hkeys, WATCH_LIMIT]
    refine ⟨[], watches, ?_, hperm, by omega, fun _ _ h => h⟩
    rw [nil_append, evict, if_neg hroom]
  | cons oldest order ih =>
    rw [cons_append, evict]
    by_cases hfull : WATCH_LIMIT ≤ watches.keys.length
    · rw [if_pos hfull]
      have hrest : order.Perm (watches.erase oldest).keys := by
        rw [AList.keys_erase]
        exact cons_perm_iff_perm_erase.mp hperm |>.2
      obtain ⟨order', watches', hevict, hperm', hroom, hheld⟩ := ih _ hrest
      refine ⟨order', watches', hevict, hperm', hroom, fun other w hw => ?_⟩
      have hin := hheld other w hw
      by_cases hother : other = oldest
      · subst hother
        rw [AList.lookup_erase] at hin
        cases hin
      · rwa [AList.lookup_erase_ne hother] at hin
    · rw [if_neg hfull]
      exact ⟨oldest :: order, watches, rfl, hperm, by omega, fun _ _ h => h⟩

namespace Supervisor

/-- The order lists the watched tasks, and there is room for them. -/
structure Tidy (s : Supervisor) : Prop where
  order : s.order.Perm s.watches.keys
  bounded : s.watches.keys.length ≤ WATCH_LIMIT

theorem Tidy.nodup (h : s.Tidy) : s.order.Nodup :=
  h.order.nodup_iff.mpr s.watches.keys_nodup

theorem Tidy.mem_order (h : s.Tidy) (task : TaskId) :
    task ∈ s.order ↔ task ∈ s.watches := by
  rw [h.order.mem_iff, AList.mem_keys]

/-- The order and the watches after the observed task has been touched. -/
structure Touched (s : Supervisor) (task : TaskId) (order : List TaskId) (watches : Watches) :
    Prop where
  own : (watches.lookup task).getD .empty = s.watchOf task
  others : ∀ other w, watches.lookup other = some w → s.watches.lookup other = some w
  order : order.Perm (task :: watches.keys.erase task)
  bounded : (task :: watches.keys.erase task).length ≤ WATCH_LIMIT

theorem touched_touch (h : s.Tidy) (task : TaskId) :
    Touched s task (s.touch task).1 (s.touch task).2 := by
  have hfilter : s.order.filter (· ≠ task) = s.order.erase task := by
    rw [h.nodup.erase_eq_filter]
    exact filter_congr fun a _ => by simp [bne, Bool.beq_eq_decide_eq]
  have hperm : (s.order.filter (· ≠ task)).Perm (s.watches.keys.erase task) := by
    rw [hfilter]
    exact h.order.erase task
  unfold touch
  by_cases hmem : task ∈ s.watches
  · rw [if_pos hmem]
    have hlength : (task :: s.watches.keys.erase task).length = s.watches.keys.length :=
      (perm_cons_erase (AList.mem_keys.mp hmem)).length_eq.symm
    exact {
      own := rfl
      others := fun _ _ h => h
      order := (perm_append_singleton _ _).trans (hperm.cons task)
      bounded := hlength ▸ h.bounded }
  · rw [if_neg hmem]
    have hkeys : task ∉ s.watches.keys := fun hkey => hmem (AList.mem_keys.mpr hkey)
    rw [erase_of_not_mem hkeys] at hperm
    obtain ⟨order', watches', hevict, hperm', hroom, hheld⟩ := @evict_spec task _ _ hperm
    rw [hevict]
    have hnone : watches'.lookup task = none := by
      cases hlookup : watches'.lookup task with
      | none => rfl
      | some w =>
        have := hheld task w hlookup
        rw [AList.lookup_eq_none.mpr hmem] at this
        cases this
    have herase : watches'.keys.erase task = watches'.keys :=
      erase_of_not_mem fun hkey => AList.lookup_eq_none.mp hnone (AList.mem_keys.mpr hkey)
    exact {
      own := by simp only [hnone, watchOf, AList.lookup_eq_none.mpr hmem]
      others := hheld
      order := by
        rw [herase]
        exact (perm_append_singleton _ _).trans (hperm'.cons task)
      bounded := by
        rw [herase, length_cons]
        omega }

/-- What one observation does to the supervisor. -/
structure Stepped (s : Supervisor) (scheduler : Scheduler) (observation : Observation)
    (s' : Supervisor) (reaction : Option Reaction) : Prop where
  policy : s'.policy = s.policy
  own : ∃ w, s'.watches.lookup observation.task = some w ∧
    TaskWatch.Observed (s.policy.forClass observation.operationClass)
      (waiting scheduler observation.task) observation (s.watchOf observation.task) w reaction
  others : ∀ other ≠ observation.task, ∀ w, s'.watches.lookup other = some w →
    s.watches.lookup other = some w
  tidy : s'.Tidy

theorem observe_spec (h : s.Tidy)
    (hpolicy : ∀ c, (s.policy.forClass c).Accepted) (scheduler : Scheduler)
    (observation : Observation) :
    ∃ s' reaction, s.observe scheduler observation = .ok (s', reaction) ∧
      s.Stepped scheduler observation s' reaction := by
  have htouched := touched_touch h observation.task
  unfold observe
  generalize s.touch observation.task = touched at htouched
  obtain ⟨order, watches⟩ := touched
  obtain ⟨hown, hothers, horder, hbounded⟩ := htouched
  dsimp only at hown hothers horder hbounded ⊢
  obtain ⟨w, reaction, hobserve, hobserved⟩ := TaskWatch.observe_spec
    (hpolicy observation.operationClass) (s.watchOf observation.task)
    (waiting scheduler observation.task) observation
  rw [hown, hobserve]
  refine ⟨_, reaction, rfl, ?_⟩
  exact {
    policy := rfl
    own := ⟨w, AList.lookup_insert _, hobserved⟩
    others := fun other hother w' hw' => by
      rw [AList.lookup_insert_ne hother] at hw'
      exact hothers other w' hw'
    tidy := ⟨by rw [AList.keys_insert]; exact horder, by rw [AList.keys_insert]; exact hbounded⟩ }

/-- One call of `observe` and its answer. -/
structure Event where
  scheduler : Scheduler
  observation : Observation
  reaction : Option Reaction

def Step (s : Supervisor) (e : Event) (s' : Supervisor) : Prop :=
  s.observe e.scheduler e.observation = .ok (s', e.reaction)

/-- What every history keeps. -/
structure Kept (policy : SupervisorPolicy) (s : Supervisor) : Prop where
  policy_eq : s.policy = policy
  accepted : ∀ c, (policy.forClass c).Accepted
  tidy : s.Tidy
  windows : ∀ task w, s.watches.lookup task = some w →
    ∀ c, (w.windows c).length ≤ (policy.forClass c).window

theorem kept_new (h : Supervisor.new policy = .ok s) :
    Kept policy s := by
  unfold Supervisor.new at h
  cases hread : policy.read.validate with
  | error fault => simp [hread, Except.mapError, bind, Except.bind] at h
  | ok _ =>
    cases htest : policy.test.validate with
    | error fault => simp [hread, htest, Except.mapError, bind, Except.bind] at h
    | ok _ =>
      cases hretrieve : policy.retrieve.validate with
      | error fault => simp [hread, htest, hretrieve, Except.mapError, bind, Except.bind] at h
      | ok _ =>
        simp only [hread, htest, hretrieve, Except.mapError, bind, Except.bind, pure, Except.pure,
          Except.ok.injEq] at h
        subst h
        exact {
          policy_eq := rfl
          accepted := fun c => by
            cases c with
            | read => exact (ClassThresholds.validate_eq_ok _).mp hread
            | test => exact (ClassThresholds.validate_eq_ok _).mp htest
            | retrieve => exact (ClassThresholds.validate_eq_ok _).mp hretrieve
          tidy := ⟨Perm.refl _, Nat.zero_le _⟩
          windows := fun task w hw => by
            rw [AList.lookup_empty] at hw
            cases hw }

theorem Kept.windows_watchOf (h : Kept policy s) (task : TaskId) (c : OperationClass) :
    ((s.watchOf task).windows c).length ≤ (policy.forClass c).window := by
  unfold watchOf
  cases hlookup : s.watches.lookup task with
  | none => exact Nat.zero_le _
  | some w => exact h.windows task w hlookup c

theorem Kept.step {s s' : Supervisor} {scheduler : Scheduler}
    {observation : Observation} {reaction : Option Reaction} (h : Kept policy s)
    (hstep : s.Stepped scheduler observation s' reaction) : Kept policy s' where
  policy_eq := hstep.policy.trans h.policy_eq
  accepted := h.accepted
  tidy := hstep.tidy
  windows task w hw c := by
    by_cases htask : task = observation.task
    · subst htask
      obtain ⟨w', hw', hobserved⟩ := hstep.own
      obtain rfl : w' = w := Option.mem_unique hw' hw
      rw [hobserved.windows]
      by_cases hclass : c = observation.operationClass
      · subst hclass
        rw [TaskWatch.record_windows, h.policy_eq]
        exact TaskWatch.length_pushed _ _
      · rw [TaskWatch.record_windows_of_ne hclass]
        exact h.windows_watchOf _ c
    · exact h.windows task w (hstep.others task htask w hw) c

theorem Kept.observe (h : Kept policy s) (scheduler : Scheduler) (observation : Observation) :
    ∃ s' reaction, s.observe scheduler observation = .ok (s', reaction) ∧
      s.Stepped scheduler observation s' reaction :=
  observe_spec h.tidy (h.policy_eq ▸ h.accepted) scheduler observation

theorem Kept.stepped {s s' : Supervisor} {e : Event} (h : Kept policy s) (hstep : s.Step e s') :
    s.Stepped e.scheduler e.observation s' e.reaction := by
  obtain ⟨t, reaction, hobserve, hstepped⟩ := h.observe e.scheduler e.observation
  unfold Step at hstep
  rw [hobserve] at hstep
  obtain ⟨rfl, rfl⟩ := Prod.mk.inj (Except.ok.inj hstep)
  exact hstepped

theorem Kept.run {s s' : Supervisor} {events : List Event}
    (h : Kept policy s) (hrun : Run Step s events s') : Kept policy s' :=
  hrun.invariant (fun _ _ _ hkept hstep => hkept.step (hkept.stepped hstep)) h

/-! ## Cooldown -/

/-- How many of the events observe the task. -/
def observations (task : TaskId) (events : List Event) : ℕ :=
  events.countP fun e => e.observation.task = task

/-- While the task keeps its watch, its cooldown is spent by its own observations alone. -/
theorem cooldown_run {task : TaskId} {a b : Supervisor}
    {events : List Event} (hkept : Kept policy a) (hrun : Run Step a events b)
    (hwatched : ∀ pre post s, events = pre ++ post → Run Step a pre s → task ∈ s.watches)
    (hfew : observations task events < (a.watchOf task).cooldown) :
    (b.watchOf task).cooldown + observations task events = (a.watchOf task).cooldown := by
  induction hrun with
  | nil => rfl
  | @cons a s b e events hstep hrest ih =>
    have hstepped := hkept.stepped hstep
    have hnext := ih (hkept.step hstepped) fun pre post x hsplit hpre =>
      hwatched (e :: pre) post x (by rw [hsplit]; rfl) (.cons hstep hpre)
    have hmem := hwatched [e] events s rfl (.single hstep)
    unfold observations at hfew hnext ⊢
    by_cases htask : e.observation.task = task
    · rw [countP_cons_of_pos (by simpa using htask)] at hfew ⊢
      obtain ⟨w, hw, hobserved⟩ := hstepped.own
      have hcooled := (hobserved.cooled (by rw [htask]; omega)).2
      rw [htask] at hw hcooled
      have hown : s.watchOf task = w := by simp [watchOf, hw]
      rw [hown, hcooled] at hnext
      have := hnext (by omega)
      omega
    · rw [countP_cons_of_neg (by simpa using htask)] at hfew ⊢
      obtain ⟨w, hw⟩ := Option.isSome_iff_exists.mp (AList.lookup_isSome.mpr hmem)
      have hsame : s.watchOf task = a.watchOf task := by
        simp [watchOf, hw, hstepped.others task (fun h => htask h.symm) w hw]
      rw [hsame] at hnext
      exact hnext hfew

/-! ## Runs by their answers -/

/-- The answers to a history. -/
def answers (s : Supervisor) :
    List (Scheduler × Observation) → Except Fault (List (Option Reaction))
  | [] => .ok []
  | (scheduler, observation) :: history => do
    let (s, reaction) ← s.observe scheduler observation
    let rest ← s.answers history
    return reaction :: rest

theorem answers_cons {call : Scheduler × Observation}
    {history : List (Scheduler × Observation)} {reactions : List (Option Reaction)}
    (h : s.answers (call :: history) = .ok reactions) :
    ∃ s' reaction rest, s.observe call.1 call.2 = .ok (s', reaction) ∧
      s'.answers history = .ok rest ∧ reactions = reaction :: rest := by
  obtain ⟨scheduler, observation⟩ := call
  rw [answers] at h
  cases hobserve : s.observe scheduler observation with
  | error fault =>
    rw [hobserve] at h
    cases h
  | ok answer =>
    obtain ⟨s', reaction⟩ := answer
    cases hrest : s'.answers history with
    | error fault => simp [hobserve, hrest, bind, Except.bind] at h
    | ok rest =>
      simp only [hobserve, hrest, bind, Except.bind, pure, Except.pure, Except.ok.injEq] at h
      exact ⟨s', reaction, rest, rfl, hrest, h.symm⟩

/-- The last answer of a history is the answer to its last call, after a run of the others. -/
theorem run_of_answers {history : List (Scheduler × Observation)}
    {last : Scheduler × Observation} {reactions : List (Option Reaction)}
    {reaction : Option Reaction} (h : s.answers (history ++ [last]) = .ok reactions)
    (hlast : reactions.getLast? = some reaction) :
    ∃ events a b, Run Step s events a ∧ a.observe last.1 last.2 = .ok (b, reaction) := by
  induction history generalizing s reactions with
  | nil =>
    obtain ⟨b, r, rest, hobserve, hrest, rfl⟩ := answers_cons h
    obtain rfl : [] = rest := Except.ok.inj hrest
    obtain rfl : r = reaction := by simpa using hlast
    exact ⟨[], s, b, .nil s, hobserve⟩
  | cons call history ih =>
    obtain ⟨s', r, rest, hobserve, hrest, rfl⟩ := answers_cons h
    have hlast' : rest.getLast? = some reaction := by
      cases rest with
      | nil =>
        cases history with
        | nil =>
          obtain ⟨_, _, _, _, _, hnil⟩ := answers_cons hrest
          cases hnil
        | cons =>
          obtain ⟨_, _, _, _, _, hnil⟩ := answers_cons hrest
          cases hnil
      | cons first rest => rwa [getLast?_cons_cons] at hlast
    obtain ⟨events, a, b, hrun, hlast⟩ := ih hrest hlast'
    exact ⟨⟨call.1, call.2, r⟩ :: events, a, b, .cons hobserve hrun, hlast⟩

/-- For every accepted policy and every history: the watches are bounded and mirrored by the order,
every window is bounded, every call answers, the next reaction of a task that kept its watch comes
after the cooldown of the last, and a cause is truthful of the window it was read from. -/
theorem supervisor_sound {s0 s : Supervisor} {events : List Event}
    (hnew : Supervisor.new policy = .ok s0) (hrun : Run Step s0 events s) :
    ((∀ task, task ∈ s.order ↔ task ∈ s.watches) ∧ s.order.Nodup ∧
      s.watches.keys.length ≤ WATCH_LIMIT ∧
      ∀ task w, s.watches.lookup task = some w →
        ∀ c, (w.windows c).length ≤ (policy.forClass c).window) ∧
    (∀ scheduler observation, ∃ s' reaction,
      s.observe scheduler observation = .ok (s', reaction)) ∧
    (∀ first between second a b c r1 r2, Step s first a → Run Step a between b →
      Step b second c → first.reaction = some r1 → second.reaction = some r2 →
      r1.task = r2.task →
      (∀ pre post x, between = pre ++ post → Run Step a pre x → r1.task ∈ x.watches) →
      (policy.forClass r1.operationClass).cooldown ≤ observations r1.task between) ∧
    (∀ e s' r, Step s e s' → e.reaction = some r →
      r.task = e.observation.task ∧ r.operationClass = e.observation.operationClass ∧
      r.thresholds = policy.forClass r.operationClass ∧
      ∃ w, s'.watches.lookup r.task = some w ∧
        r.cause.Truthful (w.windows r.operationClass) (policy.forClass r.operationClass)) := by
  have h := (kept_new hnew).run hrun
  refine ⟨⟨h.tidy.mem_order, h.tidy.nodup, h.tidy.bounded, h.windows⟩, ?_, ?_, ?_⟩
  · intro scheduler observation
    obtain ⟨s', reaction, hobserve, -⟩ := h.observe scheduler observation
    exact ⟨s', reaction, hobserve⟩
  · intro first between second a b c r1 r2 hfirst hbetween hsecond hr1 hr2 htask hwatched
    have hstepped := h.stepped hfirst
    have ha := h.step hstepped
    have hb := ha.run hbetween
    obtain ⟨w, hw, hobserved⟩ := hstepped.own
    obtain ⟨hown, hclass, -, hcooldown, -⟩ := hobserved.reacted r1 hr1
    have hwatch : a.watchOf r1.task = w := by
      rw [watchOf, hown, hw, Option.getD_some]
    rw [hclass, ← h.policy_eq, ← hcooldown, ← hwatch]
    by_contra hfew
    have hleft := cooldown_run ha hbetween hwatched (by omega)
    obtain ⟨w', hw', hobserved'⟩ := (hb.stepped hsecond).own
    obtain ⟨hown', -⟩ := hobserved'.reacted r2 hr2
    have hnone := (hobserved'.cooled (by rw [← hown', ← htask]; omega)).1
    rw [hr2] at hnone
    cases hnone
  · intro e s' r hstep hr
    obtain ⟨w, hw, hobserved⟩ := (h.stepped hstep).own
    obtain ⟨hown, hclass, hthresholds, -, htruthful⟩ := hobserved.reacted r hr
    rw [h.policy_eq, ← hclass] at hthresholds htruthful
    exact ⟨hown, hclass, hthresholds, w, hown ▸ hw, htruthful⟩

def failed : Observation := .failure ⟨"task"⟩ .read "read_file" "/scope/a" "denied"

/-- After two failures that are not answered, the third is an exact repeat. -/
theorem supervisor_sound_once : ∃ (s' : Supervisor) (w : TaskWatch),
    s'.watches.lookup failed.task = some w ∧
      (StallCause.exactRepeat failed.signature 3).Truthful (w.windows .read)
        SupervisorPolicy.default.read := by
  have hanswers : (⟨.default, ∅, []⟩ : Supervisor).answers
      (List.replicate 2 (Scheduler.new 1 1, failed) ++ [(Scheduler.new 1 1, failed)]) =
        .ok [none, none, some ⟨failed.task, .read, .exactRepeat failed.signature 3,
          SupervisorPolicy.default.read⟩] := by
    decide +kernel
  obtain ⟨events, a, b, hrun, hobserve⟩ := run_of_answers hanswers rfl
  have hnew : Supervisor.new .default = .ok ⟨.default, ∅, []⟩ := rfl
  obtain ⟨-, -, -, w, hw, htruthful⟩ := (supervisor_sound hnew hrun).2.2.2
    ⟨Scheduler.new 1 1, failed, _⟩ b _ hobserve rfl
  exact ⟨b, w, hw, htruthful⟩

end Supervisor

end Rivect.Supervision
