import Rivect.Scheduler.Model

/-! # The stall detectors

`src/supervisor.rs`: a class's thresholds, the samples of a window and the four detectors over its
trailing sterile run. An index out of the run is the scheduler's `Fault.outOfBounds`.
-/

namespace Rivect.Supervision

open List

inductive OperationClass where
  | read
  | test
  | retrieve
deriving DecidableEq

structure ClassThresholds where
  window : ℕ
  exactRepeat : ℕ
  fuzzyRepeat : ℕ
  pingPong : ℕ
  noProgress : ℕ
  cooldown : ℕ
deriving DecidableEq

inductive PolicyFault where
  | windowBelowCap (window cap : ℕ)
  | fuzzyBelowExact (fuzzy exact : ℕ)
  | pingPongBelowPair (cap : ℕ)
  | zeroCooldown (cooldown : ℕ)
deriving DecidableEq

namespace ClassThresholds

def validate (t : ClassThresholds) : Except PolicyFault Unit :=
  match [t.exactRepeat, t.fuzzyRepeat, t.pingPong, t.noProgress].find? (t.window < ·) with
  | some cap => .error (.windowBelowCap t.window cap)
  | none =>
    if t.fuzzyRepeat < t.exactRepeat then .error (.fuzzyBelowExact t.fuzzyRepeat t.exactRepeat)
    else if t.pingPong < 2 then .error (.pingPongBelowPair t.pingPong)
    else if t.cooldown = 0 then .error (.zeroCooldown t.cooldown)
    else .ok ()

/-- What `validate` pins. -/
structure Accepted (t : ClassThresholds) : Prop where
  exact_le : t.exactRepeat ≤ t.window
  fuzzy_le : t.fuzzyRepeat ≤ t.window
  pingPong_le : t.pingPong ≤ t.window
  noProgress_le : t.noProgress ≤ t.window
  ordered : t.exactRepeat ≤ t.fuzzyRepeat
  pair : 2 ≤ t.pingPong
  cools : 0 < t.cooldown

theorem validate_eq_ok (t : ClassThresholds) : t.validate = .ok () ↔ t.Accepted := by
  unfold validate
  constructor
  · intro h
    split at h
    · cases h
    · rename_i hcaps
      simp only [find?_eq_none, mem_cons, not_mem_nil, or_false,
        forall_eq_or_imp, forall_eq, decide_eq_true_eq, Nat.not_lt] at hcaps
      obtain ⟨hexact, hfuzzy, hping, hprogress⟩ := hcaps
      split at h <;> [cases h; skip]
      split at h <;> [cases h; skip]
      split at h <;> [cases h; skip]
      exact ⟨hexact, hfuzzy, hping, hprogress, by omega, by omega, by omega⟩
  · intro h
    have hcaps : [t.exactRepeat, t.fuzzyRepeat, t.pingPong, t.noProgress].find?
        (t.window < ·) = none := by
      simp [h.exact_le, h.fuzzy_le, h.pingPong_le, h.noProgress_le]
    have hordered := h.ordered
    have hpair := h.pair
    have hcools := h.cools
    rw [hcaps]
    rw [if_neg (by omega), if_neg (by omega), if_neg (by omega)]

end ClassThresholds

structure FailureSignature where
  tool : String
  args : String
  result : String
deriving DecidableEq

namespace FailureSignature

def exactMatch (s other : FailureSignature) : Bool := s = other

def fuzzyMatch (s other : FailureSignature) : Bool := s.tool = other.tool ∧ s.args = other.args

end FailureSignature

structure Sample where
  signature : FailureSignature
  useful : Bool
deriving DecidableEq

inductive StallCause where
  | exactRepeat (signature : FailureSignature) (repeats : ℕ)
  | fuzzyRepeat (signature : FailureSignature) (repeats : ℕ)
  | pingPong (first second : FailureSignature) (alternations : ℕ)
  | noProgress (observations : ℕ)
deriving DecidableEq

/-- The trailing sterile samples, newest first. -/
def sterileRun (window : List Sample) : List Sample :=
  window.reverse.takeWhile fun sample => !sample.useful

/-- What an even and what an odd position of an alternation holds. -/
def alternate (first second : FailureSignature) (index : ℕ) : FailureSignature :=
  if index % 2 = 0 then first else second

def trailingAlternations : List Sample → ℕ
  | first :: second :: rest =>
    if first.signature = second.signature then 0
    else
      ((first :: second :: rest).zipIdx.takeWhile fun (sample, index) =>
        decide (sample.signature = alternate first.signature second.signature index)).length
  | _ => 0

def exactCount (run : List Sample) (latest : Sample) : ℕ :=
  (run.takeWhile fun sample => sample.signature.exactMatch latest.signature).length

def fuzzyCount (run : List Sample) (latest : Sample) : ℕ :=
  (run.takeWhile fun sample => sample.signature.fuzzyMatch latest.signature).length

/-- `run[index]`. -/
def sampleAt (run : List Sample) (index : ℕ) : Except Fault Sample :=
  match run[index]? with
  | some sample => .ok sample
  | none => .error .outOfBounds

def detect (window : List Sample) (t : ClassThresholds) : Except Fault (Option StallCause) :=
  let run := sterileRun window
  match run.head? with
  | none => .ok none
  | some latest =>
    if t.exactRepeat ≤ exactCount run latest then
      .ok (some (.exactRepeat latest.signature (exactCount run latest)))
    else if t.fuzzyRepeat ≤ fuzzyCount run latest then
      .ok (some (.fuzzyRepeat latest.signature (fuzzyCount run latest)))
    else if t.pingPong ≤ trailingAlternations run then do
      let first ← sampleAt run 0
      let second ← sampleAt run 1
      .ok (some (.pingPong first.signature second.signature (trailingAlternations run)))
    else if t.noProgress ≤ run.length then .ok (some (.noProgress run.length))
    else .ok none

/-! ## What a cause says -/

/-- The newest `n` samples of the window are sterile, and each fits its position. -/
structure Recent (window : List Sample) (n : ℕ) (fits : ℕ → FailureSignature → Prop) : Prop where
  pos : 0 < n
  recent : ∀ i < n, ∃ sample, window.reverse[i]? = some sample ∧ sample.useful = false ∧
    fits i sample.signature

/-- The cause counts at least its cap of newest samples, and they are what it names. -/
def StallCause.Truthful (window : List Sample) (t : ClassThresholds) : StallCause → Prop
  | .exactRepeat signature repeats =>
    t.exactRepeat ≤ repeats ∧ Recent window repeats fun _ s => s = signature
  | .fuzzyRepeat signature repeats =>
    t.fuzzyRepeat ≤ repeats ∧
      Recent window repeats fun _ s => s.tool = signature.tool ∧ s.args = signature.args
  | .pingPong first second alternations =>
    t.pingPong ≤ alternations ∧ first ≠ second ∧
      Recent window alternations fun i s => s = alternate first second i
  | .noProgress observations =>
    t.noProgress ≤ observations ∧ Recent window observations fun _ _ => True

/-- Some detector's cap is reached. -/
def Stalls (t : ClassThresholds) (run : List Sample) : Prop :=
  ∃ latest, run.head? = some latest ∧
    (t.exactRepeat ≤ exactCount run latest ∨ t.fuzzyRepeat ≤ fuzzyCount run latest ∨
      t.pingPong ≤ trailingAlternations run ∨ t.noProgress ≤ run.length)

theorem getElem?_takeWhile {α : Type*} {p : α → Bool} {l : List α} {i : ℕ} {a : α}
    (h : (l.takeWhile p)[i]? = some a) : l[i]? = some a ∧ p a = true := by
  induction l generalizing i with
  | nil => simp at h
  | cons b l ih =>
    by_cases hb : p b = true
    · rw [takeWhile_cons_of_pos hb] at h
      cases i with
      | zero =>
        obtain rfl : b = a := by simpa using h
        exact ⟨rfl, hb⟩
      | succ i => exact ih (by simpa using h)
    · simp [takeWhile_cons_of_neg hb] at h

theorem exists_takeWhile {α : Type*} {p : α → Bool} {l : List α} {i : ℕ}
    (hi : i < (l.takeWhile p).length) : ∃ a, l[i]? = some a ∧ p a = true :=
  ⟨_, getElem?_takeWhile (getElem?_eq_getElem hi)⟩

theorem recent_of_run {window : List Sample} {n : ℕ} {fits : ℕ → FailureSignature → Prop}
    (hpos : 0 < n) (h : ∀ i < n, ∃ sample, (sterileRun window)[i]? = some sample ∧
      fits i sample.signature) : Recent window n fits where
  pos := hpos
  recent i hi := by
    obtain ⟨sample, hsample, hfits⟩ := h i hi
    obtain ⟨hwindow, huseful⟩ := getElem?_takeWhile hsample
    exact ⟨sample, hwindow, by simpa using huseful, hfits⟩

theorem alternation_run {run : List Sample} (h : 2 ≤ trailingAlternations run) :
    ∃ first second rest, run = first :: second :: rest ∧ first.signature ≠ second.signature ∧
      ∀ i < trailingAlternations run, ∃ sample, run[i]? = some sample ∧
        sample.signature = alternate first.signature second.signature i := by
  cases run with
  | nil => simp [trailingAlternations] at h
  | cons first run =>
    cases run with
    | nil => simp [trailingAlternations] at h
    | cons second rest =>
      by_cases hsame : first.signature = second.signature
      · simp [trailingAlternations, hsame] at h
      · refine ⟨first, second, rest, rfl, hsame, ?_⟩
        intro i hi
        rw [trailingAlternations, if_neg hsame] at hi
        obtain ⟨⟨sample, index⟩, hsample, hfits⟩ := exists_takeWhile hi
        rw [getElem?_zipIdx, Option.map_eq_some_iff] at hsample
        obtain ⟨a, ha, hpair⟩ := hsample
        obtain ⟨rfl, rfl⟩ := Prod.mk.inj hpair
        refine ⟨a, ha, ?_⟩
        simpa using hfits

theorem count_pos {p : Sample → Bool} {latest : Sample} {run : List Sample}
    (hlatest : run.head? = some latest) (hp : p latest = true) : 0 < (run.takeWhile p).length := by
  obtain ⟨rest, rfl⟩ := head?_eq_some_iff.mp hlatest
  simp [takeWhile_cons_of_pos hp]

/-- The detectors always answer. A cause is truthful, and none says that no cap is reached. -/
theorem detect_spec {t : ClassThresholds} (hpair : 2 ≤ t.pingPong) (window : List Sample) :
    ∃ answer, detect window t = .ok answer ∧
      (∀ cause, answer = some cause → cause.Truthful window t) ∧
      (answer = none ↔ ¬ Stalls t (sterileRun window)) := by
  unfold detect
  dsimp only
  cases hlatest : (sterileRun window).head? with
  | none => exact ⟨none, rfl, by simp, by simp [Stalls, hlatest]⟩
  | some latest =>
    dsimp only
    split
    · rename_i hexact
      refine ⟨_, rfl, ?_, by simp [Stalls, hlatest, hexact]⟩
      intro cause hcause
      obtain rfl := Option.some.inj hcause
      refine ⟨hexact, recent_of_run (count_pos hlatest (by simp [FailureSignature.exactMatch])) ?_⟩
      intro i hi
      obtain ⟨sample, hsample, hmatch⟩ := exists_takeWhile hi
      exact ⟨sample, hsample, by simpa [FailureSignature.exactMatch] using hmatch⟩
    · split
      · rename_i hfuzzy
        refine ⟨_, rfl, ?_, by simp [Stalls, hlatest, hfuzzy]⟩
        intro cause hcause
        obtain rfl := Option.some.inj hcause
        refine ⟨hfuzzy,
          recent_of_run (count_pos hlatest (by simp [FailureSignature.fuzzyMatch])) ?_⟩
        intro i hi
        obtain ⟨sample, hsample, hmatch⟩ := exists_takeWhile hi
        exact ⟨sample, hsample, by simpa [FailureSignature.fuzzyMatch] using hmatch⟩
      · split
        · rename_i hping
          obtain ⟨first, second, rest, hrun, hne, halternate⟩ :=
            alternation_run (Nat.le_trans hpair hping)
          have hfirst : sampleAt (sterileRun window) 0 = .ok first := by simp [sampleAt, hrun]
          have hsecond : sampleAt (sterileRun window) 1 = .ok second := by simp [sampleAt, hrun]
          rw [hfirst, hsecond]
          refine ⟨_, rfl, ?_, by simp [Stalls, hlatest, hping]⟩
          intro cause hcause
          obtain rfl := Option.some.inj hcause
          exact ⟨hping, hne, recent_of_run (by omega) halternate⟩
        · split
          · rename_i hprogress
            refine ⟨_, rfl, ?_, by simp [Stalls, hlatest, hprogress]⟩
            intro cause hcause
            obtain rfl := Option.some.inj hcause
            refine ⟨hprogress, recent_of_run ?_ fun i hi =>
              ⟨_, getElem?_eq_getElem hi, trivial⟩⟩
            obtain ⟨rest, hrun⟩ := head?_eq_some_iff.mp hlatest
            simp [hrun]
          · rename_i hexact hfuzzy hping hprogress
            exact ⟨none, rfl, by simp, by simp [Stalls, hlatest, hexact, hfuzzy, hping, hprogress]⟩

end Rivect.Supervision
