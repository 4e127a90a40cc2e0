import Mathlib.Logic.Relation
import Mathlib.Data.List.Induction

/-! # Runs of a labelled step relation

`Run step s is s'` says that the inputs `is`, taken in order, lead from `s` to `s'`.
-/

namespace Rivect.Lib

open List

variable {σ ι : Type*} {step : σ → ι → σ → Prop}

inductive Run (step : σ → ι → σ → Prop) : σ → List ι → σ → Prop
  | nil (s : σ) : Run step s [] s
  | cons {s s' s'' : σ} {i : ι} {is : List ι} :
      step s i s' → Run step s' is s'' → Run step s (i :: is) s''

namespace Run

theorem single {s s' : σ} {i : ι} (h : step s i s') : Run step s [i] s' :=
  cons h (nil s')

theorem append {s s' s'' : σ} {is js : List ι} (h : Run step s is s') (h' : Run step s' js s'') :
    Run step s (is ++ js) s'' := by
  induction h with
  | nil => exact h'
  | cons hs _ ih => exact cons hs (ih h')

/-- The invariant rule: what one step keeps, a whole run keeps. -/
theorem invariant {I : σ → Prop} (hstep : ∀ s i s', I s → step s i s' → I s')
    {s s' : σ} {is : List ι} (h : Run step s is s') (hs : I s) : I s' := by
  induction h with
  | nil => exact hs
  | cons hi _ ih => exact ih (hstep _ _ _ hs hi)

/-- The history rule: an invariant that also sees the inputs taken so far. -/
theorem history {I : List ι → σ → Prop} {s : σ} (hs : I [] s)
    (hstep : ∀ pre i a b, Run step s pre a → I pre a → step a i b → I (pre ++ [i]) b)
    {s' : σ} {is : List ι} (h : Run step s is s') : I is s' := by
  have hloop : ∀ {a is s'}, Run step a is s' → ∀ pre, Run step s pre a → I pre a →
      I (pre ++ is) s' := by
    intro a is s' h
    induction h with
    | nil =>
      intro pre _ hpre
      rwa [append_nil]
    | @cons a b _ i is hi _ ih =>
      intro pre hrun hpre
      have := ih (pre ++ [i]) (hrun.append (single hi)) (hstep pre i a b hrun hpre hi)
      rwa [append_assoc, singleton_append] at this
  exact hloop h [] (nil s) hs

/-- A reflexive and transitive relation between neighbours relates the ends of a run. -/
theorem relates {R : σ → σ → Prop} {I : σ → Prop} (hrefl : ∀ s, R s s)
    (htrans : ∀ s s' s'', R s s' → R s' s'' → R s s'')
    (hkeep : ∀ s i s', I s → step s i s' → I s') (hstep : ∀ s i s', I s → step s i s' → R s s')
    {s s' : σ} {is : List ι} (h : Run step s is s') (hs : I s) : R s s' := by
  induction h with
  | nil => exact hrefl _
  | cons hi _ ih => exact htrans _ _ _ (hstep _ _ _ hs hi) (ih (hkeep _ _ _ hs hi))

/-- A run that makes `P` true has a step that makes it true. -/
theorem exists_rise {P : σ → Prop} {s s' : σ} {is : List ι} (h : Run step s is s')
    (hs : ¬ P s) (hs' : P s') :
    ∃ pre i post a b, is = pre ++ i :: post ∧ Run step s pre a ∧ step a i b ∧
      Run step b post s' ∧ ¬ P a ∧ P b := by
  induction h with
  | nil => exact absurd hs' hs
  | @cons s b s'' i is hi hrest ih =>
    by_cases hb : P b
    · exact ⟨[], i, is, s, b, rfl, nil s, hi, hrest, hs, hb⟩
    · obtain ⟨pre, j, post, a, c, rfl, hpre, hj, hpost, ha, hc⟩ := ih hb hs'
      exact ⟨i :: pre, j, post, a, c, rfl, cons hi hpre, hj, hpost, ha, hc⟩

theorem split {s s' : σ} {is js : List ι} (h : Run step s (is ++ js) s') :
    ∃ m, Run step s is m ∧ Run step m js s' := by
  induction is generalizing s with
  | nil => exact ⟨s, nil s, h⟩
  | cons i is ih =>
    cases h with
    | cons hi hrest =>
      obtain ⟨m, hm, hjs⟩ := ih hrest
      exact ⟨m, cons hi hm, hjs⟩

/-- A deterministic step relation has one run for each list of inputs. -/
theorem unique (hstep : ∀ s i a b, step s i a → step s i b → a = b) {s a b : σ} {is : List ι}
    (ha : Run step s is a) (hb : Run step s is b) : a = b := by
  induction ha with
  | nil =>
    cases hb
    rfl
  | cons hi _ ih =>
    cases hb with
    | cons hj hrest =>
      obtain rfl := hstep _ _ _ _ hi hj
      exact ih hrest

theorem mono {step' : σ → ι → σ → Prop} (hsub : ∀ s i s', step s i s' → step' s i s')
    {s s' : σ} {is : List ι} (h : Run step s is s') : Run step' s is s' := by
  induction h with
  | nil => exact nil _
  | cons hi _ ih => exact cons (hsub _ _ _ hi) ih

theorem mem {s s' : σ} {is : List ι} (h : Run step s is s') :
    Run (fun s i s' => step s i s' ∧ i ∈ is) s is s' := by
  induction h with
  | nil => exact nil _
  | cons hi _ ih =>
    apply cons ⟨hi, mem_cons_self⟩
    exact ih.mono fun _ _ _ h => ⟨h.1, mem_cons_of_mem _ h.2⟩

/-- A guard that every step of a run meets may join the step relation. -/
theorem guarded {guard : σ → ι → Prop} {s s' : σ} {is : List ι} (h : Run step s is s')
    (hguard : ∀ pre i post a b, is = pre ++ i :: post → Run step s pre a → step a i b →
      guard a i) : Run (fun s i s' => step s i s' ∧ guard s i) s is s' := by
  induction h with
  | nil => exact nil _
  | cons hi _ ih =>
    apply cons ⟨hi, hguard [] _ _ _ _ rfl (nil _) hi⟩
    apply ih
    rintro pre j post a b rfl hpre hj
    exact hguard (_ :: pre) j post a b rfl (cons hi hpre) hj

/-- The labels may be renamed along the steps. -/
theorem relabel {κ : Type*} {step' : σ → κ → σ → Prop} (f : ι → κ)
    (hf : ∀ s i s', step s i s' → step' s (f i) s') {s s' : σ} {is : List ι}
    (h : Run step s is s') : Run step' s (is.map f) s' := by
  induction h with
  | nil => exact nil _
  | cons hi _ ih => exact cons (hf _ _ _ hi) ih

/-- A step function runs through any inputs. -/
theorem of_foldl {σ ι : Type*} (f : σ → ι → σ) (s : σ) (is : List ι) :
    Run (fun s i s' => f s i = s') s is (is.foldl f s) := by
  induction is generalizing s with
  | nil => exact nil s
  | cons i is ih => exact cons rfl (ih _)

/-- A fallible step function that gets through all its inputs has run. -/
theorem of_foldlM {ε σ ι : Type*} {f : σ → ι → Except ε σ} {s s' : σ} {is : List ι}
    (h : is.foldlM f s = .ok s') : Run (fun s i s' => f s i = .ok s') s is s' := by
  induction is generalizing s with
  | nil =>
    obtain rfl : s = s' := by simpa [pure, Except.pure] using h
    exact nil s
  | cons i is ih =>
    rw [foldlM_cons] at h
    cases hi : f s i with
    | error e =>
      rw [hi] at h
      cases h
    | ok b =>
      rw [hi] at h
      exact cons hi (ih h)

/-- If a step keeps `P` exactly where its input is sound, `P` holds along a run exactly if every
input is sound where it is taken. -/
theorem states_iff {f : σ → ι → σ} {s : σ} {I P : σ → Prop} {C : σ → ι → Prop} (hI : I s)
    (hkeep : ∀ s i, I s → P s → I (f s i)) (hP : P s)
    (hstep : ∀ s i, I s → P s → (P (f s i) ↔ C s i)) (is : List ι) :
    (∀ pre, pre <+: is → P (pre.foldl f s)) ↔
      ∀ pre i post, is = pre ++ i :: post → C (pre.foldl f s) i := by
  have hinv : ∀ pre : List ι, (∀ pre', pre' <+: pre → P (pre'.foldl f s)) → I (pre.foldl f s) := by
    intro pre
    induction pre using reverseRecOn with
    | nil => exact fun _ => hI
    | append_singleton pre i ih =>
      intro hP
      have hpre := fun pre' hpre' => hP pre' (List.IsPrefix.trans hpre' (prefix_append _ _))
      rw [foldl_append]
      exact hkeep _ i (ih hpre) (hpre pre (prefix_refl _))
  constructor
  · rintro h pre i post rfl
    have hpre := fun pre' hpre' => h pre' (List.IsPrefix.trans hpre' (prefix_append _ _))
    refine (hstep _ i (hinv pre hpre) (hpre pre (prefix_refl _))).mp ?_
    have hprefix : pre ++ [i] <+: pre ++ i :: post := ⟨post, by simp⟩
    simpa only [foldl_append, foldl_cons, foldl_nil] using h _ hprefix
  · intro h pre
    have hloop : ∀ post, is = pre ++ post → I (pre.foldl f s) ∧ P (pre.foldl f s) := by
      induction pre using reverseRecOn with
      | nil => exact fun _ _ => ⟨hI, hP⟩
      | append_singleton pre i ih =>
        intro post hpost
        have his : is = pre ++ i :: post := by simpa using hpost
        obtain ⟨hinv, hP⟩ := ih _ his
        rw [foldl_append]
        exact ⟨hkeep _ i hinv hP, (hstep _ i hinv hP).mpr (h pre i post his)⟩
    rintro ⟨post, hpost⟩
    exact (hloop post hpost.symm).2

end Run

end Rivect.Lib
