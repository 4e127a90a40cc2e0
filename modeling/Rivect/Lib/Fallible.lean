import Mathlib.Data.List.Forall2

/-! # Computations that may fail

`Within E P x` bounds both ends of a fallible computation: what it answers satisfies `P`,
and it fails only in the ways `E` allows.
-/

namespace Rivect.Lib

open List

universe u v

variable {ε : Type v} {α β : Type u} {E : ε → Prop} {P : α → Prop} {Q : β → Prop}

def Within (E : ε → Prop) (P : α → Prop) : Except ε α → Prop
  | .ok a => P a
  | .error e => E e

@[simp] theorem ok_bind (a : α) (f : α → Except ε β) : (Except.ok a >>= f) = f a := rfl

@[simp] theorem error_bind (e : ε) (f : α → Except ε β) :
    ((.error e : Except ε α) >>= f) = .error e := rfl

/-- A row that a computation needs, or the error that says it is missing. -/
def found (o : Option α) (e : ε) : Except ε α :=
  match o with
  | some a => .ok a
  | none => .error e

/-- A guard, or the error that says it failed. -/
def require (c : Prop) [Decidable c] (e : ε) : Except ε Unit := if c then .ok () else .error e

@[simp] theorem found_some (a : α) (e : ε) : found (some a) e = .ok a := rfl

@[simp] theorem found_none (e : ε) : found (none : Option α) e = .error e := rfl

theorem found_eq_ok {o : Option α} {e : ε} {a : α} (h : found o e = .ok a) : o = some a := by
  cases o with
  | none => cases h
  | some b =>
    cases h
    rfl

/-- A computation that answers had each of its parts answer. -/
theorem bind_eq_ok {x : Except ε α} {f : α → Except ε β} {b : β} (h : (x >>= f) = .ok b) :
    ∃ a, x = .ok a ∧ f a = .ok b := by
  cases x with
  | error e => cases h
  | ok a => exact ⟨a, rfl, h⟩

@[simp] theorem require_pos {c : Prop} [Decidable c] {e : ε} (h : c) : require c e = .ok () :=
  if_pos h

@[simp] theorem require_neg {c : Prop} [Decidable c] {e : ε} (h : ¬ c) :
    require c e = .error e := if_neg h

theorem require_eq_ok {c : Prop} [Decidable c] {e : ε} {a : Unit} (h : require c e = .ok a) : c := by
  by_cases hc : c
  · exact hc
  · rw [require_neg hc] at h
    cases h

/-- Any failure. -/
abbrev Fails : ε → Prop := fun _ => True

namespace Within

@[simp] theorem ok_iff {a : α} : Within E P (.ok a) ↔ P a := Iff.rfl

theorem trivially {x : Except ε α} : Within Fails (fun _ => True) x := by
  cases x <;> trivial

/-- Where any failure is allowed, only the answers matter. -/
theorem of_forall {x : Except ε α} (h : ∀ a, x = .ok a → P a) : Within Fails P x := by
  cases x with
  | ok a => exact h a rfl
  | error e => trivial

theorem of_ok {x : Except ε α} {a : α} (h : Within E P x) (hx : x = .ok a) : P a := by
  subst hx
  exact h

theorem of_error {x : Except ε α} {e : ε} (h : Within E P x) (hx : x = .error e) : E e := by
  subst hx
  exact h

/-- A computation that cannot fail in an allowed way answers. -/
theorem returns {x : Except ε α} (h : Within E P x) (hE : ∀ e, ¬ E e) : ∃ a, x = .ok a ∧ P a := by
  cases x with
  | ok a => exact ⟨a, rfl, h⟩
  | error e => exact absurd h (hE e)

theorem found {o : Option α} {e : ε} (he : o = none → E e) :
    Within E (fun a => o = some a) (found o e) := by
  cases o with
  | none => exact he rfl
  | some a => rfl

theorem require {c : Prop} [Decidable c] {e : ε} (he : ¬ c → E e) :
    Within E (fun _ => c) (require c e) := by
  by_cases h : c
  · rwa [require_pos h]
  · rw [require_neg h]
    exact he h

theorem imp {P' : α → Prop} {x : Except ε α} (h : Within E P x) (hP : ∀ a, P a → P' a) :
    Within E P' x := by
  cases x with
  | ok a => exact hP a h
  | error e => exact h

theorem mono {E' : ε → Prop} {P' : α → Prop} {x : Except ε α} (h : Within E P x)
    (hE : ∀ e, E e → E' e) (hP : ∀ a, P a → P' a) : Within E' P' x := by
  cases x with
  | ok a => exact hP a h
  | error e => exact hE e h

theorem and {E' : ε → Prop} {P' : α → Prop} {x : Except ε α} (h : Within E P x)
    (h' : Within E' P' x) : Within E (fun a => P a ∧ P' a) x := by
  cases x with
  | ok a => exact ⟨h, h'⟩
  | error e => exact h

theorem mapError {ε' : Type v} {E' : ε' → Prop} {f : ε → ε'} {x : Except ε α} (h : Within E P x)
    (he : ∀ e, E e → E' (f e)) : Within E' P (x.mapError f) := by
  cases x with
  | ok a => exact h
  | error e => exact he e h

theorem map_fst {x : Except ε (α × β)} (h : Within E (fun r => P r.1) x) :
    Within E P (x.map Prod.fst) := by
  cases x with
  | ok r => exact h
  | error e => exact h

theorem bind {x : Except ε α} {f : α → Except ε β} (h : Within E P x)
    (hf : ∀ a, P a → Within E Q (f a)) : Within E Q (x >>= f) := by
  cases x with
  | ok a => exact hf a h
  | error e => exact h

/-! Where any failure is allowed, a part of which nothing is asked is passed over, and a guard or a
row that was found is all that its part says. -/

theorem skip {x : Except ε α} {f : α → Except ε β}
    (hf : ∀ a, Within Fails Q (f a)) : Within Fails Q (x >>= f) :=
  bind trivially fun a _ => hf a

theorem guard {β : Type} {Q : β → Prop} {c : Prop} [Decidable c] {e : ε} {f : Unit → Except ε β}
    (hf : c → Within Fails Q (f ())) :
    Within Fails Q (Lib.require c e >>= f) :=
  bind (require fun _ => trivial) fun _ => hf

theorem look {o : Option α} {e : ε} {f : α → Except ε β}
    (hf : ∀ a, o = some a → Within Fails Q (f a)) :
    Within Fails Q (Lib.found o e >>= f) :=
  bind (found fun _ => trivial) hf

/-- The rule of a loop that may leave early; `I` sees the elements already met. -/
theorem foldlM {step : β → α → Except ε β} {l : List α} {b : β} (I : List α → β → Prop)
    (hstep : ∀ seen a b, a ∈ l → I seen b → Within E (I (seen ++ [a])) (step b a))
    (hb : I [] b) : Within E (I l) (l.foldlM step b) := by
  have hloop : ∀ todo seen b, todo ⊆ l → I seen b →
      Within E (I (seen ++ todo)) (todo.foldlM step b) := by
    intro todo
    induction todo with
    | nil =>
      intro seen b _ hb
      rw [append_nil]
      exact hb
    | cons a todo ih =>
      intro seen b hsub hb
      rw [foldlM_cons]
      apply Within.bind (hstep seen a b (hsub (by simp)) hb)
      intro b' hb'
      have := ih (seen ++ [a]) b' (fun c hc => hsub (by simp [hc])) hb'
      rwa [append_assoc, singleton_append] at this
  exact hloop l [] b (fun a ha => ha) hb

theorem mapM {f : α → Except ε β} {l : List α} (h : ∀ a ∈ l, Within E (fun _ => True) (f a)) :
    Within E (fun _ => True) (l.mapM f) := by
  induction l with
  | nil => trivial
  | cons a l ih =>
    rw [mapM_cons]
    apply Within.bind (h a mem_cons_self)
    intro _ _
    apply Within.bind (ih fun b hb => h b (mem_cons_of_mem a hb))
    intro _ _
    trivial

theorem forM {f : α → Except ε PUnit} {R : α → Prop} {l : List α}
    (h : ∀ a ∈ l, Within E (fun _ => R a) (f a)) :
    Within E (fun _ => ∀ a ∈ l, R a) (l.forM f) := by
  induction l with
  | nil => exact fun a ha => absurd ha (by simp)
  | cons a l ih =>
    change Within E _ (f a >>= fun _ => l.forM f)
    apply Within.bind (h a mem_cons_self)
    intro _ ha
    refine (ih fun b hb => h b (mem_cons_of_mem a hb)).imp fun _ hl => ?_
    rintro b hb
    rcases mem_cons.mp hb with rfl | hb
    · exact ha
    · exact hl b hb

end Within

/-- A list is read one by one where all of it is read. -/
theorem forall₂_of_mapM {α β : Type*} {f : α → Option β} {l : List α} {l' : List β}
    (h : l.mapM f = some l') : Forall₂ (fun a b => f a = some b) l l' := by
  induction l generalizing l' with
  | nil =>
    obtain rfl := Option.some.inj h
    exact .nil
  | cons a l ih =>
    rw [mapM_cons] at h
    obtain ⟨b, hb, h⟩ := Option.bind_eq_some_iff.mp h
    obtain ⟨bs, hbs, h⟩ := Option.bind_eq_some_iff.mp h
    obtain rfl := Option.some.inj h
    exact .cons hb (ih hbs)

/-- What another function reads in the same way. -/
theorem mapM_congr_some {α β : Type*} {f g : α → Option β} {l : List α} {l' : List β}
    (h : l.mapM f = some l') (hg : ∀ a ∈ l, ∀ b ∈ l', f a = some b → g a = some b) :
    l.mapM g = some l' := by
  replace h := forall₂_of_mapM h
  induction h with
  | nil => rfl
  | cons ha _ ih =>
    have hhead := hg _ mem_cons_self _ mem_cons_self ha
    have htail := ih fun a ha b hb =>
      hg a (mem_cons_of_mem _ ha) b (mem_cons_of_mem _ hb)
    rw [mapM_cons, hhead, htail]
    rfl

theorem isSome_of_mapM {α β : Type*} {f : α → Option β} {l : List α} {l' : List β} {a : α}
    (h : l.mapM f = some l') (ha : a ∈ l) : (f a).isSome := by
  replace h := forall₂_of_mapM h
  induction h with
  | nil => cases ha
  | cons hb _ ih =>
    rcases mem_cons.mp ha with rfl | ha
    · exact Option.isSome_of_mem hb
    · exact ih ha

theorem mem_of_mapM {α β : Type*} {f : α → Option β} {l : List α} {l' : List β} {b : β}
    (h : l.mapM f = some l') (hb : b ∈ l') : ∃ a ∈ l, f a = some b := by
  replace h := forall₂_of_mapM h
  induction h with
  | nil => cases hb
  | cons ha _ ih =>
    rcases mem_cons.mp hb with rfl | hb
    · exact ⟨_, mem_cons_self, ha⟩
    · obtain ⟨a, hmem, ha⟩ := ih hb
      exact ⟨a, mem_cons_of_mem _ hmem, ha⟩

end Rivect.Lib
