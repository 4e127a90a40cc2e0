import Mathlib.Data.List.Basic

/-! # Programs whose effects may fail

A program acts on a disk by single effects. Each of them may be refused, may land and yet be
reported as refused, or may be the one before which the process ends; what the disk holds then is
what the effects so far have left. `Ensures` bounds every ending of a program, with a rule for each
way to build one.
-/

namespace Rivect.Lib

/-- How an effect turns out. -/
inductive Turn where
  | done
  | refused
  | landed
  | cut
deriving DecidableEq

inductive Ending (ε α : Type) where
  | ok (a : α)
  | error (e : ε)
  | cut
deriving DecidableEq

def Ending.refusal {ε α : Type} : Ending ε α → Option ε
  | .error e => some e
  | _ => none

/-- A program over a disk, under the turns of its effects; the count is of those it has made. -/
def Prog (δ ε α : Type) : Type := (ℕ → Turn) → ℕ × δ → Ending ε α × ℕ × δ

namespace Prog

variable {δ κ ε ε' α β : Type}

def ret (a : α) : Prog δ ε α := fun _ s => (.ok a, s)

def andThen (x : Prog δ ε α) (f : α → Prog δ ε β) : Prog δ ε β := fun turns s =>
  match x turns s with
  | (.ok a, s') => f a turns s'
  | (.error e, s') => (.error e, s')
  | (.cut, s') => (.cut, s')

instance : Monad (Prog δ ε) where
  pure := ret
  bind := andThen

def fail (e : ε) : Prog δ ε α := fun _ s => (.error e, s)

def ofExcept : Except ε α → Prog δ ε α
  | .ok a => ret a
  | .error e => fail e

/-- What the disk holds, without an effect. -/
def look : Prog δ ε δ := fun _ s => (.ok s.2, s)

/-- One effect; `e` is what it is refused with. -/
def effect (e : ε) (f : δ → δ) : Prog δ ε Unit := fun turns s =>
  match turns s.1 with
  | .done => (.ok (), s.1 + 1, f s.2)
  | .refused => (.error e, s.1 + 1, s.2)
  | .landed => (.error e, s.1 + 1, f s.2)
  | .cut => (.cut, s.1 + 1, s.2)

/-- A read that may fail. -/
def observe (e : ε) (f : δ → Except ε α) : Prog δ ε α := do
  effect e id
  let disk ← look
  match f disk with
  | .ok a => pure a
  | .error e => fail e

/-- The error of a program as an answer. -/
def caught (x : Prog δ ε α) : Prog δ ε' (Except ε α) := fun turns s =>
  match x turns s with
  | (.ok a, s') => (.ok (.ok a), s')
  | (.error e, s') => (.ok (.error e), s')
  | (.cut, s') => (.cut, s')

def mapError (f : ε → ε') (x : Prog δ ε α) : Prog δ ε' α := fun turns s =>
  match x turns s with
  | (.ok a, s') => (.ok a, s')
  | (.error e, s') => (.error (f e), s')
  | (.cut, s') => (.cut, s')

/-- A step that others take: it answers as they do, or the process ends before or inside it. -/
def asks (f : δ → Ending ε α × δ) : Prog δ ε' (Except ε α) := fun turns s =>
  match turns s.1 with
  | .cut => (.cut, s.1 + 1, s.2)
  | _ =>
    match f s.2 with
    | (.ok a, d) => (.ok (.ok a), s.1 + 1, d)
    | (.error e, d) => (.ok (.error e), s.1 + 1, d)
    | (.cut, d) => (.cut, s.1 + 1, d)

/-- A change of what is only written down beside the disk. -/
def mark (f : δ → δ) : Prog δ ε Unit := fun _ s => (.ok (), s.1, f s.2)

/-- A program on a part of the disk; `put` gives back the part, and how the program ended. -/
def focus (get : δ → κ) (put : Ending ε α → κ → δ → δ) (x : Prog κ ε α) : Prog δ ε α :=
  fun turns s =>
  let ended := x turns (s.1, get s.2)
  (ended.1, ended.2.1, put ended.1 ended.2.2 s.2)

/-! ## Every ending -/

/-- What an ending has left: an answer, an error, or a disk at which the process ended. -/
def Ends (Q : α → δ → Prop) (E : ε → δ → Prop) (C : δ → Prop) : Ending ε α × ℕ × δ → Prop
  | (.ok a, _, d) => Q a d
  | (.error e, _, d) => E e d
  | (.cut, _, d) => C d

/-- Every ending of a program from a disk with `P`. -/
def Ensures (P : δ → Prop) (x : Prog δ ε α) (Q : α → δ → Prop) (E : ε → δ → Prop) (C : δ → Prop) :
    Prop :=
  ∀ turns n d, P d → Ends Q E C (x turns (n, d))

variable {P P' : δ → Prop} {Q Q' : α → δ → Prop} {R : β → δ → Prop} {E E' : ε → δ → Prop}
  {C C' : δ → Prop} {x : Prog δ ε α}

theorem Ensures.ret {a : α} (h : ∀ d, P d → Q a d) : Ensures P (ret a) Q E C :=
  fun _ _ d hd => h d hd

theorem Ensures.fail {e : ε} (h : ∀ d, P d → E e d) : Ensures P (Prog.fail e) Q E C :=
  fun _ _ d hd => h d hd

theorem Ensures.ofExcept {y : Except ε α} (hok : ∀ a, y = .ok a → ∀ d, P d → Q a d)
    (herror : ∀ e d, P d → E e d) : Ensures P (Prog.ofExcept y) Q E C := by
  cases y with
  | ok a => exact Ensures.ret (hok a rfl)
  | error e => exact Ensures.fail (herror e)

theorem Ensures.look {Q : δ → δ → Prop} (h : ∀ d, P d → Q d d) :
    Ensures P (Prog.look : Prog δ ε δ) Q E C :=
  fun _ _ d hd => h d hd

theorem Ensures.bind {f : α → Prog δ ε β} (hx : Ensures P x Q E C)
    (hf : ∀ a, Ensures (Q a) (f a) R E C) : Ensures P (x >>= f) R E C := by
  intro turns n d hd
  have h := hx turns n d hd
  change Ends R E C (andThen x f turns (n, d))
  rw [andThen]
  rcases hend : x turns (n, d) with ⟨a | e | _, n', d'⟩
  · rw [hend] at h
    exact hf a turns n' d' h
  · rw [hend] at h
    exact h
  · rw [hend] at h
    exact h

theorem Ensures.effect {Q : Unit → δ → Prop} {e : ε} {f : δ → δ} (hdone : ∀ d, P d → Q () (f d))
    (hrefused : ∀ d, P d → E e d) (hlanded : ∀ d, P d → E e (f d)) (hcut : ∀ d, P d → C d) :
    Ensures P (Prog.effect e f) Q E C := by
  intro turns n d hd
  rw [Prog.effect]
  cases turns n with
  | done => exact hdone d hd
  | refused => exact hrefused d hd
  | landed => exact hlanded d hd
  | cut => exact hcut d hd

/-- A read leaves the disk as it is. -/
theorem Ensures.observe {e : ε} {f : δ → Except ε α} (hok : ∀ d a, P d → f d = .ok a → Q a d)
    (herror : ∀ d e, P d → E e d) (hcut : ∀ d, P d → C d) :
    Ensures P (Prog.observe e f) Q E C := by
  refine Ensures.bind (Q := fun _ d => P d) (Ensures.effect (fun d hd => hd)
    (fun d hd => herror d e hd) (fun d hd => herror d e hd) hcut) fun _ => ?_
  refine Ensures.bind (Q := fun disk d => disk = d ∧ P d) (Ensures.look fun d hd => ⟨rfl, hd⟩)
    fun disk => ?_
  cases hread : f disk with
  | ok a => exact fun _ _ d hd => hok d a hd.2 (hd.1 ▸ hread)
  | error e => exact fun _ _ d hd => herror d e hd.2

theorem Ensures.caught {Q : Except ε α → δ → Prop} {E : ε' → δ → Prop}
    (hx : Ensures P x (fun a d => Q (.ok a) d) (fun e d => Q (.error e) d) C) :
    Ensures P (Prog.caught x) Q E C := by
  intro turns n d hd
  have h := hx turns n d hd
  rw [Prog.caught]
  rcases hend : x turns (n, d) with ⟨a | e | _, n', d'⟩
  · rw [hend] at h
    exact h
  · rw [hend] at h
    exact h
  · rw [hend] at h
    exact h

theorem Ensures.mapError {f : ε → ε'} {E : ε' → δ → Prop}
    (hx : Ensures P x Q (fun e d => E (f e) d) C) : Ensures P (Prog.mapError f x) Q E C := by
  intro turns n d hd
  have h := hx turns n d hd
  rw [Prog.mapError]
  rcases hend : x turns (n, d) with ⟨a | e | _, n', d'⟩
  · rw [hend] at h
    exact h
  · rw [hend] at h
    exact h
  · rw [hend] at h
    exact h

theorem Ensures.asks {f : δ → Ending ε α × δ} {Q : Except ε α → δ → Prop} {E : ε' → δ → Prop}
    (hcut : ∀ d, P d → C d) (hok : ∀ d a d', P d → f d = (.ok a, d') → Q (.ok a) d')
    (herror : ∀ d e d', P d → f d = (.error e, d') → Q (.error e) d')
    (hinside : ∀ d d', P d → f d = (.cut, d') → C d') : Ensures P (Prog.asks f) Q E C := by
  intro turns n d hd
  have hasked : Ends Q E C (match f d with
      | (.ok a, d') => ((.ok (.ok a), n + 1, d') : Ending ε' (Except ε α) × ℕ × δ)
      | (.error e, d') => (.ok (.error e), n + 1, d')
      | (.cut, d') => (.cut, n + 1, d')) := by
    rcases hend : f d with ⟨a | e | _, d'⟩
    · exact hok d a d' hd hend
    · exact herror d e d' hd hend
    · exact hinside d d' hd hend
  rw [Prog.asks]
  cases turns n with
  | done => exact hasked
  | refused => exact hasked
  | landed => exact hasked
  | cut => exact hcut d hd

theorem Ensures.mark {f : δ → δ} {Q : Unit → δ → Prop} (h : ∀ d, P d → Q () (f d)) :
    Ensures P (Prog.mark f : Prog δ ε Unit) Q E C :=
  fun _ _ d hd => h d hd

theorem Ensures.focus {get : δ → κ} {put : Ending ε α → κ → δ → δ} {x : Prog κ ε α} {start : δ}
    {Q : α → κ → Prop} {E : ε → κ → Prop} {C : κ → Prop} (hx : Ensures (· = get start) x Q E C) :
    Ensures (· = start) (Prog.focus get put x) (fun a d => ∃ k, Q a k ∧ d = put (.ok a) k start)
      (fun e d => ∃ k, E e k ∧ d = put (.error e) k start)
      (fun d => ∃ k, C k ∧ d = put .cut k start) := by
  rintro turns n d rfl
  have h := hx turns n (get d) rfl
  rw [Prog.focus]
  rcases hend : x turns (n, get d) with ⟨a | e | _, n', k⟩
  · rw [hend] at h
    exact ⟨k, h, rfl⟩
  · rw [hend] at h
    exact ⟨k, h, rfl⟩
  · rw [hend] at h
    exact ⟨k, h, rfl⟩

theorem Ensures.imp (hx : Ensures P x Q E C) (hP : ∀ d, P' d → P d) (hQ : ∀ a d, Q a d → Q' a d)
    (hE : ∀ e d, E e d → E' e d) (hC : ∀ d, C d → C' d) : Ensures P' x Q' E' C' := by
  intro turns n d hd
  have h := hx turns n d (hP d hd)
  rcases hend : x turns (n, d) with ⟨a | e | _, n', d'⟩
  · rw [hend] at h
    exact hQ a d' h
  · rw [hend] at h
    exact hE e d' h
  · rw [hend] at h
    exact hC d' h

/-- Fix what the disk was at the start. -/
theorem Ensures.of_start (h : ∀ start, P start → Ensures (· = start) x Q E C) :
    Ensures P x Q E C :=
  fun turns n d hd => h d hd turns n d rfl

/-! ## What every ending keeps -/

/-- An invariant of the disk. -/
def Keeps (P : δ → Prop) (x : Prog δ ε α) : Prop := Ensures P x (fun _ => P) (fun _ => P) P

theorem Keeps.ret (a : α) : Keeps P (pure a : Prog δ ε α) := Ensures.ret fun _ hd => hd

theorem Keeps.fail (e : ε) : Keeps P (Prog.fail e : Prog δ ε α) := Ensures.fail fun _ hd => hd

theorem Keeps.ofExcept (y : Except ε α) : Keeps P (Prog.ofExcept y) :=
  Ensures.ofExcept (fun _ _ _ hd => hd) fun _ _ hd => hd

theorem Keeps.look : Keeps P (Prog.look : Prog δ ε δ) := Ensures.look fun _ hd => hd

theorem Keeps.bind {f : α → Prog δ ε β} (hx : Keeps P x) (hf : ∀ a, Keeps P (f a)) :
    Keeps P (x >>= f) :=
  Ensures.bind hx hf

theorem Keeps.effect {e : ε} {f : δ → δ} (h : ∀ d, P d → P (f d)) : Keeps P (Prog.effect e f) :=
  Ensures.effect h (fun _ hd => hd) h fun _ hd => hd

theorem Keeps.observe {e : ε} {f : δ → Except ε α} : Keeps P (Prog.observe e f) :=
  Ensures.observe (fun _ _ hd _ => hd) (fun _ _ hd => hd) fun _ hd => hd

theorem Keeps.caught (hx : Keeps P x) : Keeps P (Prog.caught x : Prog δ ε' (Except ε α)) :=
  Ensures.caught hx

theorem Keeps.mark {f : δ → δ} (h : ∀ d, P d → P (f d)) : Keeps P (Prog.mark f : Prog δ ε Unit) :=
  Ensures.mark h

/-! ## From one disk -/

/-- Where a program from `start` may end: at `Q` with an answer, and at `G` without one. -/
def Leads (start : δ) (x : Prog δ ε α) (Q : α → δ → Prop) (G : δ → Prop) : Prop :=
  Ensures (· = start) x Q (fun _ => G) G

variable {start : δ} {G G' : δ → Prop}

theorem Leads.ret {a : α} (h : Q a start) : Leads start (pure a : Prog δ ε α) Q G :=
  Ensures.ret fun _ hd => hd ▸ h

theorem Leads.fail {e : ε} (h : G start) : Leads start (Prog.fail e) Q G :=
  Ensures.fail fun _ hd => hd ▸ h

theorem Leads.ofExcept {y : Except ε α} (hok : ∀ a, y = .ok a → Q a start) (h : G start) :
    Leads start (Prog.ofExcept y) Q G :=
  Ensures.ofExcept (fun a ha _ hd => hd ▸ hok a ha) fun _ _ hd => hd ▸ h

theorem Leads.bind {f : α → Prog δ ε β} (hx : Leads start x Q G)
    (hf : ∀ a d, Q a d → Leads d (f a) R G) : Leads start (x >>= f) R G :=
  Ensures.bind hx fun a => Ensures.of_start fun d hd => hf a d hd

theorem Leads.effect {Q : Unit → δ → Prop} {e : ε} {f : δ → δ} (hdone : Q () (f start))
    (hrefused : G start) (hlanded : G (f start)) : Leads start (Prog.effect e f) Q G :=
  Ensures.effect (fun _ hd => hd ▸ hdone) (fun _ hd => hd ▸ hrefused) (fun _ hd => hd ▸ hlanded)
    fun _ hd => hd ▸ hrefused

theorem Leads.observe {e : ε} {f : δ → Except ε α} (hok : ∀ a, f start = .ok a → Q a start)
    (h : G start) : Leads start (Prog.observe e f) Q G :=
  Ensures.observe (fun _ a hd ha => hd ▸ hok a (hd ▸ ha)) (fun _ _ hd => hd ▸ h)
    fun _ hd => hd ▸ h

theorem Leads.imp (hx : Leads start x Q G) (hQ : ∀ a d, Q a d → Q' a d)
    (hG : ∀ d, G d → G' d) : Leads start x Q' G' :=
  Ensures.imp hx (fun _ hd => hd) hQ (fun _ => hG) hG

/-- The answer does not matter. -/
theorem Leads.always (hx : Leads start x (fun _ => G) G) (turns : ℕ → Turn) (n : ℕ) :
    G (x turns (n, start)).2.2 := by
  have h := hx turns n start rfl
  rcases hend : x turns (n, start) with ⟨a | e | _, n', d'⟩
  · rw [hend] at h
    exact h
  · rw [hend] at h
    exact h
  · rw [hend] at h
    exact h

end Prog

end Rivect.Lib
