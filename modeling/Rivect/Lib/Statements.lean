import Rivect.Lib.Fallible

/-! # Programs of statements

A program acts on rows by single statements, and each of them may fail at its site. A statement
that fails leaves the rows alone, and outside a transaction what came before it stays; a transaction
keeps nothing of itself unless it commits. `Atomic` says that a call which failed left every row
alone, and `Sites` where it can fail, each with a rule for every way to build a program.
-/

namespace Rivect.Lib

/-- How a call ends: with an answer, with a refusal of its own, or at the statement that failed. -/
inductive Outcome (σ ε α : Type) where
  | done (a : α)
  | refused (e : ε)
  | stopped (site : σ) (e : ε)
deriving DecidableEq

namespace Outcome

variable {σ ε α : Type}

def answer : Outcome σ ε α → Except ε α
  | .done a => .ok a
  | .refused e => .error e
  | .stopped _ e => .error e

/-- The statement whose failure ended the call. -/
def failedAt : Outcome σ ε α → Option σ
  | .stopped site _ => some site
  | _ => none

theorem answer_of_failedAt {x : Outcome σ ε α} {site : σ} (h : x.failedAt = some site) :
    ∃ e, x.answer = .error e := by
  cases x with
  | done a => cases h
  | refused e => cases h
  | stopped other e => exact ⟨e, rfl⟩

end Outcome

/-- What the body of a transaction asks of it. -/
inductive Close (α : Type) where
  | commit (a : α)
  | drop (a : α)
deriving DecidableEq

/-- The rows and the answer of a transaction that began on some rows. -/
def Close.rows {δ α : Type} (d : δ) : δ × Close α → δ × α
  | (d', .commit a) => (d', a)
  | (_, .drop a) => (d, a)

/-- A program over rows; the sites at which a statement fails are given. -/
def Script (σ δ ε α : Type) : Type := (σ → Bool) → δ → Outcome σ ε α × δ

namespace Script

variable {σ δ κ ε α β : Type}

def ret (a : α) : Script σ δ ε α := fun _ d => (.done a, d)

def andThen (x : Script σ δ ε α) (f : α → Script σ δ ε β) : Script σ δ ε β := fun fails d =>
  match x fails d with
  | (.done a, d') => f a fails d'
  | (.refused e, d') => (.refused e, d')
  | (.stopped site e, d') => (.stopped site e, d')

instance : Monad (Script σ δ ε) where
  pure := ret
  bind := andThen

/-- A refusal that no statement makes. -/
def ofExcept : Except ε α → Script σ δ ε α
  | .ok a => ret a
  | .error e => fun _ d => (.refused e, d)

/-- One statement: it fails at its site with `e`, or where the rows refuse it. -/
def statement (site : σ) (e : ε) (f : δ → Except ε (δ × α)) : Script σ δ ε α := fun fails d =>
  if fails site then (.stopped site e, d)
  else
    match f d with
    | .ok (d', a) => (.done a, d')
    | .error refusal => (.stopped site refusal, d)

def read (site : σ) (e : ε) (f : δ → Except ε α) : Script σ δ ε α :=
  statement site e fun d => (f d).map fun a => (d, a)

def write (site : σ) (e : ε) (f : δ → Except ε δ) : Script σ δ ε Unit :=
  statement site e fun d => (f d).map fun d' => (d', ())

/-- A read that the rows always answer. -/
def look (site : σ) (e : ε) (f : δ → α) : Script σ δ ε α := read site e fun d => .ok (f d)

/-- A write that the rows never refuse. -/
def change (site : σ) (e : ε) (f : δ → δ) : Script σ δ ε Unit := write site e fun d => .ok (f d)

/-- How a transaction on `d` ends after its body: where it does not commit, the rows are back. -/
def finish (commits : σ) (e : ε) (fails : σ → Bool) (d : δ) :
    Outcome σ ε (Close α) × δ → Outcome σ ε α × δ
  | (.done (.commit a), d') => if fails commits then (.stopped commits e, d) else (.done a, d')
  | (.done (.drop a), _) => (.done a, d)
  | (.refused refusal, _) => (.refused refusal, d)
  | (.stopped site refusal, _) => (.stopped site refusal, d)

def transaction (begins commits : σ) (e : ε) (body : Script σ δ ε (Close α)) : Script σ δ ε α :=
  fun fails d =>
  if fails begins then (.stopped begins e, d) else finish commits e fails d (body fails d)

/-- A program on some of the tables. -/
def focus (get : δ → κ) (put : κ → δ → δ) (x : Script σ κ ε α) : Script σ δ ε α := fun fails d =>
  let ended := x fails (get d)
  (ended.1, put ended.2 d)

/-- A call whose answer is not read. -/
def void (x : Script σ δ ε α) : Script σ δ ε Unit := x >>= fun _ => ret ()

/-- The same writes for each of a list, one after the other. -/
def each (f : α → Script σ δ ε Unit) : List α → Script σ δ ε Unit
  | [] => ret ()
  | a :: rest => f a >>= fun _ => each f rest

/-! ## How a program runs -/

section Running

variable {fails : σ → Bool} {d : δ}

@[simp] theorem pure_run (a : α) : (pure a : Script σ δ ε α) fails d = (.done a, d) := rfl

@[simp] theorem ret_run (a : α) : (ret a : Script σ δ ε α) fails d = (.done a, d) := rfl

theorem bind_run (x : Script σ δ ε α) (f : α → Script σ δ ε β) :
    (x >>= f) fails d =
      match x fails d with
      | (.done a, d') => f a fails d'
      | (.refused e, d') => (.refused e, d')
      | (.stopped site e, d') => (.stopped site e, d') := rfl

theorem bind_of_done {x : Script σ δ ε α} {a : α} {d' : δ} (h : x fails d = (.done a, d'))
    (f : α → Script σ δ ε β) : (x >>= f) fails d = f a fails d' := by
  rw [bind_run, h]

theorem bind_of_stopped {x : Script σ δ ε α} {site : σ} {e : ε} {d' : δ}
    (h : x fails d = (.stopped site e, d')) (f : α → Script σ δ ε β) :
    (x >>= f) fails d = (.stopped site e, d') := by
  rw [bind_run, h]

/-- Where a sequence fails, it is in its first part or in the rest. -/
theorem bind_stopped {x : Script σ δ ε α} {f : α → Script σ δ ε β} {site : σ}
    (h : ((x >>= f) fails d).1.failedAt = some site) :
    ((x fails d).1.failedAt = some site ∧ ((x >>= f) fails d).2 = (x fails d).2) ∨
      ∃ a d', x fails d = (.done a, d') ∧ (x >>= f) fails d = f a fails d' := by
  rw [bind_run] at h ⊢
  cases hx : x fails d with
  | mk outcome d' =>
    rw [hx] at h
    cases outcome with
    | done a => exact .inr ⟨a, d', rfl, rfl⟩
    | refused e => cases h
    | stopped other e => exact .inl ⟨h, rfl⟩

@[simp] theorem void_rows (x : Script σ δ ε α) : (void x fails d).2 = (x fails d).2 := by
  unfold void
  rw [bind_run]
  cases hx : x fails d with
  | mk outcome d' => cases outcome <;> rfl

@[simp] theorem void_failedAt (x : Script σ δ ε α) :
    (void x fails d).1.failedAt = (x fails d).1.failedAt := by
  unfold void
  rw [bind_run]
  cases hx : x fails d with
  | mk outcome d' => cases outcome <;> rfl

@[simp] theorem focus_rows (get : δ → κ) (put : κ → δ → δ) (x : Script σ κ ε α) :
    (focus get put x fails d).2 = put (x fails (get d)).2 d := rfl

@[simp] theorem focus_failedAt (get : δ → κ) (put : κ → δ → δ) (x : Script σ κ ε α) :
    (focus get put x fails d).1.failedAt = (x fails (get d)).1.failedAt := rfl

/-- A statement that answered ran on the rows. -/
theorem statement_done {site : σ} {e : ε} {f : δ → Except ε (δ × α)} {a : α} {d' : δ}
    (h : statement site e f fails d = (.done a, d')) : f d = .ok (d', a) := by
  unfold statement at h
  split at h
  · cases h
  · cases hf : f d with
    | ok done =>
      rw [hf] at h
      cases h
      rfl
    | error refusal =>
      rw [hf] at h
      cases h

theorem read_done {site : σ} {e : ε} {f : δ → Except ε α} {a : α} {d' : δ}
    (h : read site e f fails d = (.done a, d')) : d' = d ∧ f d = .ok a := by
  have hrun := statement_done h
  cases hf : f d with
  | ok found =>
    rw [hf] at hrun
    cases hrun
    exact ⟨rfl, rfl⟩
  | error refusal =>
    rw [hf] at hrun
    cases hrun

theorem look_done {site : σ} {e : ε} {f : δ → α} {a : α} {d' : δ}
    (h : look site e f fails d = (.done a, d')) : d' = d ∧ a = f d := by
  obtain ⟨hrows, hok⟩ := read_done h
  cases hok
  exact ⟨hrows, rfl⟩

theorem ofExcept_done {x : Except ε α} {a : α} {d' : δ}
    (h : (ofExcept x : Script σ δ ε α) fails d = (.done a, d')) : d' = d ∧ x = .ok a := by
  cases x with
  | ok b =>
    cases h
    exact ⟨rfl, rfl⟩
  | error e => cases h

theorem write_done {site : σ} {e : ε} {f : δ → Except ε δ} {a : Unit} {d' : δ}
    (h : write site e f fails d = (.done a, d')) : f d = .ok d' := by
  have hrun := statement_done h
  cases hf : f d with
  | ok written =>
    rw [hf] at hrun
    cases hrun
    rfl
  | error refusal =>
    rw [hf] at hrun
    cases hrun

end Running

/-! ## Without a failing statement -/

def noFault : σ → Bool := fun _ => false

section NoFault

variable {d d' : δ} {site : σ}

theorem look_bind (e : ε) (f : δ → α) (k : α → Script σ δ ε β) :
    (look site e f >>= k) noFault d = k (f d) noFault d := rfl

theorem statement_noFault {f : δ → Except ε (δ × α)} {a : α} (h : f d = .ok (d', a)) (e : ε) :
    statement site e f noFault d = (.done a, d') := by
  unfold statement
  rw [if_neg (by simp [noFault]), h]

theorem write_noFault {f : δ → Except ε δ} (h : f d = .ok d') (e : ε) :
    write site e f noFault d = (.done (), d') :=
  statement_noFault (by rw [h]; rfl) e

theorem write_refused {f : δ → Except ε δ} {refusal : ε} (h : f d = .error refusal) (e : ε) :
    write site e f noFault d = (.stopped site refusal, d) := by
  unfold write statement
  rw [if_neg (by simp [noFault])]
  dsimp only
  rw [h]
  rfl

end NoFault

/-- Without a failing statement a program computes what a function computes at once; the rows of a
refusal are the program's own. -/
def Computes (x : Script σ δ ε α) (f : δ → Except ε (δ × α)) : Prop :=
  ∀ d, match f d with
    | .ok (d', a) => x noFault d = (.done a, d')
    | .error e => (x noFault d).1.answer = .error e

theorem map_eq_bind (x : Except ε α) (f : α → β) : x.map f = x >>= fun a => .ok (f a) := by
  cases x <;> rfl

section Computes

theorem Computes.ret (a : α) : Computes (Script.ret a : Script σ δ ε α) fun d => .ok (d, a) :=
  fun _ => rfl

theorem Computes.ofExcept (x : Except ε α) :
    Computes (Script.ofExcept x : Script σ δ ε α) fun d => x.map fun a => (d, a) := by
  intro d
  cases x <;> rfl

theorem Computes.statement (site : σ) (e : ε) (f : δ → Except ε (δ × α)) :
    Computes (Script.statement site e f) f := by
  intro d
  unfold Script.statement
  rw [if_neg (by simp [noFault])]
  cases f d <;> rfl

theorem Computes.read (site : σ) (e : ε) (f : δ → Except ε α) :
    Computes (Script.read site e f) fun d => (f d).map fun a => (d, a) := .statement site e _

theorem Computes.look (site : σ) (e : ε) (f : δ → α) :
    Computes (Script.look site e f) fun d => .ok (d, f d) := .read site e _

theorem Computes.write (site : σ) (e : ε) (f : δ → Except ε δ) :
    Computes (Script.write site e f) fun d => (f d).map fun d' => (d', ()) := .statement site e _

theorem Computes.change (site : σ) (e : ε) (f : δ → δ) :
    Computes (Script.change site e f) fun d => .ok (f d, ()) := .write site e _

theorem Computes.bind {x : Script σ δ ε α} {k : α → Script σ δ ε β}
    {f : δ → Except ε (δ × α)} {g : α → δ → Except ε (δ × β)} (hx : Computes x f)
    (hk : ∀ a, Computes (k a) (g a)) :
    Computes (x >>= k) fun d => f d >>= fun done => g done.2 done.1 := by
  intro d
  have hrun := hx d
  dsimp only
  cases hf : f d with
  | ok done =>
    rw [hf] at hrun
    rw [ok_bind]
    have hrest := hk done.2 done.1
    rw [← bind_of_done hrun k] at hrest
    exact hrest
  | error e =>
    rw [hf] at hrun
    change ((x >>= k) noFault d).1.answer = .error e
    rw [bind_run]
    split
    · rename_i hdone
      rw [hdone] at hrun
      cases hrun
    all_goals
      rename_i hstopped
      rw [hstopped] at hrun
      cases hrun
      rfl

theorem Computes.of_eq {x : Script σ δ ε α} {f g : δ → Except ε (δ × α)} (h : Computes x f)
    (heq : ∀ d, f d = g d) : Computes x g := by
  rwa [funext heq] at h

theorem Computes.each {f : α → Script σ δ ε Unit} {g : δ → α → Except ε δ}
    (h : ∀ a, Computes (f a) fun d => (g d a).map fun d' => (d', ())) (items : List α) :
    Computes (Script.each f items) fun d => (items.foldlM g d).map fun d' => (d', ()) := by
  induction items with
  | nil => exact .ret ()
  | cons a items ih =>
    refine (Computes.bind (h a) fun _ => ih).of_eq fun d => ?_
    rw [List.foldlM_cons]
    cases g d a <;> rfl

/-- Without a failing statement a transaction computes what its body does. -/
theorem Computes.transaction {begins commits : σ} {e : ε} {body : Script σ δ ε (Close α)}
    {f : δ → Except ε (δ × Close α)} (h : Computes body f) :
    Computes (Script.transaction begins commits e body) fun d => (f d).map (Close.rows d) := by
  intro d
  have hbody := h d
  have hrun : Script.transaction begins commits e body noFault d =
      finish commits e noFault d (body noFault d) := rfl
  rw [hrun]
  dsimp only
  cases hf : f d with
  | ok done =>
    obtain ⟨d', close⟩ := done
    rw [hf] at hbody
    rw [hbody]
    cases close <;> rfl
  | error refusal =>
    rw [hf] at hbody
    revert hbody
    rcases body noFault d with ⟨outcome, d'⟩
    intro hbody
    cases outcome with
    | done a => cases hbody
    | refused e' =>
      cases hbody
      rfl
    | stopped site e' =>
      cases hbody
      rfl

end Computes

/-- A call that answers did what it does without a failing statement. -/
def Honest (x : Script σ δ ε α) : Prop :=
  ∀ fails d a d', x fails d = (.done a, d') → x noFault d = (.done a, d')

section Honest

theorem Honest.ret (a : α) : Honest (Script.ret a : Script σ δ ε α) := fun _ _ _ _ h => h

theorem Honest.statement (site : σ) (e : ε) (f : δ → Except ε (δ × α)) :
    Honest (Script.statement site e f) :=
  fun _ _ _ _ h => statement_noFault (statement_done h) e

theorem Honest.read (site : σ) (e : ε) (f : δ → Except ε α) : Honest (Script.read site e f) :=
  .statement site e _

theorem Honest.write (site : σ) (e : ε) (f : δ → Except ε δ) : Honest (Script.write site e f) :=
  .statement site e _

theorem Honest.change (site : σ) (e : ε) (f : δ → δ) : Honest (Script.change site e f) :=
  .write site e _

theorem Honest.bind {x : Script σ δ ε α} {f : α → Script σ δ ε β} (hx : Honest x)
    (hf : ∀ a, Honest (f a)) : Honest (x >>= f) := by
  intro fails d b d' h
  rw [bind_run] at h
  split at h
  · rename_i a d'' hrun
    rw [bind_of_done (hx fails d a d'' hrun)]
    exact hf a fails d'' b d' h
  · cases h
  · cases h

theorem Honest.transaction {begins commits : σ} {e : ε} {body : Script σ δ ε (Close α)}
    (hbody : Honest body) : Honest (Script.transaction begins commits e body) := by
  intro fails d a d' h
  unfold Script.transaction at h
  split at h
  · cases h
  · change finish commits e noFault d (body noFault d) = _
    cases hrun : body fails d with
    | mk outcome d'' =>
      rw [hrun] at h
      cases outcome with
      | done close =>
        rw [hbody fails d close d'' hrun]
        cases close with
        | commit b =>
          unfold finish at h
          dsimp only at h
          split at h
          · cases h
          · exact h
        | drop b => exact h
      | refused e' => cases h
      | stopped site e' => cases h

end Honest

/-! ## Where a program can fail -/

/-- Every statement that ends the program is at one of the sites. -/
def Sites (S : σ → Prop) (x : Script σ δ ε α) : Prop :=
  ∀ fails d site, (x fails d).1.failedAt = some site → S site

section Sites

variable {S : σ → Prop}

theorem Sites.ret (a : α) : Sites S (Script.ret a : Script σ δ ε α) := fun _ _ _ h => by cases h

theorem Sites.ofExcept (x : Except ε α) : Sites S (Script.ofExcept x : Script σ δ ε α) := by
  intro fails d site h
  cases x <;> cases h

theorem Sites.statement {site : σ} (h : S site) (e : ε) (f : δ → Except ε (δ × α)) :
    Sites S (Script.statement site e f) := by
  intro fails d other hother
  unfold Script.statement at hother
  split at hother
  · cases hother
    exact h
  · split at hother
    · cases hother
    · cases hother
      exact h

theorem Sites.read {site : σ} (h : S site) (e : ε) (f : δ → Except ε α) :
    Sites S (Script.read site e f) := .statement h e _

theorem Sites.write {site : σ} (h : S site) (e : ε) (f : δ → Except ε δ) :
    Sites S (Script.write site e f) := .statement h e _

theorem Sites.look {site : σ} (h : S site) (e : ε) (f : δ → α) :
    Sites S (Script.look site e f) := .read h e _

theorem Sites.change {site : σ} (h : S site) (e : ε) (f : δ → δ) :
    Sites S (Script.change site e f) := .write h e _

theorem Sites.bind {x : Script σ δ ε α} {f : α → Script σ δ ε β} (hx : Sites S x)
    (hf : ∀ a, Sites S (f a)) : Sites S (x >>= f) := by
  intro fails d site h
  rcases bind_stopped h with ⟨hfirst, -⟩ | ⟨a, d', -, hrest⟩
  · exact hx fails d site hfirst
  · rw [hrest] at h
    exact hf a fails d' site h

theorem Sites.transaction {begins commits : σ} (hbegins : S begins) (hcommits : S commits) (e : ε)
    {body : Script σ δ ε (Close α)} (hbody : Sites S body) :
    Sites S (Script.transaction begins commits e body) := by
  intro fails d site h
  have hbody := hbody fails d
  unfold Script.transaction at h
  split at h
  · cases h
    exact hbegins
  · revert hbody h
    rcases body fails d with ⟨outcome, d'⟩
    intro hbody h
    cases outcome with
    | done close =>
      cases close with
      | commit a =>
        unfold finish at h
        dsimp only at h
        split at h
        · cases h
          exact hcommits
        · cases h
      | drop a => cases h
    | refused e' => cases h
    | stopped other e' => exact hbody site h

end Sites

/-! ## All or nothing -/

/-- A call that did not answer left the rows as they were. -/
def Atomic (x : Script σ δ ε α) : Prop :=
  ∀ fails d e, (x fails d).1.answer = .error e → (x fails d).2 = d

theorem Atomic.rows {x : Script σ δ ε α} (h : Atomic x) {fails : σ → Bool} {d : δ} {site : σ}
    (hsite : (x fails d).1.failedAt = some site) : (x fails d).2 = d := by
  obtain ⟨e, he⟩ := Outcome.answer_of_failedAt hsite
  exact h fails d e he

/-- A call that leaves a part of the rows alone. -/
def Keeps (part : δ → κ) (x : Script σ δ ε α) : Prop := ∀ fails d, part (x fails d).2 = part d

/-- A call that writes nothing. -/
def Quiet (x : Script σ δ ε α) : Prop := Keeps id x

section Keeps

variable {part : δ → κ}

theorem Keeps.ret (a : α) : Keeps part (Script.ret a : Script σ δ ε α) := fun _ _ => rfl

theorem Keeps.ofExcept (x : Except ε α) : Keeps part (Script.ofExcept x : Script σ δ ε α) := by
  intro fails d
  cases x <;> rfl

theorem Keeps.statement (site : σ) (e : ε) {f : δ → Except ε (δ × α)}
    (h : ∀ d d' a, f d = .ok (d', a) → part d' = part d) :
    Keeps part (Script.statement site e f) := by
  intro fails d
  unfold Script.statement
  split
  · rfl
  · cases hf : f d with
    | ok done => exact h d done.1 done.2 hf
    | error e => rfl

theorem Keeps.read (site : σ) (e : ε) (f : δ → Except ε α) :
    Keeps part (Script.read site e f) := by
  refine .statement site e ?_
  intro d d' a h
  cases hf : f d with
  | ok found =>
    rw [hf] at h
    cases h
    rfl
  | error e =>
    rw [hf] at h
    cases h

theorem Keeps.write (site : σ) (e : ε) {f : δ → Except ε δ}
    (h : ∀ d d', f d = .ok d' → part d' = part d) : Keeps part (Script.write site e f) := by
  refine .statement site e ?_
  intro d d' a hrun
  cases hf : f d with
  | ok written =>
    rw [hf] at hrun
    cases hrun
    exact h d _ hf
  | error e =>
    rw [hf] at hrun
    cases hrun

theorem Keeps.bind {x : Script σ δ ε α} {f : α → Script σ δ ε β} (hx : Keeps part x)
    (hf : ∀ a, Keeps part (f a)) : Keeps part (x >>= f) := by
  intro fails d
  have hsame := hx fails d
  rw [bind_run]
  split
  · rename_i a d' hrun
    rw [hrun] at hsame
    exact (hf a fails d').trans hsame
  all_goals
    rename_i hrun
    rw [hrun] at hsame
    exact hsame

end Keeps

theorem Quiet.atomic {x : Script σ δ ε α} (h : Quiet x) : Atomic x := fun fails d _ _ => h fails d

theorem Quiet.read (site : σ) (e : ε) (f : δ → Except ε α) : Quiet (Script.read site e f) :=
  Keeps.read site e f

theorem Quiet.look (site : σ) (e : ε) (f : δ → α) : Quiet (Script.look site e f) :=
  Quiet.read site e _

theorem Atomic.statement (site : σ) (e : ε) (f : δ → Except ε (δ × α)) :
    Atomic (Script.statement site e f) := by
  intro fails d refusal h
  unfold Script.statement at h ⊢
  split
  · rfl
  · rename_i hruns
    rw [if_neg hruns] at h
    cases hf : f d with
    | ok done =>
      rw [hf] at h
      cases h
    | error e => rfl

theorem Atomic.write (site : σ) (e : ε) (f : δ → Except ε δ) : Atomic (Script.write site e f) :=
  .statement site e _

theorem Atomic.change (site : σ) (e : ε) (f : δ → δ) : Atomic (Script.change site e f) :=
  .write site e _

/-- Whatever its body does, a transaction is all or nothing. -/
theorem Atomic.transaction (begins commits : σ) (e : ε) (body : Script σ δ ε (Close α)) :
    Atomic (Script.transaction begins commits e body) := by
  intro fails d refusal h
  unfold Script.transaction at h ⊢
  split
  · rfl
  · rename_i hbegins
    rw [if_neg hbegins] at h
    revert h
    rcases body fails d with ⟨outcome, d'⟩
    intro h
    cases outcome with
    | done close =>
      cases close with
      | commit a =>
        unfold finish at h ⊢
        dsimp only at h ⊢
        split
        · rfl
        · rename_i hcommits
          rw [if_neg hcommits] at h
          cases h
      | drop a => rfl
    | refused e' => rfl
    | stopped site e' => rfl

/-- Reads may stand before a program that is all or nothing. -/
theorem Atomic.bind_of_quiet {x : Script σ δ ε α} {f : α → Script σ δ ε β} (hx : Quiet x)
    (hf : ∀ a, Atomic (f a)) : Atomic (x >>= f) := by
  intro fails d e h
  have hsame := hx fails d
  rw [bind_run] at h ⊢
  split
  · rename_i a d' hrun
    rw [hrun] at h hsame
    exact (hf a fails d' e h).trans hsame
  all_goals
    rename_i hrun
    rw [hrun] at hsame
    exact hsame

end Script

end Rivect.Lib
