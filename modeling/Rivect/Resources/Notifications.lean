import Mathlib.Data.List.Basic
import Rivect.Lib.Run

/-! # The notification queue

`NotificationQueue` of `src/resources.rs`. A push that finds the queue full discards the whole
backlog and raises one overflow mark, which the next drain delivers ahead of the events. The events
are told apart by their ordinals among the pushes.
-/

namespace Rivect.Resources

open Lib List

variable {α β : Type}

inductive Delivery (α : Type) where
  | event (e : α)
  | resyncMarker
deriving DecidableEq

structure NotificationQueue (α : Type) where
  capacity : ℕ
  pending : List α := []
  overflowed : Bool := false
deriving DecidableEq

namespace NotificationQueue

def push (queue : NotificationQueue α) (event : α) : NotificationQueue α :=
  let kept := if queue.capacity ≤ queue.pending.length then
    { queue with pending := [], overflowed := true } else queue
  { kept with pending := kept.pending ++ [event] }

/-- The deliveries once `out` is filled up to the limit, and the events that stay pending. -/
def drainInto (limit : ℕ) : List (Delivery α) → List α → List (Delivery α) × List α
  | out, [] => (out, [])
  | out, event :: pending =>
    if out.length < limit then drainInto limit (out ++ [.event event]) pending
    else (out, event :: pending)

def drain (queue : NotificationQueue α) (limit : ℕ) : List (Delivery α) × NotificationQueue α :=
  let marker := if queue.overflowed then [.resyncMarker] else []
  let drained := drainInto limit marker queue.pending
  (drained.1, { queue with pending := drained.2, overflowed := false })

end NotificationQueue

/-! ## Runs of pushes and drains -/

inductive QueueOp (α : Type) where
  | push (event : α)
  | drain (limit : ℕ)

/-- The queue with all it has delivered. -/
structure Served (α : Type) where
  queue : NotificationQueue α
  delivered : List (Delivery α)

namespace Served

def step (served : Served α) : QueueOp α → Served α
  | .push event => { served with queue := served.queue.push event }
  | .drain limit =>
    ⟨(served.queue.drain limit).2, served.delivered ++ (served.queue.drain limit).1⟩

def start (capacity : ℕ) : Served α := ⟨{ capacity := capacity }, []⟩

def run (capacity : ℕ) (ops : List (QueueOp α)) : Served α := ops.foldl step (start capacity)

end Served

def pushes (ops : List (QueueOp α)) : List α :=
  ops.filterMap fun
    | .push event => some event
    | .drain _ => none

def events (deliveries : List (Delivery α)) : List α :=
  deliveries.filterMap fun
    | .event event => some event
    | .resyncMarker => none

theorem events_append (xs ys : List (Delivery α)) : events (xs ++ ys) = events xs ++ events ys :=
  filterMap_append

@[simp] theorem events_map_event (xs : List α) : events (xs.map Delivery.event) = xs := by
  unfold events
  rw [filterMap_map]
  exact filterMap_some

/-! ## What one drain delivers -/

namespace NotificationQueue

theorem drainInto_eq (limit : ℕ) (out : List (Delivery α)) (pending : List α) :
    drainInto limit out pending =
      (out ++ (pending.take (limit - out.length)).map .event,
        pending.drop (limit - out.length)) := by
  induction pending generalizing out with
  | nil => simp [drainInto]
  | cons event pending ih =>
    rw [drainInto]
    split
    · rename_i hroom
      rw [ih, length_append, length_singleton]
      have hleft : limit - out.length = (limit - (out.length + 1)) + 1 := by omega
      rw [hleft, take_succ_cons, drop_succ_cons, map_cons, append_assoc,
        singleton_append]
    · rename_i hfull
      have hleft : limit - out.length = 0 := by omega
      simp [hleft]

/-- What a drain delivers ahead of the events. -/
def marker (queue : NotificationQueue α) : List (Delivery α) :=
  if queue.overflowed then [.resyncMarker] else []

theorem drain_eq (queue : NotificationQueue α) (limit : ℕ) :
    queue.drain limit =
      (queue.marker ++ (queue.pending.take (limit - queue.marker.length)).map .event,
        { queue with
          pending := queue.pending.drop (limit - queue.marker.length), overflowed := false }) := by
  simp only [drain, drainInto_eq]
  rfl

theorem marker_length_le (queue : NotificationQueue α) : queue.marker.length ≤ 1 := by
  unfold marker
  split <;> simp

@[simp] theorem events_marker (queue : NotificationQueue α) : events queue.marker = [] := by
  unfold marker
  split <;> rfl

theorem drain_length_le (queue : NotificationQueue α) {limit : ℕ} (h : 1 ≤ limit) :
    (queue.drain limit).1.length ≤ limit := by
  rw [drain_eq, length_append, length_map, length_take]
  have := queue.marker_length_le
  omega

end NotificationQueue

/-! ## Names of the events -/

/-- An event with its ordinal among the pushes. -/
structure Pushed (α : Type) where
  ordinal : ℕ
  event : α
deriving DecidableEq

def numbered : ℕ → List (QueueOp α) → List (QueueOp (Pushed α))
  | _, [] => []
  | n, .push event :: ops => .push ⟨n, event⟩ :: numbered (n + 1) ops
  | n, .drain limit :: ops => .drain limit :: numbered n ops

/-- The pushes are in the order of their ordinals. -/
def Ordered (pushed : List (Pushed α)) : Prop :=
  pushed.Pairwise fun a b => a.ordinal < b.ordinal

theorem le_ordinal (n : ℕ) (ops : List (QueueOp α)) :
    ∀ e ∈ pushes (numbered n ops), n ≤ e.ordinal := by
  induction ops generalizing n with
  | nil => exact fun _ he => absurd he not_mem_nil
  | cons op ops ih =>
    cases op with
    | push event =>
      intro e he
      rcases mem_cons.mp he with rfl | he
      · exact Nat.le_refl n
      · exact Nat.le_of_succ_le (ih (n + 1) e he)
    | drain limit => exact ih n

theorem numbered_ordered (n : ℕ) (ops : List (QueueOp α)) :
    Ordered (pushes (numbered n ops)) := by
  induction ops generalizing n with
  | nil => exact List.Pairwise.nil
  | cons op ops ih =>
    cases op with
    | push event => exact List.Pairwise.cons (fun e he => le_ordinal (n + 1) ops e he) (ih (n + 1))
    | drain limit => exact ih n

/-! ## Names change nothing -/

def Delivery.map (f : α → β) : Delivery α → Delivery β
  | .event e => .event (f e)
  | .resyncMarker => .resyncMarker

def NotificationQueue.map (f : α → β) (queue : NotificationQueue α) : NotificationQueue β :=
  ⟨queue.capacity, queue.pending.map f, queue.overflowed⟩

def QueueOp.map (f : α → β) : QueueOp α → QueueOp β
  | .push event => .push (f event)
  | .drain limit => .drain limit

def Served.map (f : α → β) (served : Served α) : Served β :=
  ⟨served.queue.map f, served.delivered.map (Delivery.map f)⟩

theorem step_map (f : α → β) (served : Served α) (op : QueueOp α) :
    (served.step op).map f = (served.map f).step (op.map f) := by
  obtain ⟨⟨capacity, pending, overflowed⟩, delivered⟩ := served
  cases op with
  | push event =>
    simp only [Served.step, Served.map, QueueOp.map, NotificationQueue.push, NotificationQueue.map,
      length_map]
    split <;> simp
  | drain limit =>
    have hmarker : ((NotificationQueue.mk capacity pending overflowed).map f).marker =
        ((NotificationQueue.mk capacity pending overflowed).marker).map (Delivery.map f) := by
      cases overflowed <;> rfl
    simp only [Served.step, Served.map, QueueOp.map, NotificationQueue.drain_eq, hmarker,
      length_map, map_append, map_map]
    simp [NotificationQueue.map, Function.comp_def, Delivery.map]

theorem run_map (f : α → β) (capacity : ℕ) (ops : List (QueueOp α)) :
    (Served.run capacity ops).map f = Served.run capacity (ops.map (QueueOp.map f)) := by
  have hfrom : ∀ served : Served α, (ops.foldl Served.step served).map f =
      (ops.map (QueueOp.map f)).foldl Served.step (served.map f) := by
    induction ops with
    | nil => exact fun _ => rfl
    | cons op ops ih =>
      intro served
      rw [foldl_cons, map_cons, foldl_cons, ih, step_map]
  exact hfrom _

theorem numbered_map (n : ℕ) (ops : List (QueueOp α)) :
    (numbered n ops).map (QueueOp.map Pushed.event) = ops := by
  induction ops generalizing n with
  | nil => rfl
  | cons op ops ih =>
    cases op with
    | push event => exact congrArg (QueueOp.push event :: ·) (ih (n + 1))
    | drain limit => exact congrArg (QueueOp.drain limit :: ·) (ih n)

/-! ## What a run keeps -/

/-- A marker comes after every delivery pushed before the event and before every later one. -/
def Separated (delivered : List (Delivery (Pushed α))) (e : Pushed α) : Prop :=
  ∃ before after, delivered = before ++ .resyncMarker :: after ∧
    (∀ x ∈ events before, x.ordinal < e.ordinal) ∧ (∀ x ∈ events after, e.ordinal < x.ordinal)

/-- A lost event is older than all that is pending, and a marker stands or will stand for it. -/
structure Marked (served : Served (Pushed α)) (e : Pushed α) : Prop where
  older : ∀ x ∈ served.queue.pending, e.ordinal < x.ordinal
  marked : Separated served.delivered e ∨ (served.queue.overflowed = true ∧
    ∀ x ∈ events served.delivered, x.ordinal < e.ordinal)

structure Kept (capacity : ℕ) (pushed : List (Pushed α)) (served : Served (Pushed α)) : Prop where
  bound : served.queue.capacity = capacity
  room : served.queue.pending.length ≤ capacity
  order : (events served.delivered ++ served.queue.pending).Sublist pushed
  lost : ∀ e ∈ pushed, e ∉ events served.delivered → e ∉ served.queue.pending → Marked served e

variable {capacity : ℕ} {pushed : List (Pushed α)} {served : Served (Pushed α)} {e : Pushed α}

theorem Separated.append (h : Separated served.delivered e) {out : List (Delivery (Pushed α))}
    (hout : ∀ x ∈ events out, e.ordinal < x.ordinal) : Separated (served.delivered ++ out) e := by
  obtain ⟨before, after, hdelivered, hbefore, hafter⟩ := h
  refine ⟨before, after ++ out, by rw [hdelivered]; simp, hbefore, ?_⟩
  intro x hx
  rw [events_append] at hx
  exact (mem_append.mp hx).elim (hafter x) (hout x)

theorem Kept.delivered_before (h : Kept capacity pushed served) (hpushed : Ordered pushed)
    {x y : Pushed α} (hx : x ∈ events served.delivered) (hy : y ∈ served.queue.pending) :
    x.ordinal < y.ordinal :=
  (pairwise_append.mp (hpushed.sublist h.order)).2.2 x hx y hy

theorem Kept.push (h : Kept capacity pushed served) (hcapacity : 1 ≤ capacity)
    (hpushed : Ordered (pushed ++ [e])) :
    Kept capacity (pushed ++ [e]) (served.step (.push e)) := by
  have hordered : Ordered pushed := (pairwise_append.mp hpushed).1
  have hnewest : ∀ x ∈ pushed, x.ordinal < e.ordinal := fun x hx =>
    (pairwise_append.mp hpushed).2.2 x hx e (mem_singleton.mpr rfl)
  by_cases hfull : served.queue.capacity ≤ served.queue.pending.length
  · have hqueue : served.queue.push e = ⟨served.queue.capacity, [e], true⟩ := by
      simp [NotificationQueue.push, hfull]
    refine ⟨by rw [Served.step, hqueue]; exact h.bound, ?_, ?_, ?_⟩
    · rw [Served.step, hqueue]
      exact hcapacity
    · rw [Served.step, hqueue]
      exact ((sublist_append_left _ _).trans h.order).append (Sublist.refl [e])
    · intro x hx hdelivered hpending
      rw [Served.step, hqueue] at hpending
      have hx : x ∈ pushed := (mem_append.mp hx).resolve_right hpending
      rw [Served.step, hqueue]
      refine ⟨fun y hy => mem_singleton.mp hy ▸ hnewest x hx, ?_⟩
      by_cases hheld : x ∈ served.queue.pending
      · exact Or.inr ⟨rfl, fun y hy => h.delivered_before hordered hy hheld⟩
      · exact (h.lost x hx hdelivered hheld).marked.imp id fun hmarked => ⟨rfl, hmarked.2⟩
  · have hqueue : served.queue.push e =
        { served.queue with pending := served.queue.pending ++ [e] } := by
      simp [NotificationQueue.push, hfull]
    rw [h.bound] at hfull
    refine ⟨by rw [Served.step, hqueue]; exact h.bound, ?_, ?_, ?_⟩
    · rw [Served.step, hqueue]
      simp only [length_append, length_singleton]
      omega
    · rw [Served.step, hqueue]
      rw [← append_assoc]
      exact h.order.append (Sublist.refl [e])
    · intro x hx hdelivered hpending
      rw [Served.step, hqueue] at hpending
      have hpending := not_or.mp fun hmem => hpending (mem_append.mpr hmem)
      have hx : x ∈ pushed := (mem_append.mp hx).resolve_right hpending.2
      have hlost := h.lost x hx hdelivered hpending.1
      rw [Served.step, hqueue]
      refine ⟨fun y hy => ?_, hlost.marked⟩
      rcases mem_append.mp hy with hy | hy
      · exact hlost.older y hy
      · exact mem_singleton.mp hy ▸ hnewest x hx

theorem Kept.drain (h : Kept capacity pushed served) (limit : ℕ) :
    Kept capacity pushed (served.step (.drain limit)) := by
  rw [Served.step, NotificationQueue.drain_eq]
  let n := limit - served.queue.marker.length
  have hevents : events (served.delivered ++
      (served.queue.marker ++ (served.queue.pending.take n).map .event)) =
      events served.delivered ++ served.queue.pending.take n := by
    rw [events_append, events_append, NotificationQueue.events_marker, nil_append,
      events_map_event]
  refine ⟨h.bound, ?_, ?_, ?_⟩
  · exact Nat.le_trans (drop_sublist _ _).length_le h.room
  · change (events (_ ++ _) ++ served.queue.pending.drop n).Sublist pushed
    rw [hevents, append_assoc, take_append_drop]
    exact h.order
  · intro x hx hdelivered hpending
    rw [hevents, mem_append, not_or] at hdelivered
    have hheld : x ∉ served.queue.pending := by
      intro hmem
      rw [← take_append_drop n served.queue.pending, mem_append] at hmem
      exact hmem.elim hdelivered.2 hpending
    have hlost := h.lost x hx hdelivered.1 hheld
    have hout : ∀ y ∈ events ((served.queue.pending.take n).map Delivery.event),
        x.ordinal < y.ordinal := by
      intro y hy
      rw [events_map_event] at hy
      exact hlost.older y (mem_of_mem_take hy)
    refine ⟨fun y hy => hlost.older y (mem_of_mem_drop hy), Or.inl ?_⟩
    rcases hlost.marked with hseparated | ⟨hoverflowed, hbefore⟩
    · refine hseparated.append fun y hy => ?_
      rw [events_append, NotificationQueue.events_marker, nil_append] at hy
      exact hout y hy
    · refine ⟨served.delivered, (served.queue.pending.take n).map .event, ?_, hbefore, hout⟩
      simp [NotificationQueue.marker, hoverflowed, n]

theorem kept_run (hcapacity : 1 ≤ capacity) (ops : List (QueueOp (Pushed α)))
    (hops : Ordered (pushes ops)) : Kept capacity (pushes ops) (Served.run capacity ops) := by
  have hrun := Run.of_foldl Served.step (Served.start (α := Pushed α) capacity) ops
  refine Run.history (I := fun pre served =>
    Ordered (pushes pre) → Kept capacity (pushes pre) served) ?_ ?_ hrun hops
  · exact fun _ => ⟨rfl, Nat.zero_le _, Sublist.refl _, fun _ he => absurd he not_mem_nil⟩
  · rintro pre op served _ - hkept rfl hordered
    have happend : pushes (pre ++ [op]) = pushes pre ++ pushes [op] := filterMap_append
    rw [happend] at hordered ⊢
    have hkept := hkept (pairwise_append.mp hordered).1
    cases op with
    | push e => exact hkept.push hcapacity hordered
    | drain limit =>
      rw [show pushes [QueueOp.drain limit] = ([] : List (Pushed α)) from rfl, append_nil]
      exact hkept.drain limit

/-- No loss is silent: over any run, deliveries are pushes in their order, a drain and the queue
keep to their bounds, and a marker stands between what was delivered before a lost event and after
it, or is about to. -/
theorem no_silent_loss (capacity : ℕ) (hcapacity : 1 ≤ capacity) (ops : List (QueueOp α)) :
    let served := Served.run capacity (numbered 0 ops)
    served.map Pushed.event = Served.run capacity ops ∧
    Ordered (pushes (numbered 0 ops)) ∧
    (events served.delivered).Sublist (pushes (numbered 0 ops)) ∧
    (∀ limit, 1 ≤ limit → (served.queue.drain limit).1.length ≤ limit) ∧
    served.queue.pending.length ≤ capacity ∧
    (∀ e ∈ pushes (numbered 0 ops), e ∉ events served.delivered → e ∉ served.queue.pending →
      served.queue.overflowed = true ∨ Separated served.delivered e) := by
  intro served
  have hordered := numbered_ordered 0 ops
  have hkept := kept_run hcapacity (numbered 0 ops) hordered
  refine ⟨?_, hordered, (sublist_append_left _ _).trans hkept.order,
    fun limit => served.queue.drain_length_le, hkept.room, ?_⟩
  · rw [run_map, numbered_map]
  · intro e he hdelivered hpending
    exact (hkept.lost e he hdelivered hpending).marked.symm.imp And.left id

/-- Three pushes into a room of two and two drains: the marker stands where two were lost. -/
theorem no_silent_loss_overflow :
    let ops := [.push 'a', .push 'b', .push 'c', .drain 1, .drain 4]
    Separated (Served.run 2 (numbered 0 ops)).delivered ⟨0, 'a'⟩ ∧
      Separated (Served.run 2 (numbered 0 ops)).delivered ⟨1, 'b'⟩ := by
  intro ops
  obtain ⟨-, -, -, -, -, hlost⟩ := no_silent_loss 2 (by decide) ops
  constructor
  · exact (hlost ⟨0, 'a'⟩ (by decide) (by decide) (by decide)).resolve_left (by decide)
  · exact (hlost ⟨1, 'b'⟩ (by decide) (by decide) (by decide)).resolve_left (by decide)

example : (Served.run 2 [.push 'a', .push 'b', .push 'c', .drain 1, .drain 4]).delivered =
    [.resyncMarker, .event 'c'] := by decide

end Rivect.Resources
