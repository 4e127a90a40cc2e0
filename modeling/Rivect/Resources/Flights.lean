import Mathlib.Data.List.AList
import Mathlib.Data.List.Dedup
import Mathlib.Data.List.Perm.Subperm
import Rivect.Lib.Run

/-! # Single flights

`src/resources.rs`: the registry that merges identical permitted reads into one physical read. A
path is its components; the observation of a read is of any type.
-/

namespace Rivect.Resources

open Lib List

structure SnapshotBinding where
  dev : ℕ
  ino : ℕ
deriving DecidableEq

structure ReadRights where
  grantId : String
  mode : String
deriving DecidableEq

structure ReadFlightKey where
  target : List String
  snapshot : SnapshotBinding
  scopeRoot : List String
  rights : ReadRights
deriving DecidableEq

structure Flight (ω : Type) where
  members : List String
  observation : Option ω

inductive FlightRole where
  | leader
  | follower
deriving DecidableEq

structure ReadFlights (ω : Type) where
  flights : AList fun _ : ReadFlightKey => List (Flight ω)
  byAttempt : AList fun _ : String => ReadFlightKey

variable {ω : Type}

/-- A member leaves one flight, whose observation may be set; an empty flight is removed. -/
def leaveAt (flights : List (Flight ω)) (index : ℕ) (attemptId : String)
    (observe : Option ω → Option ω) : List (Flight ω) :=
  match flights[index]? with
  | none => flights
  | some flight =>
    let members := flight.members.filter (· ≠ attemptId)
    if members.isEmpty then flights.eraseIdx index
    else flights.set index ⟨members, observe flight.observation⟩

namespace ReadFlights

def new : ReadFlights ω := ⟨∅, ∅⟩

/-- The flights stored under a key. -/
def held (r : ReadFlights ω) (key : ReadFlightKey) : List (Flight ω) :=
  (r.flights.lookup key).getD []

def subscribe (r : ReadFlights ω) (key : ReadFlightKey) (attemptId : String) :
    ReadFlights ω × FlightRole :=
  let joined (flights : List (Flight ω)) (role : FlightRole) : ReadFlights ω × FlightRole :=
    (⟨r.flights.insert key flights, r.byAttempt.insert attemptId key⟩, role)
  match (r.held key).getLast? with
  | some ⟨members, none⟩ =>
    joined ((r.held key).dropLast ++ [⟨members ++ [attemptId], none⟩]) .follower
  | _ => joined (r.held key ++ [⟨[attemptId], none⟩]) .leader

def role (r : ReadFlights ω) (attemptId : String) : Option FlightRole := do
  let key ← r.byAttempt.lookup attemptId
  let flights ← r.flights.lookup key
  let flight ← flights.find? (attemptId ∈ ·.members)
  return if flight.members.head? = some attemptId then .leader else .follower

def flightIndex (r : ReadFlights ω) (attemptId : String) :
    Option (ReadFlightKey × List (Flight ω) × ℕ) := do
  let key ← r.byAttempt.lookup attemptId
  let flights ← r.flights.lookup key
  let index ← flights.findIdx? (attemptId ∈ ·.members)
  return (key, flights, index)

def takeShared (r : ReadFlights ω) (attemptId : String) : ReadFlights ω × Option ω :=
  match r.flightIndex attemptId with
  | none => (r, none)
  | some (key, flights, index) =>
    match flights[index]?.bind Flight.observation with
    | none => (r, none)
    | some observation =>
      (⟨r.flights.insert key (leaveAt flights index attemptId id),
        r.byAttempt.erase attemptId⟩, some observation)

def settle (r : ReadFlights ω) (attemptId : String) (observation : ω) : ReadFlights ω :=
  match r.flightIndex attemptId with
  | none => r
  | some (key, flights, index) =>
    ⟨r.flights.insert key (leaveAt flights index attemptId fun _ => some observation),
      r.byAttempt.erase attemptId⟩

def dropMember (r : ReadFlights ω) (attemptId : String) : ReadFlights ω :=
  match r.byAttempt.lookup attemptId with
  | none => r
  | some key =>
    match r.flights.lookup key with
    | none => r
    | some flights =>
      ⟨r.flights.insert key ((flights.map fun flight =>
          { flight with members := flight.members.filter (· ≠ attemptId) }).filter
            fun flight => !flight.members.isEmpty),
        r.byAttempt.erase attemptId⟩

end ReadFlights

/-! ## Histories -/

/-- One call and its answer. -/
inductive Event (ω : Type) where
  | subscribe (key : ReadFlightKey) (attemptId : String) (role : FlightRole)
  | role (attemptId : String) (answer : Option FlightRole)
  | takeShared (attemptId : String) (answer : Option ω)
  | settle (attemptId : String) (observation : ω)
  | dropMember (attemptId : String)

namespace ReadFlights

/-- The call leads to the registry and answers what the event says. -/
def Step (r : ReadFlights ω) : Event ω → ReadFlights ω → Prop
  | .subscribe key attemptId role, r' => r.subscribe key attemptId = (r', role)
  | .role attemptId answer, r' => r' = r ∧ r.role attemptId = answer
  | .takeShared attemptId answer, r' => r.takeShared attemptId = (r', answer)
  | .settle attemptId observation, r' => r.settle attemptId observation = r'
  | .dropMember attemptId, r' => r.dropMember attemptId = r'

end ReadFlights

/-- The attempts that have subscribed and not yet executed or left, with their keys. -/
def liveStep (live : List (String × ReadFlightKey)) : Event ω → List (String × ReadFlightKey)
  | .subscribe key attemptId _ => live.filter (·.1 ≠ attemptId) ++ [(attemptId, key)]
  | .takeShared attemptId (some _) | .settle attemptId _ | .dropMember attemptId =>
    live.filter (·.1 ≠ attemptId)
  | .takeShared _ none | .role _ _ => live

def live (events : List (Event ω)) : List (String × ReadFlightKey) := events.foldl liveStep []

/-- The attempts that subscribed, in order. -/
def subscribers (events : List (Event ω)) : List String :=
  events.filterMap fun
    | .subscribe _ attemptId _ => some attemptId
    | _ => none

/-- The keys subscribed with, in order. -/
def subscribedKeys (events : List (Event ω)) : List ReadFlightKey :=
  events.filterMap fun
    | .subscribe key _ _ => some key
    | _ => none

/-! ## The attempts a registry maps -/

section

variable {flights : List (Flight ω)} {attemptId m : String} {index : ℕ}
  {observe : Option ω → Option ω}

/-- Some flight of the list seats the attempt. -/
def Seated (flights : List (Flight ω)) (m : String) : Prop := ∃ f ∈ flights, m ∈ f.members

theorem seated_leaveAt (hm : m ≠ attemptId) (h : Seated flights m) :
    Seated (leaveAt flights index attemptId observe) m := by
  obtain ⟨f, hf, hmem⟩ := h
  unfold leaveAt
  split
  · exact ⟨f, hf, hmem⟩
  · rename_i flight hflight
    obtain ⟨j, hj⟩ := mem_iff_getElem?.mp hf
    by_cases hindex : j = index
    · subst hindex
      obtain rfl : flight = f := Option.mem_unique hflight hj
      have hleft : m ∈ flight.members.filter (· ≠ attemptId) := by simp [hmem, hm]
      rw [if_neg (by simpa using ⟨m, by simpa using hleft⟩)]
      refine ⟨⟨_, observe flight.observation⟩, mem_of_getElem? (i := j) ?_, hleft⟩
      rw [List.getElem?_set_self (List.getElem?_eq_some_iff.mp hj).1]
    · dsimp only
      split
      · refine ⟨f, mem_eraseIdx_iff_getElem?.mpr ⟨j, hindex, hj⟩, hmem⟩
      · refine ⟨f, mem_of_getElem? (i := j) ?_, hmem⟩
        rwa [getElem?_set_ne (Ne.symm hindex)]

theorem seated_drop (hm : m ≠ attemptId) (h : Seated flights m) :
    Seated ((flights.map fun flight =>
      { flight with members := flight.members.filter (· ≠ attemptId) }).filter
        fun flight => !flight.members.isEmpty) m := by
  obtain ⟨f, hf, hmem⟩ := h
  have hleft : m ∈ f.members.filter (· ≠ attemptId) := by simp [hmem, hm]
  refine ⟨{ f with members := f.members.filter (· ≠ attemptId) }, mem_filter.mpr
    ⟨mem_map.mpr ⟨f, hf, rfl⟩, ?_⟩, hleft⟩
  simpa using ⟨m, by simpa using hleft⟩

end

theorem live_append (events : List (Event ω)) (e : Event ω) :
    live (events ++ [e]) = liveStep (live events) e := by
  simp [live]

namespace ReadFlights

variable {r r' : ReadFlights ω} {events : List (Event ω)} {e : Event ω} {attemptId : String}
  {key : ReadFlightKey}

theorem held_insert (flights : List (Flight ω)) (byAttempt) (k : ReadFlightKey) :
    (⟨r.flights.insert key flights, byAttempt⟩ : ReadFlights ω).held k =
      if k = key then flights else r.held k := by
  unfold held
  split
  · rename_i hk
    subst hk
    rw [AList.lookup_insert, Option.getD_some]
  · rename_i hk
    rw [AList.lookup_insert_ne hk]

theorem flightIndex_eq_some {flights : List (Flight ω)} {index : ℕ} :
    r.flightIndex attemptId = some (key, flights, index) ↔
      r.byAttempt.lookup attemptId = some key ∧ r.flights.lookup key = some flights ∧
        flights.findIdx? (attemptId ∈ ·.members) = some index := by
  unfold flightIndex
  simp only [bind, Option.bind_eq_some_iff, pure, Option.some.injEq, Prod.mk.injEq]
  constructor
  · rintro ⟨k, hk, fs, hfs, i, hi, rfl, rfl, rfl⟩
    exact ⟨hk, hfs, hi⟩
  · rintro ⟨hk, hfs, hi⟩
    exact ⟨key, hk, flights, hfs, index, hi, rfl, rfl, rfl⟩

/-- The attempt maps to the key; its entry there and its seat under the key are gone. -/
structure Left (r r' : ReadFlights ω) (attemptId : String) (key : ReadFlightKey)
    (flights : List (Flight ω)) : Prop where
  mapped : r.byAttempt.lookup attemptId = some key
  byAttempt : r'.byAttempt = r.byAttempt.erase attemptId
  others : ∀ m ≠ attemptId, Seated (r.held key) m → Seated flights m
  flights_eq : r'.flights = r.flights.insert key flights

/-- Every mapped attempt has a seat under its key. -/
def AllSeated (r : ReadFlights ω) : Prop :=
  ∀ attemptId key, r.byAttempt.lookup attemptId = some key → Seated (r.held key) attemptId

theorem AllSeated.flightIndex (h : r.AllSeated) (hkey : r.byAttempt.lookup attemptId = some key) :
    ∃ index, r.flights.lookup key = some (r.held key) ∧
      (r.held key).findIdx? (attemptId ∈ ·.members) = some index ∧
      r.flightIndex attemptId = some (key, r.held key, index) := by
  have hseated := h attemptId key hkey
  have hheld : r.flights.lookup key = some (r.held key) := by
    unfold held at hseated ⊢
    cases hlookup : r.flights.lookup key with
    | none =>
      obtain ⟨f, hf, -⟩ := hseated
      simp [hlookup] at hf
    | some flights => rfl
  have hsome : ((r.held key).findIdx? (attemptId ∈ ·.members)).isSome := by
    obtain ⟨f, hf, hmem⟩ := hseated
    rw [findIdx?_isSome, any_eq_true]
    exact ⟨f, hf, by simpa using hmem⟩
  obtain ⟨index, hindex⟩ := Option.isSome_iff_exists.mp hsome
  exact ⟨index, hheld, hindex, flightIndex_eq_some.mpr ⟨hkey, hheld, hindex⟩⟩

theorem flightIndex_none (h : r.byAttempt.lookup attemptId = none) :
    r.flightIndex attemptId = none := by
  simp [ReadFlights.flightIndex, h]

/-- The flights of a key once the attempt has joined them, and its role. -/
def joined (r : ReadFlights ω) (key : ReadFlightKey) (attemptId : String) : List (Flight ω) :=
  match (r.held key).getLast? with
  | some ⟨members, none⟩ => (r.held key).dropLast ++ [⟨members ++ [attemptId], none⟩]
  | _ => r.held key ++ [⟨[attemptId], none⟩]

theorem subscribe_fst (r : ReadFlights ω) (key : ReadFlightKey) (attemptId : String) :
    (r.subscribe key attemptId).1 =
      ⟨r.flights.insert key (r.joined key attemptId), r.byAttempt.insert attemptId key⟩ := by
  unfold subscribe joined
  split <;> rfl

theorem held_split {flight : Flight ω} (h : (r.held key).getLast? = some flight) :
    r.held key = (r.held key).dropLast ++ [flight] := by
  obtain ⟨front, hfront⟩ := getLast?_eq_some_iff.mp h
  rw [hfront, dropLast_concat]

theorem seated_joined_self (r : ReadFlights ω) (key : ReadFlightKey) (attemptId : String) :
    Seated (r.joined key attemptId) attemptId := by
  unfold joined
  split
  · exact ⟨_, mem_append_right _ (mem_singleton_self _),
      mem_append_right _ (mem_singleton_self _)⟩
  · exact ⟨_, mem_append_right _ (mem_singleton_self _), mem_singleton_self _⟩

theorem seated_joined {m : String} (h : Seated (r.held key) m) :
    Seated (r.joined key attemptId) m := by
  obtain ⟨f, hf, hmem⟩ := h
  unfold joined
  split
  · rename_i members hlast
    rw [held_split hlast] at hf
    rcases mem_append.mp hf with hfront | hback
    · exact ⟨f, mem_append_left _ hfront, hmem⟩
    · rw [mem_singleton.mp hback] at hmem
      exact ⟨_, mem_append_right _ (mem_singleton_self _), mem_append_left _ hmem⟩
  · exact ⟨f, mem_append_left _ hf, hmem⟩

/-- The attempt of a call that executes or leaves. -/
def leaver : Event ω → Option String
  | .takeShared attemptId (some _) | .settle attemptId _ | .dropMember attemptId => some attemptId
  | .takeShared _ none | .role _ _ | .subscribe _ _ _ => none

/-- What one call does to a registry whose mapped attempts are seated. -/
inductive Moves (r : ReadFlights ω) (e : Event ω) (r' : ReadFlights ω) : Prop
  | joins (key : ReadFlightKey) (attemptId : String) (role : FlightRole)
      (call : e = .subscribe key attemptId role)
      (after : r' = ⟨r.flights.insert key (r.joined key attemptId),
        r.byAttempt.insert attemptId key⟩)
  | leaves (attemptId : String) (key : ReadFlightKey) (flights : List (Flight ω))
      (call : leaver e = some attemptId) (left : Left r r' attemptId key flights)
  | stays (after : r' = r) (call : ∀ attemptId, leaver e = some attemptId →
      r.byAttempt.lookup attemptId = none) (quiet : ∀ key attemptId role,
        e ≠ .subscribe key attemptId role)

theorem AllSeated.step (h : r.AllSeated) (hstep : r.Step e r') : Moves r e r' := by
  cases e with
  | subscribe key attemptId role =>
    have hafter := congrArg Prod.fst hstep
    rw [subscribe_fst] at hafter
    exact .joins key attemptId role rfl hafter.symm
  | role attemptId answer => exact .stays hstep.1 (by simp [leaver]) (by simp)
  | takeShared attemptId answer =>
    change r.takeShared attemptId = (r', answer) at hstep
    unfold takeShared at hstep
    cases hkey : r.byAttempt.lookup attemptId with
    | none =>
      rw [flightIndex_none hkey] at hstep
      obtain ⟨rfl, rfl⟩ := Prod.mk.inj hstep
      exact .stays rfl (by simp [leaver]) (by simp)
    | some key =>
      obtain ⟨index, -, -, hindex⟩ := h.flightIndex hkey
      rw [hindex] at hstep
      dsimp only at hstep
      split at hstep
      · obtain ⟨rfl, rfl⟩ := Prod.mk.inj hstep
        exact .stays rfl (by simp [leaver]) (by simp)
      · obtain ⟨rfl, rfl⟩ := Prod.mk.inj hstep
        exact .leaves attemptId key _ rfl
          ⟨hkey, rfl, fun m hm hseated => seated_leaveAt hm hseated, rfl⟩
  | settle attemptId observation =>
    change r.settle attemptId observation = r' at hstep
    unfold settle at hstep
    cases hkey : r.byAttempt.lookup attemptId with
    | none =>
      rw [flightIndex_none hkey] at hstep
      exact .stays hstep.symm (by simpa [leaver] using hkey) (by simp)
    | some key =>
      obtain ⟨index, -, -, hindex⟩ := h.flightIndex hkey
      rw [hindex] at hstep
      subst hstep
      exact .leaves attemptId key _ rfl
        ⟨hkey, rfl, fun m hm hseated => seated_leaveAt hm hseated, rfl⟩
  | dropMember attemptId =>
    change r.dropMember attemptId = r' at hstep
    unfold dropMember at hstep
    cases hkey : r.byAttempt.lookup attemptId with
    | none =>
      rw [hkey] at hstep
      exact .stays hstep.symm (by simpa [leaver] using hkey) (by simp)
    | some key =>
      obtain ⟨-, hheld, -, -⟩ := h.flightIndex hkey
      rw [hkey] at hstep
      dsimp only at hstep
      rw [hheld] at hstep
      subst hstep
      exact .leaves attemptId key _ rfl
        ⟨hkey, rfl, fun m hm hseated => seated_drop hm hseated, rfl⟩

/-! ## The maps follow the history -/

/-- The registry maps exactly the live attempts, seats each, and has an entry for every key that
was ever subscribed. -/
structure Tracked (events : List (Event ω)) (r : ReadFlights ω) : Prop where
  live : ∀ attemptId key, r.byAttempt.lookup attemptId = some key ↔ (attemptId, key) ∈ live events
  seated : r.AllSeated
  keys : ∀ key, key ∈ r.flights ↔ key ∈ subscribedKeys events

theorem lookup_insert_iff {byAttempt : AList fun _ : String => ReadFlightKey} {m : String}
    {k : ReadFlightKey} : (byAttempt.insert attemptId key).lookup m = some k ↔
      (m ≠ attemptId ∧ byAttempt.lookup m = some k) ∨ (m = attemptId ∧ k = key) := by
  by_cases hm : m = attemptId
  · subst hm
    rw [AList.lookup_insert]
    simp [eq_comm]
  · rw [AList.lookup_insert_ne hm]
    simp [hm]

theorem lookup_erase_iff {byAttempt : AList fun _ : String => ReadFlightKey} {m : String}
    {k : ReadFlightKey} : (byAttempt.erase attemptId).lookup m = some k ↔
      m ≠ attemptId ∧ byAttempt.lookup m = some k := by
  by_cases hm : m = attemptId
  · subst hm
    rw [AList.lookup_erase]
    simp
  · rw [AList.lookup_erase_ne hm]
    simp [hm]

theorem liveStep_leaver {live : List (String × ReadFlightKey)} (h : leaver e = some attemptId) :
    liveStep live e = live.filter (·.1 ≠ attemptId) := by
  unfold leaver at h
  unfold liveStep
  split at h <;> simp_all

theorem liveStep_quiet {live : List (String × ReadFlightKey)} (h : leaver e = none)
    (hquiet : ∀ key attemptId role, e ≠ .subscribe key attemptId role) :
    liveStep live e = live := by
  unfold leaver at h
  unfold liveStep
  split at h <;> simp_all

theorem subscribedKeys_append (events : List (Event ω)) (e : Event ω) :
    subscribedKeys (events ++ [e]) = subscribedKeys events ++ subscribedKeys [e] :=
  filterMap_append

theorem subscribedKeys_quiet (hquiet : ∀ key attemptId role, e ≠ .subscribe key attemptId role) :
    subscribedKeys [e] = [] := by
  cases e with
  | subscribe key attemptId role => exact absurd rfl (hquiet key attemptId role)
  | _ => rfl

theorem quiet_of_leaver (h : leaver e = some attemptId) (key : ReadFlightKey) (m : String)
    (role : FlightRole) : e ≠ .subscribe key m role := by
  rintro rfl
  cases h

theorem tracked_new : Tracked [] (new : ReadFlights ω) where
  live attemptId key := by simp [new, Rivect.Resources.live, AList.lookup_empty]
  seated attemptId key h := by simp [new, AList.lookup_empty] at h
  keys key := by simp [new, subscribedKeys]

theorem Tracked.step (h : Tracked events r) (hstep : r.Step e r') :
    Tracked (events ++ [e]) r' := by
  cases h.seated.step hstep with
  | joins key attemptId role hcall hafter =>
    subst hcall hafter
    refine ⟨fun m k => ?_, fun m k hm => ?_, fun k => ?_⟩
    · rw [lookup_insert_iff, live_append, h.live m k]
      simp [liveStep, and_comm]
    · rw [held_insert]
      rcases lookup_insert_iff.mp hm with ⟨-, hm⟩ | ⟨rfl, rfl⟩
      · have hseated := h.seated m k hm
        split
        · rename_i hk
          subst hk
          exact seated_joined hseated
        · exact hseated
      · rw [if_pos rfl]
        exact seated_joined_self r k m
    · rw [AList.mem_insert, h.keys, subscribedKeys_append]
      simp [subscribedKeys, or_comm]
  | leaves attemptId key flights hcall hleft =>
    have hheld (k : ReadFlightKey) : r'.held k = if k = key then flights else r.held k := by
      rw [← held_insert flights r'.byAttempt k, ← hleft.flights_eq]
    refine ⟨fun m k => ?_, fun m k hm => ?_, fun k => ?_⟩
    · rw [hleft.byAttempt, lookup_erase_iff, live_append, liveStep_leaver hcall, h.live m k]
      simp [and_comm]
    · rw [hleft.byAttempt, lookup_erase_iff] at hm
      have hseated := h.seated m k hm.2
      rw [hheld]
      split
      · rename_i hk
        subst hk
        exact hleft.others m hm.1 hseated
      · exact hseated
    · rw [hleft.flights_eq, AList.mem_insert, h.keys, subscribedKeys_append,
        subscribedKeys_quiet (quiet_of_leaver hcall), append_nil]
      constructor
      · rintro (rfl | hk)
        · obtain ⟨-, hlookup, -⟩ := h.seated.flightIndex hleft.mapped
          exact (h.keys k).mp (AList.lookup_isSome.mp (by rw [hlookup]; rfl))
        · exact hk
      · exact .inr
  | stays hafter hcall hquiet =>
    subst hafter
    refine ⟨fun m k => ?_, h.seated, fun k => ?_⟩
    · rw [h.live m k, live_append]
      cases hleaver : leaver e with
      | none => rw [liveStep_quiet hleaver hquiet]
      | some attemptId =>
        have hnone := hcall attemptId hleaver
        rw [liveStep_leaver hleaver, mem_filter]
        constructor
        · intro hmem
          refine ⟨hmem, ?_⟩
          have hne : m ≠ attemptId := by
            rintro rfl
            rw [(h.live m k).mpr hmem] at hnone
            cases hnone
          simpa using hne
        · exact And.left
    · rw [h.keys, subscribedKeys_append, subscribedKeys_quiet hquiet, append_nil]

theorem tracked_run (hrun : Run Step new events r) : Tracked events r :=
  hrun.history tracked_new fun _ _ _ _ _ h hstep => h.step hstep

theorem keys_length (h : Tracked events r) :
    r.flights.keys.length = (subscribedKeys events).dedup.length := by
  apply Perm.length_eq
  rw [perm_ext_iff_of_nodup r.flights.keys_nodup (nodup_dedup _)]
  intro key
  rw [mem_dedup, ← AList.mem_keys, h.keys]

/-! ## How many keys are held -/

/-- No call takes the last live attempt from a key. -/
def Steady (events : List (Event ω)) : Prop :=
  ∀ pre e post, events = pre ++ e :: post →
    ∀ key ∈ (live pre).map Prod.snd, key ∈ (live (pre ++ [e])).map Prod.snd

theorem steady_covers (h : Steady events) :
    ∀ key ∈ subscribedKeys events, key ∈ (live events).map Prod.snd := by
  induction events using reverseRecOn with
  | nil => simp [subscribedKeys]
  | append_singleton events e ih =>
    intro key hkey
    have hprefix : Steady events := fun pre e' post hsplit =>
      h pre e' (post ++ [e]) (by rw [hsplit]; simp)
    rw [subscribedKeys_append, mem_append] at hkey
    rcases hkey with hold | hnew
    · exact h events e [] rfl key (ih hprefix key hold)
    · cases e with
      | subscribe k attemptId role =>
        obtain rfl : key = k := by simpa [subscribedKeys] using hnew
        rw [live_append]
        simp [liveStep]
      | _ => simp [subscribedKeys] at hnew

/-- A key keeps its entry once it was subscribed. So the registry holds at most one key for each
live attempt exactly when the keys subscribed so far are no more than the live attempts, and always
when no call takes the last live attempt from a key. -/
theorem flights_bounded_iff (hrun : Run Step new events r) :
    (r.flights.keys.length ≤ (live events).length ↔
      (subscribedKeys events).dedup.length ≤ (live events).length) ∧
    (Steady events → r.flights.keys.length ≤ (live events).length) := by
  rw [keys_length (tracked_run hrun)]
  refine ⟨Iff.rfl, fun hsteady => ?_⟩
  have hsubset : (subscribedKeys events).dedup ⊆ (live events).map Prod.snd := fun key hkey =>
    steady_covers hsteady key (mem_dedup.mp hkey)
  have := (subperm_of_subset (nodup_dedup _) hsubset).length_le
  rwa [length_map] at this

def someKey : ReadFlightKey := ⟨["a"], ⟨1, 2⟩, ["scope"], ⟨"grant", "ask"⟩⟩

/-- One attempt subscribes and executes. -/
def executed : List (Event Unit) := [.subscribe someKey "a" .leader, .settle "a" ()]

theorem executed_run : Run Step new executed (((new.subscribe someKey "a").1).settle "a" ()) :=
  .cons rfl (.single rfl)

/-- The entry of its key stays behind. -/
theorem settled_key_left : ¬ ∀ (events : List (Event Unit)) (r : ReadFlights Unit),
    Run Step new events r → r.flights.keys.length ≤ (live events).length := by
  intro hclaim
  have hbound := hclaim executed _ executed_run
  exact absurd hbound (by decide)

theorem flights_bounded_iff_executed :
    (((new.subscribe someKey "a").1).settle "a" ()).flights.keys.length ≤ (live executed).length ↔
      (subscribedKeys executed).dedup.length ≤ (live executed).length :=
  (flights_bounded_iff executed_run).1

end ReadFlights

end Rivect.Resources
