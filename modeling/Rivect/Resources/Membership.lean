import Rivect.Resources.Flights

/-! # Membership of single flights

With fresh attempt ids every live attempt sits in one flight of its key, only the newest flight of a
key is open, and a shared observation was made for the attempts that wait for it.
-/

namespace Rivect.Resources

open Lib List

variable {ω : Type}

/-! ## The flights of one key -/

/-- No flight is empty, no attempt sits twice, and every flight but the newest has its
observation. -/
structure Seats (flights : List (Flight ω)) : Prop where
  inhabited : ∀ f ∈ flights, f.members ≠ []
  apart : flights.Pairwise fun f g => f.observation.isSome ∧ f.members.Disjoint g.members

/-- The attempt is no longer a member. -/
def Flight.without (attemptId : String) (f : Flight ω) : Flight ω :=
  { f with members := f.members.filter (· ≠ attemptId) }

/-- The flights once an attempt has left them. -/
def vacate (attemptId : String) (flights : List (Flight ω)) : List (Flight ω) :=
  (flights.map (Flight.without attemptId)).filter fun f => !f.members.isEmpty

/-- The observation of the flight that seats the attempt is rewritten. -/
def observed (attemptId : String) (observe : Option ω → Option ω) (flights : List (Flight ω)) :
    List (Flight ω) :=
  flights.map fun f =>
    if attemptId ∈ f.members then { f with observation := observe f.observation } else f

section

variable {flights : List (Flight ω)} {f : Flight ω} {attemptId m : String} {index : ℕ}
  {observe : Option ω → Option ω}

theorem without_of_notMem (h : attemptId ∉ f.members) : f.without attemptId = f := by
  have hmembers : f.members.filter (· ≠ attemptId) = f.members := by
    rw [filter_eq_self]
    intro m hm
    have hne : m ≠ attemptId := by
      rintro rfl
      exact h hm
    simpa using hne
  unfold Flight.without
  rw [hmembers]

theorem vacate_of_notMem (hseats : ∀ f ∈ flights, f.members ≠ [])
    (h : ∀ f ∈ flights, attemptId ∉ f.members) :
    vacate attemptId (observed attemptId observe flights) = flights := by
  have hobserved : observed attemptId observe flights = flights := by
    unfold observed
    rw [map_congr_left fun f hf => if_neg (h f hf), map_id']
  unfold vacate
  rw [hobserved, map_congr_left fun f hf => without_of_notMem (h f hf), map_id',
    filter_eq_self]
  intro f hf
  simpa using hseats f hf

theorem vacate_cons (attemptId : String) (observe : Option ω → Option ω) (f : Flight ω)
    (flights : List (Flight ω)) :
    vacate attemptId (observed attemptId observe (f :: flights)) =
      (if (f.members.filter (· ≠ attemptId)).isEmpty then []
        else [⟨f.members.filter (· ≠ attemptId),
          if attemptId ∈ f.members then observe f.observation else f.observation⟩]) ++
      vacate attemptId (observed attemptId observe flights) := by
  have hone (g : Flight ω) (rest : List (Flight ω)) :
      (if (!g.members.isEmpty) = true then g :: rest else rest) =
        (if g.members.isEmpty then [] else [g]) ++ rest := by
    cases g.members.isEmpty <;> rfl
  unfold vacate observed
  rw [map_cons, map_cons, filter_cons, hone]
  unfold Flight.without
  by_cases hmem : attemptId ∈ f.members
  · simp only [if_pos hmem]
  · simp only [if_neg hmem]

theorem leaveAt_eq (hseats : Seats flights)
    (h : flights.findIdx? (attemptId ∈ ·.members) = some index) :
    leaveAt flights index attemptId observe =
      vacate attemptId (observed attemptId observe flights) := by
  induction flights generalizing index with
  | nil => simp at h
  | cons f flights ih =>
    obtain ⟨hinhabited, hapart⟩ := hseats
    obtain ⟨hfirst, hrest⟩ := pairwise_cons.mp hapart
    have hinhabited' : ∀ g ∈ flights, g.members ≠ [] := fun g hg =>
      hinhabited g (mem_cons_of_mem _ hg)
    rw [findIdx?_cons] at h
    rw [vacate_cons]
    by_cases hmem : attemptId ∈ f.members
    · rw [if_pos (by simpa using hmem)] at h
      obtain rfl := Option.some.inj h
      rw [vacate_of_notMem hinhabited' fun g hg hother => (hfirst g hg).2 hmem hother, if_pos hmem]
      unfold leaveAt
      rw [getElem?_cons_zero]
      dsimp only
      split <;> rfl
    · rw [if_neg (by simpa using hmem), Option.map_eq_some_iff] at h
      obtain ⟨j, hj, rfl⟩ := h
      have hkeeps : f.members.filter (· ≠ attemptId) = f.members :=
        congrArg Flight.members (without_of_notMem hmem)
      have hnonempty : f.members.isEmpty = false := by
        simpa using hinhabited f mem_cons_self
      rw [hkeeps, hnonempty, if_neg hmem, ← ih ⟨hinhabited', hrest⟩ hj]
      unfold leaveAt
      rw [getElem?_cons_succ]
      split
      · rfl
      · dsimp only
        split <;> rfl

theorem members_vacate {observe : Option ω → Option ω}
    (h : f ∈ vacate attemptId (observed attemptId observe flights)) :
    ∃ g ∈ flights, f.members = g.members.filter (· ≠ attemptId) ∧
      f.observation = if attemptId ∈ g.members then observe g.observation else g.observation := by
  obtain ⟨hmem, -⟩ := mem_filter.mp h
  obtain ⟨g', hg', rfl⟩ := mem_map.mp hmem
  obtain ⟨g, hg, rfl⟩ := mem_map.mp hg'
  refine ⟨g, hg, ?_, ?_⟩
  · unfold Flight.without
    split <;> rfl
  · unfold Flight.without
    split <;> rfl

theorem Seats.vacated (hseats : Seats flights) (hobserve : ∀ o, o.isSome → (observe o).isSome) :
    Seats (vacate attemptId (observed attemptId observe flights)) := by
  refine ⟨fun f hf => ?_, ?_⟩
  · simpa using (mem_filter.mp hf).2
  · unfold vacate observed
    refine List.Pairwise.filter _ ?_
    rw [map_map, pairwise_map]
    refine hseats.apart.imp ?_
    intro f g ⟨hsome, hdisjoint⟩
    refine ⟨?_, ?_⟩
    · dsimp only [Function.comp, Flight.without]
      split
      · exact hobserve _ hsome
      · exact hsome
    · intro m hf hg
      have hf' : m ∈ f.members := by
        dsimp only [Function.comp, Flight.without] at hf
        split at hf <;> exact (mem_filter.mp hf).1
      have hg' : m ∈ g.members := by
        dsimp only [Function.comp, Flight.without] at hg
        split at hg <;> exact (mem_filter.mp hg).1
      exact hdisjoint hf' hg'

end

namespace ReadFlights

variable {r r' : ReadFlights ω} {events : List (Event ω)} {e : Event ω} {attemptId : String}
  {key : ReadFlightKey}

theorem seats_joined (h : Seats (r.held key)) (hnew : ∀ f ∈ r.held key, attemptId ∉ f.members) :
    Seats (r.joined key attemptId) := by
  unfold joined
  split
  · rename_i members hlast
    have hsplit := held_split hlast
    rw [hsplit] at h hnew
    obtain ⟨hinhabited, hapart⟩ := h
    rw [pairwise_append] at hapart
    obtain ⟨hfront, -, hcross⟩ := hapart
    refine ⟨fun f hf => ?_, pairwise_append.mpr ⟨hfront, pairwise_singleton _ _, ?_⟩⟩
    · rcases mem_append.mp hf with hf | hf
      · exact hinhabited f (mem_append_left _ hf)
      · rw [mem_singleton.mp hf]
        simp
    · intro f hf g hg
      rw [mem_singleton.mp hg]
      obtain ⟨hsome, hdisjoint⟩ := hcross f hf _ (mem_singleton_self _)
      refine ⟨hsome, fun m hm hm' => ?_⟩
      rcases mem_append.mp hm' with hm' | hm'
      · exact hdisjoint hm hm'
      · rw [mem_singleton.mp hm'] at hm
        exact hnew f (mem_append_left _ hf) hm
  · rename_i hclosed
    refine ⟨fun f hf => ?_, pairwise_append.mpr ⟨h.apart, pairwise_singleton _ _, ?_⟩⟩
    · rcases mem_append.mp hf with hf | hf
      · exact h.inhabited f hf
      · rw [mem_singleton.mp hf]
        simp
    · intro f hf g hg
      rw [mem_singleton.mp hg]
      refine ⟨?_, fun m hm hm' => ?_⟩
      · cases hlast : (r.held key).getLast? with
        | none =>
          rw [getLast?_eq_none_iff.mp hlast] at hf
          cases hf
        | some last =>
          obtain ⟨members, observation⟩ := last
          have hsettled : observation.isSome := by
            cases observation with
            | none => exact absurd hlast (hclosed members)
            | some _ => rfl
          have hapart := h.apart
          rw [held_split hlast] at hf hapart
          rcases mem_append.mp hf with hf | hf
          · exact ((pairwise_append.mp hapart).2.2 f hf _ (mem_singleton_self _)).1
          · rwa [mem_singleton.mp hf]
      · rw [mem_singleton.mp hm'] at hm
        exact hnew f hf hm

/-- What a call does to the observation of its attempt's flight. -/
def observing : Event ω → Option ω → Option ω
  | .settle _ observation => fun _ => some observation
  | _ => id

theorem observing_isSome (e : Event ω) (o : Option ω) (h : o.isSome) : (observing e o).isSome := by
  cases e <;> first | exact h | rfl

theorem observed_id (attemptId : String) (flights : List (Flight ω)) :
    observed attemptId id flights = flights := by
  simp [observed]

/-- The flights of the key that an executing or leaving attempt leaves behind. -/
theorem held_of_leaver (h : r.AllSeated) (hseats : Seats (r.held key)) (hstep : r.Step e r')
    (hleaver : leaver e = some attemptId) (hkey : r.byAttempt.lookup attemptId = some key)
    (k : ReadFlightKey) :
    r'.held k = if k = key then vacate attemptId (observed attemptId (observing e) (r.held key))
      else r.held k := by
  obtain ⟨index, hheld, hfind, hindex⟩ := h.flightIndex hkey
  cases e with
  | subscribe key m role => cases hleaver
  | role m answer => cases hleaver
  | takeShared m answer =>
    cases answer with
    | none => cases hleaver
    | some observation =>
      obtain rfl := Option.some.inj hleaver
      change r.takeShared m = (r', some observation) at hstep
      unfold takeShared at hstep
      rw [hindex] at hstep
      dsimp only at hstep
      split at hstep
      · cases (Prod.mk.inj hstep).2
      · obtain ⟨rfl, -⟩ := Prod.mk.inj hstep
        rw [held_insert, leaveAt_eq hseats hfind]
        rfl
  | settle m observation =>
    obtain rfl := Option.some.inj hleaver
    change r.settle m observation = r' at hstep
    unfold settle at hstep
    rw [hindex] at hstep
    subst hstep
    rw [held_insert, leaveAt_eq hseats hfind]
    rfl
  | dropMember m =>
    obtain rfl := Option.some.inj hleaver
    change r.dropMember m = r' at hstep
    unfold dropMember at hstep
    rw [hkey] at hstep
    dsimp only at hstep
    rw [hheld] at hstep
    subst hstep
    rw [held_insert, show observing (.dropMember m : Event ω) = id from rfl, observed_id]
    rfl

/-! ## Histories with fresh attempts -/

/-- The observation was recorded after the attempt subscribed, by an attempt that was live under
the same key and sat in the same flight. -/
def Shared (events : List (Event ω)) (key : ReadFlightKey) (m : String) (observation : ω) : Prop :=
  ∃ before role between reader after x,
    events = before ++ .subscribe key m role :: between ++ .settle reader observation :: after ∧
    Run Step new (before ++ .subscribe key m role :: between) x ∧
    (reader, key) ∈ live (before ++ .subscribe key m role :: between) ∧
    ∃ f ∈ x.held key, m ∈ f.members ∧ reader ∈ f.members

theorem Shared.append {m : String} {observation : ω} (h : Shared events key m observation)
    (e : Event ω) : Shared (events ++ [e]) key m observation := by
  obtain ⟨before, role, between, reader, after, x, rfl, hrun, hlive, hseat⟩ := h
  exact ⟨before, role, between, reader, after ++ [e], x, by simp, hrun, hlive, hseat⟩

theorem subscribed_of_live {m : String} (h : (m, key) ∈ live events) :
    ∃ before role between, events = before ++ .subscribe key m role :: between := by
  induction events using reverseRecOn with
  | nil => cases h
  | append_singleton events e ih =>
    have hold (hlive : (m, key) ∈ live events) :
        ∃ before role between, events ++ [e] = before ++ .subscribe key m role :: between := by
      obtain ⟨before, role, between, hsplit⟩ := ih hlive
      exact ⟨before, role, between ++ [e], by rw [hsplit]; simp⟩
    rw [live_append] at h
    unfold liveStep at h
    split at h
    · rcases mem_append.mp h with hlive | hnew
      · exact hold (mem_filter.mp hlive).1
      · obtain ⟨rfl, rfl⟩ := Prod.mk.inj (mem_singleton.mp hnew)
        exact ⟨events, _, [], rfl⟩
    · exact hold (mem_filter.mp h).1
    · exact hold (mem_filter.mp h).1
    · exact hold (mem_filter.mp h).1
    · exact hold h
    · exact hold h

/-- What histories with fresh attempts keep beside the maps. -/
structure Membership (events : List (Event ω)) (r : ReadFlights ω) : Prop where
  seats : ∀ key, Seats (r.held key)
  keyed : ∀ key, ∀ f ∈ r.held key, ∀ m ∈ f.members, r.byAttempt.lookup m = some key
  shared : ∀ key, ∀ f ∈ r.held key, ∀ observation, f.observation = some observation →
    ∀ m ∈ f.members, Shared events key m observation

theorem membership_new : Membership [] (new : ReadFlights ω) where
  seats key := by
    simp only [held, new, AList.lookup_empty, Option.getD_none]
    exact ⟨by simp, List.Pairwise.nil⟩
  keyed key f hf := by simp [held, new, AList.lookup_empty] at hf
  shared key f hf := by simp [held, new, AList.lookup_empty] at hf

theorem mem_joined {f : Flight ω} (hf : f ∈ r.joined key attemptId) :
    (f ∈ r.held key) ∨ (f.observation = none ∧
      ∀ m ∈ f.members, m = attemptId ∨ ∃ g ∈ r.held key, m ∈ g.members) := by
  unfold joined at hf
  split at hf
  · rename_i members hlast
    rcases mem_append.mp hf with hfront | hback
    · exact .inl (dropLast_subset _ hfront)
    · rw [mem_singleton.mp hback]
      refine .inr ⟨rfl, fun m hm => ?_⟩
      rcases mem_append.mp hm with hm | hm
      · exact .inr ⟨_, mem_of_getLast? hlast, hm⟩
      · exact .inl (mem_singleton.mp hm)
  · rcases mem_append.mp hf with hold | hback
    · exact .inl hold
    · rw [mem_singleton.mp hback]
      exact .inr ⟨rfl, fun m hm => .inl (mem_singleton.mp hm)⟩

section

variable (h : Membership events r) (ht : Tracked events r)
include h ht

theorem Membership.unseated {m : String}
    (hm : m ∉ subscribers events) (k : ReadFlightKey) : ∀ f ∈ r.held k, m ∉ f.members := by
  intro f hf hmem
  have hlive := (ht.live m k).mp (h.keyed k f hf m hmem)
  obtain ⟨before, role, between, rfl⟩ := subscribed_of_live hlive
  exact hm (mem_filterMap.mpr ⟨.subscribe k m role, by simp, rfl⟩)

theorem Membership.joins {m : String} {role : FlightRole} (hm : m ∉ subscribers events) :
    Membership (events ++ [.subscribe key m role])
      ⟨r.flights.insert key (r.joined key m), r.byAttempt.insert m key⟩ where
  seats k := by
    rw [held_insert]
    split
    · exact seats_joined (h.seats key) (h.unseated ht hm key)
    · exact h.seats k
  keyed k f hf other hother := by
    have hold (g : Flight ω) (hg : g ∈ r.held k) (hother : other ∈ g.members) :
        (r.byAttempt.insert m key).lookup other = some k := by
      refine lookup_insert_iff.mpr (.inl ⟨?_, h.keyed k g hg other hother⟩)
      rintro rfl
      exact h.unseated ht hm k g hg hother
    rw [held_insert] at hf
    split at hf
    · rename_i hk
      subst hk
      rcases mem_joined hf with hf | ⟨-, hmembers⟩
      · exact hold f hf hother
      · rcases hmembers other hother with rfl | ⟨g, hg, hmem⟩
        · exact lookup_insert_iff.mpr (.inr ⟨rfl, rfl⟩)
        · exact hold g hg hmem
    · exact hold f hf hother
  shared k f hf observation hobservation other hother := by
    rw [held_insert] at hf
    split at hf
    · rename_i hk
      subst hk
      rcases mem_joined hf with hf | ⟨hnone, -⟩
      · exact (h.shared k f hf observation hobservation other hother).append _
      · rw [hnone] at hobservation
        cases hobservation
    · exact (h.shared k f hf observation hobservation other hother).append _

theorem Membership.leaves {flights : List (Flight ω)} (hrun : Run Step new events r) (hstep : r.Step e r')
    (hcall : leaver e = some attemptId) (hleft : Left r r' attemptId key flights) :
    Membership (events ++ [e]) r' := by
  have hheld := held_of_leaver ht.seated (h.seats key) hstep hcall hleft.mapped
  refine ⟨fun k => ?_, fun k f hf m hm => ?_, fun k f hf observation hobservation m hm => ?_⟩
  · rw [hheld]
    split
    · exact (h.seats key).vacated (observing_isSome e)
    · exact h.seats k
  · rw [hleft.byAttempt, lookup_erase_iff]
    rw [hheld] at hf
    split at hf
    · rename_i hk
      subst hk
      obtain ⟨g, hg, hmembers, -⟩ := members_vacate hf
      rw [hmembers] at hm
      obtain ⟨hmem, hne⟩ := mem_filter.mp hm
      exact ⟨by simpa using hne, h.keyed k g hg m hmem⟩
    · rename_i hk
      have hmapped := h.keyed k f hf m hm
      refine ⟨?_, hmapped⟩
      rintro rfl
      exact hk (Option.mem_unique hmapped hleft.mapped)
  · rw [hheld] at hf
    split at hf
    · rename_i hk
      subst hk
      obtain ⟨g, hg, hmembers, hrecorded⟩ := members_vacate hf
      rw [hmembers] at hm
      obtain ⟨hmem, -⟩ := mem_filter.mp hm
      have hold (hsame : g.observation = some observation) :
          Shared (events ++ [e]) k m observation :=
        (h.shared k g hg observation hsame m hmem).append e
      rw [hobservation] at hrecorded
      split at hrecorded
      · rename_i hreader
        cases e with
        | settle reader recorded =>
          obtain rfl := Option.some.inj hcall
          obtain rfl := Option.some.inj hrecorded
          have hlive := (ht.live m k).mp (h.keyed k g hg m hmem)
          obtain ⟨before, role, between, rfl⟩ := subscribed_of_live hlive
          exact ⟨before, role, between, reader, [], r, rfl, hrun,
            (ht.live reader k).mp hleft.mapped, g, hg, hmem, hreader⟩
        | _ => exact hold hrecorded.symm
      · exact hold hrecorded.symm
    · exact (h.shared k f hf observation hobservation m hm).append e

theorem Membership.step
    (hrun : Run Step new events r) (hstep : r.Step e r')
    (hfresh : (subscribers (events ++ [e])).Nodup) : Membership (events ++ [e]) r' := by
  cases ht.seated.step hstep with
  | joins key m role hcall hafter =>
    subst hcall hafter
    refine h.joins ht fun hm => ?_
    have hsplit : subscribers (events ++ [.subscribe key m role]) = subscribers events ++ [m] :=
      filterMap_append
    rw [hsplit] at hfresh
    exact (nodup_append.mp hfresh).2.2 m hm m (mem_singleton_self m) rfl
  | leaves attemptId key flights hcall hleft => exact h.leaves ht hrun hstep hcall hleft
  | stays hafter hcall hquiet =>
    subst hafter
    exact ⟨h.seats, h.keyed, fun k f hf observation hobservation m hm =>
      (h.shared k f hf observation hobservation m hm).append e⟩

end

theorem membership_run (hrun : Run Step new events r) (hfresh : (subscribers events).Nodup) :
    Membership events r := by
  have hkept := hrun.history (I := fun events r => (subscribers events).Nodup →
      Membership events r) (fun _ => membership_new) ?_
  · exact hkept hfresh
  · intro pre e a b hpre h hstep hnodup
    have hsplit : subscribers (pre ++ [e]) = subscribers pre ++ subscribers [e] :=
      filterMap_append
    have hpre' : (subscribers pre).Nodup := by
      rw [hsplit] at hnodup
      exact (nodup_append.mp hnodup).1
    exact (h hpre').step (tracked_run hpre) hpre hstep hnodup

/-- In every history with fresh attempts the registry maps exactly the live attempts, each sits in
one flight, of its own key, only the newest flight of a key lacks its observation, and an
observation that is handed out was recorded in the attempt's own flight after it subscribed. -/
theorem flights_membership (hrun : Run Step new events r) (hfresh : (subscribers events).Nodup) :
    (∀ attemptId key, r.byAttempt.lookup attemptId = some key ↔ (attemptId, key) ∈ live events) ∧
    (∀ attemptId key, (attemptId, key) ∈ live events →
      ∃ (i : ℕ) (f : Flight ω), (r.held key)[i]? = some f ∧ attemptId ∈ f.members ∧
        ∀ (k : ReadFlightKey) (j : ℕ) (g : Flight ω), (r.held k)[j]? = some g →
          attemptId ∈ g.members → k = key ∧ j = i) ∧
    (∀ (key : ReadFlightKey) (i : ℕ) (f : Flight ω), (r.held key)[i]? = some f →
      f.observation = none → i + 1 = (r.held key).length) ∧
    (∀ attemptId observation r', r.Step (.takeShared attemptId (some observation)) r' →
      ∃ key, (attemptId, key) ∈ live events ∧ Shared events key attemptId observation) := by
  have ht := tracked_run hrun
  have h := membership_run hrun hfresh
  refine ⟨ht.live, ?_, ?_, ?_⟩
  · intro attemptId key hlive
    have hmapped := (ht.live attemptId key).mpr hlive
    obtain ⟨f, hf, hmem⟩ := ht.seated attemptId key hmapped
    obtain ⟨i, hi⟩ := mem_iff_getElem?.mp hf
    refine ⟨i, f, hi, hmem, fun k j g hj hmem' => ?_⟩
    have hmapped' := h.keyed k g (mem_of_getElem? hj) attemptId hmem'
    obtain rfl : k = key := Option.mem_unique hmapped' hmapped
    refine ⟨rfl, ?_⟩
    have hapart := pairwise_iff_getElem.mp (h.seats k).apart
    obtain ⟨hilt, rfl⟩ := List.getElem?_eq_some_iff.mp hi
    obtain ⟨hjlt, rfl⟩ := List.getElem?_eq_some_iff.mp hj
    rcases Nat.lt_trichotomy j i with hlt | heq | hlt
    · exact absurd hmem ((hapart j i hjlt hilt hlt).2 hmem')
    · exact heq
    · exact absurd hmem' ((hapart i j hilt hjlt hlt).2 hmem)
  · intro key i f hi hnone
    obtain ⟨hilt, rfl⟩ := List.getElem?_eq_some_iff.mp hi
    by_contra hlast
    have hnext : i + 1 < (r.held key).length := by omega
    have hsome := (pairwise_iff_getElem.mp (h.seats key).apart i (i + 1) hilt hnext
      (Nat.lt_succ_self i)).1
    rw [hnone] at hsome
    cases hsome
  · intro attemptId observation r' hstep
    change r.takeShared attemptId = (r', some observation) at hstep
    unfold takeShared at hstep
    cases hindex : r.flightIndex attemptId with
    | none => simp [hindex] at hstep
    | some found =>
      obtain ⟨key, flights, index⟩ := found
      obtain ⟨hmapped, hlookup, hfind⟩ := flightIndex_eq_some.mp hindex
      rw [hindex] at hstep
      dsimp only at hstep
      have hheld : r.held key = flights := by rw [held, hlookup, Option.getD_some]
      split at hstep
      · cases (Prod.mk.inj hstep).2
      · rename_i recorded hrecorded
        obtain rfl := Option.some.inj (Prod.mk.inj hstep).2
        obtain ⟨f, hf, hobservation⟩ := Option.bind_eq_some_iff.mp hrecorded
        obtain ⟨hlt, hmem, -⟩ := findIdx?_eq_some_iff_getElem.mp hfind
        have hget := (List.getElem?_eq_some_iff.mp hf).2
        rw [hget] at hmem
        have hmem' : f ∈ r.held key := hheld ▸ mem_of_getElem? hf
        exact ⟨key, (ht.live attemptId key).mp hmapped,
          h.shared key f hmem' _ hobservation attemptId (by simpa using hmem)⟩

/-- Two identical reads: the second takes what the first observed. -/
def merged : List (Event Unit) :=
  [.subscribe someKey "a" .leader, .subscribe someKey "b" .follower, .settle "a" ()]

theorem flights_membership_merged : ∃ key, Shared merged key "b" () := by
  have hrun : Run Step new merged
      ((((new.subscribe someKey "a").1).subscribe someKey "b").1.settle "a" ()) :=
    .cons rfl (.cons rfl (.single rfl))
  obtain ⟨key, -, hshared⟩ := (flights_membership hrun (by decide)).2.2.2 "b" () _ rfl
  exact ⟨key, hshared⟩

end ReadFlights

end Rivect.Resources
