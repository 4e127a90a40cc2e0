import Rivect.Update.Activate
import Rivect.Update.Retention

/-! # What the record of an attempt may say

An attempt's durable record never says more than has happened: neither where the attempt ends nor
where the process does.
-/

namespace Rivect.Update

open Lib Base List Option Prog

/-! ## The record of one attempt in the directory -/

section
variable {attemptId : String} {before after dir : Directory} {size : UpdateEvidence → ℕ}
  {attempt : UpdateEvidence}

/-- Retention may not take the record: it is not settled, and a success is the newest row. -/
structure Safe (dir : Directory) (attemptId : String) : Prop where
  unsettled : ∀ row ∈ dir.rows, row.name.stem = attemptId → row.record.resolved = false
  newest : ∀ row ∈ dir.rows, row.name.stem = attemptId → Succeeded row.record →
    ∀ other ∈ dir.rows, other.written ≤ row.written

theorem RecordName.ext_stem {name name' : RecordName} (h : name.stem = name'.stem) :
    name = name' := by
  cases name
  cases name'
  cases h
  rfl

theorem standing_eq_some {record : UpdateEvidence} :
    dir.standing attemptId = some record ↔
      ∃ row ∈ dir.rows, row.name.stem = attemptId ∧ row.record = record := by
  constructor
  · intro h
    obtain ⟨row, hrow, hrecord⟩ := map_eq_some_iff.mp h
    exact ⟨row, mem_of_find?_eq_some hrow, by simpa using find?_some hrow, hrecord⟩
  · rintro ⟨row, hrow, hstem, rfl⟩
    cases hfound : dir.rows.find? (·.name.stem = attemptId) with
    | none =>
      have := find?_eq_none.mp hfound row hrow
      simp [hstem] at this
    | some other =>
      have hother : other.name.stem = attemptId := by simpa using find?_some hfound
      have hsame := Directory.eq_of_name (mem_of_find?_eq_some hfound) hrow
        (RecordName.ext_stem (hother.trans hstem.symm))
      rw [Directory.standing, hfound, hsame]
      rfl

theorem standing_of_rows (hkept : ∀ row ∈ before.rows, row.name.stem = attemptId → row ∈ after.rows)
    (hback : ∀ row ∈ after.rows, row.name.stem = attemptId → row ∈ before.rows) :
    after.standing attemptId = before.standing attemptId := by
  ext record
  rw [standing_eq_some, standing_eq_some]
  constructor
  · rintro ⟨row, hrow, hstem, hrecord⟩
    exact ⟨row, hback row hrow hstem, hstem, hrecord⟩
  · rintro ⟨row, hrow, hstem, hrecord⟩
    exact ⟨row, hkept row hrow hstem, hstem, hrecord⟩

theorem Safe.isNewest {row : Row} (hsafe : Safe dir attemptId) (hrow : row ∈ dir.rows)
    (hstem : row.name.stem = attemptId) (hsuccess : Succeeded row.record) :
    dir.IsNewest Succeeded row :=
  ⟨hrow, hsuccess, fun other hother _ => hsafe.newest row hrow hstem hsuccess other hother⟩

theorem EvidenceStore.Retained.standing
    (h : EvidenceStore.Retained (EvidenceStore.NewestSuccess before) before after)
    (hsafe : Safe before attemptId) : after.standing attemptId = before.standing attemptId := by
  refine standing_of_rows (fun row hrow hstem => ?_) fun row hrow _ => h.pruned.rows hrow
  by_cases hsuccess : Succeeded row.record
  · exact h.pruned.spares hrow ⟨row, hsafe.isNewest hrow hstem hsuccess, rfl⟩
  · exact h.pruned.unresolved hrow ⟨hsafe.unsettled row hrow hstem, hsuccess⟩

theorem EvidenceStore.Written.standing (h : EvidenceStore.Written size attempt before after)
    (hid : attempt.attemptId = attemptId) : after.standing attemptId = some attempt := by
  obtain ⟨dir, name, -, hname, rfl⟩ := h
  exact standing_eq_some.mpr
    ⟨_, Directory.mem_replace.mpr (Or.inr rfl), hname.trans hid, rfl⟩

theorem EvidenceStore.Written.safe (h : EvidenceStore.Written size attempt before after)
    (hid : attempt.attemptId = attemptId) (hopen : attempt.resolved = false) :
    Safe after attemptId := by
  obtain ⟨dir, name, -, hname, rfl⟩ := h
  have hown : ∀ row ∈ (dir.replace name (size attempt) attempt).rows,
      row.name.stem = attemptId → row = ⟨name, dir.clock, size attempt, attempt⟩ := by
    intro row hrow hstem
    rcases Directory.mem_replace.mp hrow with ⟨_, hne⟩ | hrow
    · exact absurd (RecordName.ext_stem (hstem.trans (hname.trans hid).symm)) hne
    · exact hrow
  constructor
  · intro row hrow hstem
    rw [hown row hrow hstem]
    exact hopen
  · intro row hrow hstem _ other hother
    rw [hown row hrow hstem]
    exact Nat.lt_succ_iff.mp ((dir.replace name (size attempt) attempt).past other hother)

theorem EvidenceStore.SettledBy.standing {newest : Row}
    (h : EvidenceStore.SettledBy newest before after) (hsafe : Safe before attemptId)
    (hstands : before.standing attemptId = some attempt) (hsuccess : Succeeded attempt) :
    after.standing attemptId = some attempt := by
  obtain ⟨row, hrow, hstem, rfl⟩ := standing_eq_some.mp hstands
  have hsame := (hsafe.isNewest hrow hstem hsuccess).unique h.isNewest
  exact standing_eq_some.mpr ⟨row, hsame ▸ h.kept, hstem, rfl⟩

end

/-! ## What has happened -/

/-- What the publications answered, each with the record as it stood. -/
def publications (log : List Event) : List (Except BaseError Unit × Option UpdateEvidence) :=
  log.filterMap fun
    | .published answer standing => some (answer, standing)
    | _ => none

/-- The durable records of the attempt, the newest first. -/
def versions (log : List Event) : List UpdateEvidence :=
  log.filterMap fun
    | .recorded _ standing => standing
    | _ => none

/-- The record as it stood at each removal of the snapshot. -/
def removals (log : List Event) : List (Option UpdateEvidence) :=
  log.filterMap fun
    | .removed standing => some standing
    | _ => none

def Validated (log : List Event) : Prop := ∃ event ∈ log, event matches .validated (.ok _)

/-- A publication answered that it landed. -/
def PublishedOk (log : List Event) : Prop := ∃ standing, (.ok (), standing) ∈ publications log

/-- A record write, the settlement or the removal of the snapshot was refused. -/
def Refused (log : List Event) : Prop :=
  ∃ event ∈ log, event matches .recorded (some _) _ | .settled (some _) | .retained _

/-- The row that was staged when the attempt began is gone. -/
def Gone (initial world : World) : Prop :=
  ∃ staged, initial.store.view.inState .staged = some staged ∧
    ∀ row ∈ world.store.primary.rows, ¬ (row.version = staged.version ∧ row.state = .staged)

/-- What a record says of its attempt has happened. -/
structure Honest (initial world : World) (record : UpdateEvidence) : Prop where
  checked : record.phase = some .checked → Validated world.log ∧
    ∀ standing, (.ok (), standing) ∈ publications world.log → standing = some record
  rolledBack : record.phase = some .rolledBack → Gone initial world
  activated : record.terminal = .success ∨ record.phase = some .activated → PublishedOk world.log

/-- The first failure of a record stays in the next. -/
def KeepsFirst (later earlier : UpdateEvidence) : Prop :=
  ∀ failure, earlier.firstFailure = some failure → later.firstFailure = some failure

/-- The record names the outcome and the pending cleanup. -/
structure NamesCleanup (record : UpdateEvidence) : Prop where
  pending : record.pending = some .checkpointCleanup
  outcome : (record.terminal = .success ∧ record.phase = some .activated) ∨
    (record.terminal = .rejected ∧ record.phase = some .rolledBack)

/-- Every durable record of the attempt so far, the newest first. -/
def history (attemptId : String) (initial world : World) : List UpdateEvidence :=
  (world.standing attemptId).toList ++ versions world.log ++
    (initial.standing attemptId).toList

structure Truthful (attemptId : String) (initial world : World) : Prop where
  honest : ∀ record, world.standing attemptId = some record → Honest initial world record
  removed : ∀ standing ∈ removals world.log, ∃ record, standing = some record ∧ NamesCleanup record
  snapshots : ∀ name ∈ initial.snapshots, name ∉ world.snapshots → removals world.log ≠ []
  firstFailure : (history attemptId initial world).Pairwise KeepsFirst

section
variable {attemptId : String} {initial world world' start : World} {attempt : UpdateEvidence}
  {log : List Event} {record : UpdateEvidence}

theorem KeepsFirst.refl : KeepsFirst record record := fun _ h => h

theorem KeepsFirst.trans {earlier later : UpdateEvidence} (h : KeepsFirst later record)
    (h' : KeepsFirst record earlier) : KeepsFirst later earlier :=
  fun failure hfailure => h failure (h' failure hfailure)

theorem keepsFirst_noteFailure (failure : Failure) :
    KeepsFirst (record.noteFailure failure) record := by
  intro first hfirst
  unfold UpdateEvidence.noteFailure
  rw [if_neg (by rw [hfirst]; nofun)]
  split <;> exact hfirst

theorem Truthful.step (h : Truthful attemptId initial world)
    (hstanding : world'.standing attemptId = world.standing attemptId)
    (hversions : versions world'.log = versions world.log)
    (hremovals : removals world'.log = removals world.log)
    (hsnapshots : world'.snapshots = world.snapshots)
    (hhonest : ∀ record, world.standing attemptId = some record → Honest initial world' record) :
    Truthful attemptId initial world' where
  honest record hrecord := hhonest record (hstanding ▸ hrecord)
  removed := hremovals ▸ h.removed
  snapshots := hsnapshots ▸ hremovals ▸ h.snapshots
  firstFailure := by
    have := h.firstFailure
    unfold history at this ⊢
    rwa [hstanding, hversions]

theorem Honest.of_log (h : Honest initial world record) (hstore : world'.store = world.store)
    (hvalidated : Validated world.log → Validated world'.log)
    (hpublications : publications world'.log = publications world.log) :
    Honest initial world' record where
  checked hphase := ⟨hvalidated (h.checked hphase).1, hpublications ▸ (h.checked hphase).2⟩
  rolledBack hphase := by
    have := h.rolledBack hphase
    unfold Gone at this ⊢
    rwa [hstore]
  activated hactivated := by
    have := h.activated hactivated
    unfold PublishedOk at this ⊢
    rwa [hpublications]

theorem Validated.cons {event : Event} (h : Validated log) : Validated (event :: log) := by
  obtain ⟨validated, hmem, hmatches⟩ := h
  exact ⟨validated, mem_cons_of_mem _ hmem, hmatches⟩

/-- A record that claims neither a milestone nor a success. -/
theorem Honest.quiet (hphase : record.phase = none) (hterminal : record.terminal ≠ .success) :
    Honest initial world record := by
  constructor
  · intro h
    rw [hphase] at h
    cases h
  · intro h
    rw [hphase] at h
    cases h
  · rintro (h | h)
    · exact absurd h hterminal
    · rw [hphase] at h
      cases h

/-- The attempt in memory moves on: it stays itself, unsettled, and keeps its first failure. -/
structure Follows (later earlier : UpdateEvidence) : Prop where
  id : later.attemptId = earlier.attemptId
  resolved : later.resolved = earlier.resolved
  first : KeepsFirst later earlier

theorem noteFailure_eq (record : UpdateEvidence) (failure : Failure) :
    ∃ first secondary, record.noteFailure failure =
      { record with firstFailure := first, secondary := secondary } := by
  unfold UpdateEvidence.noteFailure
  split
  · exact ⟨_, _, rfl⟩
  · split <;> exact ⟨_, _, rfl⟩

theorem follows_noteFailure (record : UpdateEvidence) (failure : Failure) :
    Follows (record.noteFailure failure) record := by
  refine ⟨?_, ?_, keepsFirst_noteFailure failure⟩ <;>
  · obtain ⟨first, secondary, heq⟩ := noteFailure_eq record failure
    rw [heq]

/-- Between two steps: the world is truthful, and the attempt in memory continues its record. -/
structure Working (attemptId : String) (initial world : World) (attempt : UpdateEvidence) :
    Prop where
  id : attempt.attemptId = attemptId
  unsettled : attempt.resolved = false
  truthful : Truthful attemptId initial world
  safe : Safe world.records attemptId
  first : ∀ record ∈ history attemptId initial world, KeepsFirst attempt record

theorem Working.later {later : UpdateEvidence} (h : Working attemptId initial world attempt)
    (hlater : Follows later attempt) : Working attemptId initial world later :=
  ⟨hlater.id.trans h.id, hlater.resolved.trans h.unsettled, h.truthful, h.safe,
    fun record hrecord => hlater.first.trans (h.first record hrecord)⟩

theorem Working.step (h : Working attemptId initial world attempt)
    (htruthful : Truthful attemptId initial world') (hrecords : world'.records = world.records)
    (hversions : versions world'.log = versions world.log) :
    Working attemptId initial world' attempt := by
  refine ⟨h.id, h.unsettled, htruthful, hrecords ▸ h.safe, fun record hrecord => ?_⟩
  refine h.first record ?_
  unfold history World.standing at hrecord ⊢
  rwa [hrecords, hversions] at hrecord

/-! ## One milestone -/

/-- How a step of an attempt may end. -/
def Tells {α : Type} (attemptId : String) (initial start : World) (x : Prog World UpdateError α)
    (Q : α → World → Prop) : Prop :=
  Ensures (· = start) x Q
    (fun _ world => Truthful attemptId initial world ∧
      (PublishedOk world.log → Refused world.log))
    (Truthful attemptId initial)

variable {α β : Type} {x : Prog World UpdateError α} {Q : α → World → Prop} {R : β → World → Prop}

theorem Tells.bind {f : α → Prog World UpdateError β} (hx : Tells attemptId initial start x Q)
    (hf : ∀ a world, Q a world → Tells attemptId initial world (f a) R) :
    Tells attemptId initial start (x >>= f) R :=
  Ensures.bind hx fun a => Ensures.of_start fun world hworld => hf a world hworld

theorem Tells.ret {a : α} (h : Q a start) :
    Tells attemptId initial start (pure a : Prog World UpdateError α) Q :=
  Ensures.ret fun _ hd => hd ▸ h

theorem Tells.fail {e : UpdateError} (h : Truthful attemptId initial start)
    (hrefused : PublishedOk start.log → Refused start.log) :
    Tells attemptId initial start (Prog.fail e) Q :=
  Ensures.fail fun _ hd => hd ▸ ⟨h, hrefused⟩

theorem Tells.mapError {f : UpdateError → UpdateError} (hx : Tells attemptId initial start x Q) :
    Tells attemptId initial start (Prog.mapError f x) Q :=
  Ensures.mapError hx

theorem Tells.mark {f : World → World} {Q : Unit → World → Prop} (h : Q () (f start)) :
    Tells attemptId initial start (Prog.mark f) Q :=
  Ensures.mark fun _ hd => hd ▸ h

theorem history_noted {dir : Directory} {refusal : Option UpdateError} :
    history attemptId initial (start.noted dir (.recorded refusal (dir.standing attemptId))) =
      (dir.standing attemptId).toList ++ ((dir.standing attemptId).toList ++
        (versions start.log ++ (initial.standing attemptId).toList)) := by
  have hversions : versions (start.noted dir (.recorded refusal (dir.standing attemptId))).log =
      (dir.standing attemptId).toList ++ versions start.log := by
    cases dir.standing attemptId <;> simp [versions, World.noted]
  rw [history, hversions, append_assoc, append_assoc]
  rfl

/-- A directory in which the attempt's record stands as before or as written. -/
theorem Working.truthful_noted (h : Working attemptId initial start attempt)
    (hhonest : Honest initial start attempt) {dir : Directory} {refusal : Option UpdateError}
    (hdir : dir.standing attemptId = start.standing attemptId ∨
      dir.standing attemptId = some attempt) :
    Truthful attemptId initial
      (start.noted dir (.recorded refusal (dir.standing attemptId))) := by
  have hlog : ∀ record, Honest initial start record → Honest initial
      (start.noted dir (.recorded refusal (dir.standing attemptId))) record :=
    fun record hrecord => hrecord.of_log rfl Validated.cons rfl
  constructor
  · intro record hrecord
    rcases hdir with hold | hnew
    · exact hlog record (h.truthful.honest record (hold.symm.trans hrecord))
    · obtain rfl := mem_unique hnew hrecord
      exact hlog _ hhonest
  · exact h.truthful.removed
  · exact h.truthful.snapshots
  · have htail := h.truthful.firstFailure
    have hfirst := h.first
    unfold history at htail hfirst
    rw [append_assoc] at htail hfirst
    rw [history_noted]
    have hrest := (pairwise_append.mp htail).2.1
    cases hstanding : dir.standing attemptId with
    | none => exact hrest
    | some record =>
      have hrecord : ∀ earlier ∈ versions start.log ++ (initial.standing attemptId).toList,
          KeepsFirst record earlier := by
        rcases hdir with hold | hnew
        · intro earlier hearlier
          refine (pairwise_append.mp htail).2.2 record ?_ earlier hearlier
          rw [← hold, hstanding]
          exact mem_singleton_self record
        · obtain rfl := mem_unique hnew hstanding
          exact fun earlier hearlier => hfirst earlier (mem_append_right _ hearlier)
      refine pairwise_cons.mpr ⟨?_, pairwise_cons.mpr ⟨hrecord, hrest⟩⟩
      exact forall_mem_cons.mpr ⟨KeepsFirst.refl, hrecord⟩

theorem Refused.cons {event : Event} (h : Refused log) : Refused (event :: log) := by
  obtain ⟨refused, hmem, hmatches⟩ := h
  exact ⟨refused, mem_cons_of_mem _ hmem, hmatches⟩

variable {size : UpdateEvidence → ℕ}

/-- What a milestone leaves once it has answered. -/
structure Landed (attemptId : String) (initial start : World) (attempt : UpdateEvidence)
    (world : World) : Prop where
  working : Working attemptId initial world attempt
  standing : world.standing attemptId = some attempt
  log : world.log = .recorded none (some attempt) :: start.log
  store : world.store = start.store
  snapshots : world.snapshots = start.snapshots

section

variable (h : Working attemptId initial start attempt)
include h

theorem commit_tells
    (hhonest : Honest initial start attempt) :
    Tells attemptId initial start (commit size attempt)
      (fun _ => Landed attemptId initial start attempt) := by
  have hwrite : Leads start.records (EvidenceStore.write size attempt) _ _ :=
    EvidenceStore.write_leads size attempt
  have hends : ∀ dir, EvidenceStore.Retained (EvidenceStore.NewestSuccess start.records)
        start.records dir ∨ EvidenceStore.Written size attempt start.records dir →
      dir.standing attemptId = start.standing attemptId ∨
        dir.standing attemptId = some attempt := by
    rintro dir (hretained | hwritten)
    · exact Or.inl (hretained.standing h.safe)
    · exact Or.inr (hwritten.standing h.id)
  refine Ensures.bind (Ensures.imp (Ensures.focus hwrite) (fun _ h => h)
    (fun _ _ h => h) ?_ ?_) fun name => Ensures.of_start ?_
  · rintro e world ⟨dir, hdir, rfl⟩
    rw [h.id]
    exact ⟨h.truthful_noted hhonest (hends dir hdir),
      fun _ => ⟨_, mem_cons_self, rfl⟩⟩
  · rintro world ⟨dir, hdir, rfl⟩
    rw [h.id]
    exact h.truthful_noted hhonest (hends dir hdir)
  · rintro world ⟨dir, ⟨hwritten, -⟩, rfl⟩
    have hstanding := hwritten.standing h.id
    rw [h.id]
    refine Tells.ret
      ⟨⟨h.id, h.unsettled, ?_, hwritten.safe h.id h.unsettled, ?_⟩, hstanding, ?_, rfl, rfl⟩
    · exact h.truthful_noted hhonest (Or.inr hstanding)
    · intro record hrecord
      rw [history_noted, hstanding] at hrecord
      rcases mem_append.mp hrecord with hrecord | hrecord
      · rw [mem_singleton.mp hrecord]
        exact KeepsFirst.refl
      rcases mem_append.mp hrecord with hrecord | hrecord
      · rw [mem_singleton.mp hrecord]
        exact KeepsFirst.refl
      · refine h.first record ?_
        rw [history, append_assoc]
        exact mem_append_right _ hrecord
    · rw [hstanding]
      rfl

/-- The settlement of the earlier records leaves the success that it follows. -/
theorem settleEarlier_tells
    (hstanding : start.standing attemptId = some attempt) (hsuccess : Succeeded attempt) :
    Tells attemptId initial start (settleEarlier size)
      (fun _ world => Truthful attemptId initial world) := by
  have hsettle : Leads start.records (EvidenceStore.settleSuccess size) _ _ :=
    EvidenceStore.settleSuccess_leads size
  have htruthful : ∀ refusal dir, (dir = start.records ∨
      ∃ newest, EvidenceStore.SettledBy newest start.records dir) →
        Truthful attemptId initial (start.noted dir (.settled refusal)) := by
    intro refusal dir hdir
    have hkept : dir.standing attemptId = start.standing attemptId := by
      rcases hdir with rfl | ⟨newest, hsettled⟩
      · rfl
      · rw [hstanding]
        exact hsettled.standing h.safe hstanding hsuccess
    exact h.truthful.step hkept rfl rfl rfl fun record hrecord =>
      (h.truthful.honest record hrecord).of_log rfl Validated.cons rfl
  refine Ensures.bind (Ensures.imp (Ensures.focus hsettle) (fun _ h => h)
    (fun _ _ h => h) ?_ ?_) fun _ => Ensures.of_start ?_
  · rintro e world ⟨dir, hdir, rfl⟩
    exact ⟨htruthful _ dir hdir, fun _ => ⟨_, mem_cons_self, rfl⟩⟩
  · rintro world ⟨dir, hdir, rfl⟩
    exact htruthful _ dir hdir
  · rintro world ⟨dir, hdir, rfl⟩
    exact Tells.ret (htruthful _ dir hdir)

theorem settle_tells
    (hhonest : Honest initial start attempt) :
    Tells attemptId initial start (settle size attempt)
      (fun _ world => Truthful attemptId initial world ∧
        (attempt.terminal ≠ .success → Landed attemptId initial start attempt world)) := by
  refine Tells.bind (Tells.mapError (commit_tells h hhonest)) fun _ world hlanded => ?_
  by_cases hsuccess : attempt.terminal = .success
  · rw [if_pos hsuccess]
    refine Tells.mapError (Ensures.imp
      (settleEarlier_tells hlanded.working hlanded.standing hsuccess) (fun _ h => h) ?_
      (fun _ _ h => h) fun _ h => h)
    exact fun _ _ htruthful => ⟨htruthful, fun hne => absurd hsuccess hne⟩
  · rw [if_neg hsuccess]
    exact Tells.ret ⟨hlanded.working.truthful, fun _ => hlanded⟩

end

theorem not_publishedOk (h : publications log = []) : ¬ PublishedOk log := by
  rintro ⟨standing, hpublished⟩
  rw [h] at hpublished
  cases hpublished

/-- A refusal of the ledger before anything has been published. -/
theorem refuse_tells {boundary : UpdateBoundary} {refusal : BaseError}
    (h : Working attemptId initial start attempt) (hphase : attempt.phase = none)
    (hterminal : attempt.terminal ≠ .success) (hunpublished : publications start.log = []) :
    Tells attemptId initial start (refuse size attempt boundary refusal) Q := by
  have hhonest : ∀ failure, Honest initial start (attempt.noteFailure failure) := by
    intro failure
    obtain ⟨first, secondary, heq⟩ := noteFailure_eq attempt failure
    rw [heq]
    exact Honest.quiet hphase hterminal
  refine Tells.bind (commit_tells (h.later (follows_noteFailure _ _)) (hhonest _))
    fun _ world hlanded => ?_
  refine Tells.fail hlanded.working.truthful fun hpublished => absurd hpublished ?_
  rw [hlanded.log]
  exact not_publishedOk hunpublished

/-! ## The cleanup -/

theorem Honest.outcome (h : Honest initial start attempt) (hphase : record.phase = attempt.phase)
    (hchecked : attempt.phase ≠ some .checked)
    (hterminal : record.terminal = .success → attempt.terminal = .success) :
    Honest initial start record where
  checked hrecord := absurd (hphase ▸ hrecord) hchecked
  rolledBack hrecord := h.rolledBack (hphase ▸ hrecord)
  activated hrecord := h.activated (hrecord.imp hterminal fun hrecord => hphase ▸ hrecord)

theorem NamesCleanup.unchecked (h : NamesCleanup record) : record.phase ≠ some .checked := by
  rcases h.outcome with ⟨_, hphase⟩ | ⟨_, hphase⟩ <;>
  · rw [hphase]
    nofun

theorem Truthful.discarded (h : Truthful attemptId initial start) (name : String)
    (hstanding : start.standing attemptId = some attempt) (hnames : NamesCleanup attempt) :
    Truthful attemptId initial (start.discarded attemptId name) where
  honest record hrecord := (h.honest record hrecord).of_log rfl Validated.cons rfl
  removed := forall_mem_cons.mpr ⟨⟨attempt, hstanding, hnames⟩, h.removed⟩
  snapshots _ _ _ := cons_ne_nil _ _
  firstFailure := h.firstFailure

theorem discardCheckpoint_ends {name : String} {G : World → Prop} (hstart : G start)
    (hdiscarded : G (start.discarded attemptId name)) :
    Leads start (discardCheckpoint attemptId name) (fun _ => G) G := by
  refine Leads.bind (Q := fun _ world => world = start)
    (Leads.ofExcept (fun _ _ => rfl) hstart) ?_
  rintro _ start rfl
  refine Leads.bind (Q := fun _ world => world = start)
    (Leads.effect rfl hstart hstart) ?_
  rintro _ start rfl
  exact Leads.effect hdiscarded hstart hdiscarded

theorem cleanupFailed_tells {refusal : UpdateError}
    (h : Working attemptId initial start attempt) (hhonest : Honest initial start attempt)
    (hchecked : attempt.phase ≠ some .checked) :
    Tells attemptId initial start (cleanupFailed size attempt refusal) Q := by
  refine Tells.bind (Q := fun _ world => world = start.happened (.retained refusal))
    (Tells.mark rfl) ?_
  rintro _ _ rfl
  have htruthful : Truthful attemptId initial (start.happened (.retained refusal)) :=
    h.truthful.step rfl rfl rfl rfl fun record hrecord =>
      (h.truthful.honest record hrecord).of_log rfl Validated.cons rfl
  obtain ⟨first, secondary, heq⟩ := noteFailure_eq attempt
    (Failure.at refusal.boundary refusal.code none)
  have hfollows := follows_noteFailure attempt
    (Failure.at refusal.boundary refusal.code none)
  rw [heq] at hfollows ⊢
  refine Tells.bind (commit_tells ((h.step htruthful rfl rfl).later
    ⟨hfollows.id, hfollows.resolved, hfollows.first⟩) ?_) fun _ world hlanded => ?_
  · have hmarked : Honest initial (start.happened (.retained refusal)) attempt :=
      hhonest.of_log rfl Validated.cons rfl
    refine hmarked.outcome rfl hchecked fun hsuccess => ?_
    cases hsuccess
  · refine Tells.fail hlanded.working.truthful fun _ => ?_
    rw [hlanded.log]
    exact Refused.cons ⟨_, mem_cons_self, rfl⟩

theorem cleanUp_tells {snapshot : Option String} (h : Working attemptId initial start attempt)
    (hstanding : start.standing attemptId = some attempt) (hnames : NamesCleanup attempt) :
    Tells attemptId initial start (cleanUp size attempt snapshot)
      (fun _ => Truthful attemptId initial) := by
  have hhonest := h.truthful.honest attempt hstanding
  have hsettle : ∀ world, Working attemptId initial world attempt → Honest initial world attempt →
      Tells attemptId initial world
        (settle size { attempt with cleanup := .done, pending := none })
        (fun _ => Truthful attemptId initial) := by
    intro world hworking hhonest
    refine Ensures.imp (settle_tells (hworking.later ⟨rfl, rfl, fun _ h => h⟩)
      (hhonest.outcome rfl hnames.unchecked id)) (fun _ h => h) ?_ (fun _ _ h => h) fun _ h => h
    exact fun _ _ hsettled => hsettled.1
  cases snapshot with
  | none => exact hsettle start h hhonest
  | some name =>
    have hdiscarded := h.truthful.discarded name hstanding hnames
    have hworking := h.step hdiscarded rfl rfl
    have hdiscard : Tells attemptId initial start
        (Prog.caught (discardCheckpoint attempt.attemptId name)) (fun _ world =>
          Working attemptId initial world attempt ∧ Honest initial world attempt) := by
      rw [h.id]
      refine Ensures.caught (Ensures.imp
        (discardCheckpoint_ends (G := fun world => Working attemptId initial world attempt ∧
          Honest initial world attempt) ⟨h, hhonest⟩
          ⟨hworking, hhonest.of_log rfl Validated.cons rfl⟩)
        (fun _ h => h) (fun _ _ h => h) (fun _ _ h => h) fun _ h => h.1.truthful)
    refine Tells.bind hdiscard fun discarded world hworld => ?_
    cases discarded with
    | error refusal => exact cleanupFailed_tells hworld.1 hworld.2 hnames.unchecked
    | ok _ => exact hsettle world hworld.1 hworld.2

/-! ## The store's own answers -/

theorem abandonBase_gone {store after : Store} {faults : CallFaults} {version : ℕ}
    {document : BaseDocument} (h : store.abandonBase faults version = (after, .ok document)) :
    ∀ row ∈ after.primary.rows, ¬ (row.version = version ∧ row.state = .staged) := by
  unfold Store.abandonBase Store.transact at h
  cases hbegin : store.begin faults.stage with
  | error refusal =>
    rw [hbegin] at h
    cases h
  | ok ledger =>
    cases hbody : Store.attempt faults.stage (·.abandonBaseOn version) ledger with
    | error refusal =>
      simp only [hbegin, hbody] at h
      cases h
    | ok written =>
      have hrows : ∀ row ∈ written.1.rows, ¬ (row.version = version ∧ row.state = .staged) := by
        unfold Store.attempt at hbody
        split at hbody
        · obtain ⟨_, _, hok⟩ := bind_eq_ok hbody
          injection hok with hok
          rintro row hrow ⟨hversion, hstate⟩
          rw [← hok] at hrow
          have hkept := (mem_filter.mp hrow).2
          simp [hversion, hstate] at hkept
        · cases hbody
      simp only [hbegin, hbody] at h
      cases hcommit : faults.stage.commit with
      | reported =>
        simp only [hcommit] at h
        injection h with hafter
        rw [← hafter]
        exact hrows
      | landed | undone | left =>
        simp only [hcommit] at h
        cases h

theorem milestone_activated {ledger : Base.Ledger} {row : BaseRow} {a : Unit}
    (h : ledger.baseRowMetadata row = .ok a) : row.phase.getD .activated = .activated := by
  obtain ⟨_, _, h⟩ := bind_eq_ok h
  cases hcount : row.blockerCount with
  | none =>
    simp only [hcount] at h
    rw [(require_eq_ok h).1]
    rfl
  | some count =>
    simp only [hcount] at h
    obtain ⟨_, _, h⟩ := bind_eq_ok h
    obtain ⟨_, hshape, _⟩ := bind_eq_ok h
    have hshape := require_eq_ok hshape
    unfold Base.Ledger.milestoneShape at hshape
    cases hstate : row.state with
    | staged =>
      rw [hstate] at hshape
      rw [hshape.1]
      rfl
    | active | retired =>
      rw [hstate] at hshape
      rw [hshape.1]
      rfl

/-- A base that a receipt answers for was activated, or has no milestone yet. -/
theorem updateReceipt_phase {ledger : Base.Ledger} {version : ℕ} {receipt : UpdateReceipt}
    (h : ledger.updateReceipt version = .ok receipt) :
    receipt.phase.getD .activated = .activated := by
  obtain ⟨found, hpage, hfound⟩ := bind_eq_ok h
  obtain rfl := found_eq_ok hfound
  obtain ⟨stored, _, hpage⟩ := bind_eq_ok hpage
  cases hrow : ledger.row stored with
  | none =>
    simp only [hrow] at hpage
    cases hpage
  | some row =>
    simp only [hrow] at hpage
    obtain ⟨_, hmetadata, hpage⟩ := bind_eq_ok hpage
    obtain ⟨_, _, hpage⟩ := bind_eq_ok hpage
    obtain ⟨_, _, hpage⟩ := bind_eq_ok hpage
    injection hpage with hpage
    rw [← some.inj hpage]
    exact milestone_activated hmetadata

/-! ## The attempt -/

theorem Tells.asks {ε : Type} {f : World → Ending ε α × World} {Q : Except ε α → World → Prop}
    (h : Truthful attemptId initial start)
    (hok : ∀ a world, f start = (.ok a, world) → Q (.ok a) world)
    (herror : ∀ e world, f start = (.error e, world) → Q (.error e) world)
    (hcut : ∀ world, f start = (.cut, world) → Truthful attemptId initial world) :
    Tells attemptId initial start (Prog.asks f) Q := by
  refine Ensures.asks ?_ ?_ ?_ ?_
  · rintro _ rfl
    exact h
  · rintro _ a world rfl hf
    exact hok a world hf
  · rintro _ e world rfl hf
    exact herror e world hf
  · rintro _ world rfl hf
    exact hcut world hf

/-- Nothing is claimed yet: no record that stands has a milestone or a success. -/
def Quiet (attemptId : String) (world : World) : Prop :=
  ∀ record, world.standing attemptId = some record →
    record.phase = none ∧ record.terminal ≠ .success

theorem Quiet.truthful {store : Store} (hquiet : Quiet attemptId start)
    (h : Truthful attemptId initial start) :
    Truthful attemptId initial { start with store := store } :=
  h.step rfl rfl rfl rfl fun record hrecord =>
    Honest.quiet (hquiet record hrecord).1 (hquiet record hrecord).2

/-- The log between the milestones before the publication. -/
structure Before (attemptId : String) (initial world : World) (attempt : UpdateEvidence) :
    Prop where
  working : Working attemptId initial world attempt
  quiet : Quiet attemptId world
  phase : attempt.phase = none
  terminal : attempt.terminal ≠ .success
  unpublished : publications world.log = []

section

variable (h : Before attemptId initial start attempt)
include h

theorem Before.landed
    (hlanded : Landed attemptId initial start attempt world) :
    Before attemptId initial world attempt where
  working := hlanded.working
  quiet record hrecord := by
    obtain rfl := mem_unique hlanded.standing hrecord
    exact ⟨h.phase, h.terminal⟩
  phase := h.phase
  terminal := h.terminal
  unpublished := by
    rw [hlanded.log]
    exact h.unpublished

theorem Before.commit :
    Tells attemptId initial start (commit size attempt) (fun _ world =>
      Before attemptId initial world attempt ∧ world.store = start.store ∧
        world.snapshots = start.snapshots) :=
  Ensures.imp (commit_tells h.working (Honest.quiet h.phase h.terminal)) (fun _ h => h)
    (fun _ _ hlanded => ⟨h.landed hlanded, hlanded.store, hlanded.snapshots⟩) (fun _ _ h => h)
    fun _ h => h

theorem Before.marked
    (answer : Except UpdateBoundary Unit) :
    Before attemptId initial (start.happened (.validated answer)) attempt :=
  ⟨h.working.step (h.working.truthful.step rfl rfl rfl rfl fun record hrecord =>
    (h.working.truthful.honest record hrecord).of_log rfl Validated.cons rfl) rfl rfl,
    h.quiet, h.phase, h.terminal, h.unpublished⟩

theorem Before.refuse {boundary : UpdateBoundary} {refusal : BaseError} :
    Tells attemptId initial start (refuse size attempt boundary refusal) Q :=
  refuse_tells h.working h.phase h.terminal h.unpublished

end

variable {callbacks : Callbacks} {snapshot : Option String} {staged : BaseDocument} {offered : ℕ}

/-- The rollback stands, and the snapshot leaves after its pending removal is durable. -/
theorem discardAfterOutcome_tells {name : String} (h : Working attemptId initial start attempt)
    (hhonest : Honest initial start attempt) (hphase : attempt.phase = some .rolledBack)
    (hterminal : attempt.terminal = .rejected) :
    Tells attemptId initial start (discardAfterOutcome size attempt name)
      (fun _ => Truthful attemptId initial) := by
  have hunchecked : attempt.phase ≠ some .checked := by
    rw [hphase]
    nofun
  refine Tells.bind (commit_tells (h.later ⟨rfl, rfl, fun _ h => h⟩)
    (hhonest.outcome rfl hunchecked id)) fun _ world hlanded => ?_
  exact cleanUp_tells hlanded.working hlanded.standing ⟨rfl, Or.inr ⟨hterminal, hphase⟩⟩

/-- The rollback is claimed only once the staged row is gone. -/
theorem rollBack_tells (h : Before attemptId initial start attempt)
    (hterminal : attempt.terminal = .rejected)
    (hstaged : initial.store.view.inState .staged = some staged) :
    Tells attemptId initial start (rollBack size callbacks snapshot attempt staged)
      (fun _ => Truthful attemptId initial) := by
  have hstore : ∀ store, Before attemptId initial { start with store := store } attempt :=
    fun store => ⟨h.working.step (h.quiet.truthful h.working.truthful) rfl rfl, h.quiet, h.phase,
      h.terminal, h.unpublished⟩
  have habandon : Tells attemptId initial start
      (Prog.asks (World.abandon callbacks.faults staged.version)) (fun abandoned world =>
        Before attemptId initial world attempt ∧ (abandoned = .ok () → Gone initial world)) := by
    have hends : ∀ ended world, World.abandon callbacks.faults staged.version start =
        (ended, world) → Before attemptId initial world attempt ∧
          (ended = .ok () → Gone initial world) := by
      intro ended world hended
      unfold World.abandon at hended
      rcases habandoned : start.store.abandonBase callbacks.faults staged.version
        with ⟨store, refusal | document⟩
      · rw [habandoned] at hended
        injection hended with hanswer hworld
        rw [← hworld, ← hanswer]
        exact ⟨hstore store, nofun⟩
      · rw [habandoned] at hended
        injection hended with _ hworld
        rw [← hworld]
        exact ⟨hstore store, fun _ => ⟨staged, hstaged, abandonBase_gone habandoned⟩⟩
    refine Tells.asks h.working.truthful (fun a world hf => ?_) (fun e world hf => ?_)
      fun world hf => (hends _ world hf).1.working.truthful
    · exact ⟨(hends _ world hf).1, fun _ => (hends _ world hf).2 rfl⟩
    · exact ⟨(hends _ world hf).1, nofun⟩
  refine Tells.bind habandon ?_
  rintro (refusal | _) world ⟨hbefore, hgone⟩
  · exact hbefore.refuse
  have hhonest : Honest initial world { attempt with phase := some .rolledBack, pending := none } :=
    ⟨nofun, fun _ => hgone rfl, fun hclaims => by
      rcases hclaims with hsuccess | hactivated
      · exact absurd hsuccess hbefore.terminal
      · cases hactivated⟩
  refine Tells.bind (settle_tells (hbefore.working.later ⟨rfl, rfl, fun _ h => h⟩) hhonest)
    fun _ settled hsettled => ?_
  have hlanded := hsettled.2 h.terminal
  cases snapshot with
  | none => exact Tells.ret hsettled.1
  | some name =>
    refine Tells.bind (discardAfterOutcome_tells hlanded.working
      (hlanded.working.truthful.honest _ hlanded.standing) rfl hterminal) ?_
    exact fun _ _ htruthful => Tells.ret htruthful

/-- What the receipt adds: the outcome is the activation, and nothing that failed is forgotten. -/
theorem observing_follows {receipt : Option UpdateReceipt} :
    Follows (observing attempt receipt) attempt ∧
      (observing attempt receipt).terminal = .success := by
  cases receipt with
  | some receipt => exact ⟨⟨rfl, rfl, fun _ h => h⟩, rfl⟩
  | none =>
    constructor
    · have hfollows := follows_noteFailure
        { attempt with phase := some .activated, terminal := .success }
        (Failure.at .smoke .storageUnavailable (some "receipt-readback"))
      exact ⟨hfollows.id, hfollows.resolved, hfollows.first⟩
    · obtain ⟨first, secondary, heq⟩ := noteFailure_eq
        { attempt with phase := some .activated, terminal := .success }
        (Failure.at .smoke .storageUnavailable (some "receipt-readback"))
      exact congrArg UpdateEvidence.terminal heq

theorem observing_phase {store : Store} {faults : CallFaults} {version : ℕ} :
    (observing attempt (store.readReceipt faults version).toOption).phase = some .activated := by
  cases hread : store.readReceipt faults version with
  | ok receipt =>
    obtain ⟨_, _, hread⟩ := bind_eq_ok hread
    obtain ⟨_, _, hread⟩ := bind_eq_ok hread
    exact congrArg some (updateReceipt_phase hread)
  | error refusal =>
    obtain ⟨first, secondary, heq⟩ := noteFailure_eq
      { attempt with phase := some .activated, terminal := .success }
      (Failure.at .smoke .storageUnavailable (some "receipt-readback"))
    exact congrArg UpdateEvidence.phase heq

/-- Once the publication has landed, each record that follows names the activation. -/
theorem published_tells (h : Working attemptId initial start attempt)
    (hpublished : PublishedOk start.log) :
    Tells attemptId initial start (published size callbacks snapshot attempt offered)
      (fun _ => Truthful attemptId initial) := by
  refine Tells.bind (Q := fun seen world => seen = start ∧ world = start)
    (Ensures.look fun world hworld => ⟨hworld, hworld⟩) fun seen world hseen => ?_
  rw [hseen.1, hseen.2]
  have hphase : (observing attempt
      (start.store.readReceipt callbacks.faults offered).toOption).phase = some .activated :=
    observing_phase
  have hfollows : Follows (observing attempt
        (start.store.readReceipt callbacks.faults offered).toOption) attempt ∧ _ :=
    observing_follows
  have hhonest : Honest initial start { observing attempt
      (start.store.readReceipt callbacks.faults offered).toOption with
        pending := some .checkpointCleanup } := by
    refine ⟨fun hchecked => ?_, fun hrolled => ?_, fun _ => hpublished⟩
    · cases hphase.symm.trans hchecked
    · cases hphase.symm.trans hrolled
  refine Tells.bind (commit_tells (h.later ⟨hfollows.1.id, hfollows.1.resolved, hfollows.1.first⟩)
    hhonest) fun _ world hlanded => ?_
  refine Tells.bind (cleanUp_tells hlanded.working hlanded.standing
    ⟨rfl, Or.inl ⟨hfollows.2, hphase⟩⟩) ?_
  exact fun _ _ htruthful => Tells.ret htruthful

/-- The attempt as it is checked. -/
def checking (attempt : UpdateEvidence) : UpdateEvidence :=
  { attempt with phase := some .checked, pending := some .baseActivate }

/-- A checked record claims the validation, and a publication only as the one that has just
answered. -/
theorem Honest.checking (hterminal : attempt.terminal ≠ .success)
    (hphase : record.phase = some .checked) (hrecord : record.terminal = attempt.terminal)
    (hvalidated : Validated world.log)
    (hpublished : ∀ standing, (.ok (), standing) ∈ publications world.log →
      standing = some record) : Honest initial world record where
  checked _ := ⟨hvalidated, hpublished⟩
  rolledBack hrolled := by
    rw [hphase] at hrolled
    cases hrolled
  activated hclaims := by
    rcases hclaims with hsuccess | hactivated
    · exact absurd (hrecord.symm.trans hsuccess) hterminal
    · rw [hphase] at hactivated
      cases hactivated

/-- A refused publication leaves the checked record with the cause of the refusal. -/
theorem publishRefused_tells {refusal : BaseError} {standing : Option UpdateEvidence}
    (h : Working attemptId initial start (checking attempt))
    (hterminal : attempt.terminal ≠ .success) (hvalidated : Validated start.log)
    (hrefused : publications start.log = [(.error refusal, standing)]) :
    Tells attemptId initial start (publishRefused size (checking attempt) refusal)
      (fun _ => Truthful attemptId initial) := by
  have hnone : ∀ standing', (.ok (), standing') ∉ publications start.log := by
    intro standing' hmem
    rw [hrefused] at hmem
    cases mem_singleton.mp hmem
  have hhonest : ∀ failure, Honest initial start ((checking attempt).noteFailure failure) := by
    intro failure
    obtain ⟨first, secondary, heq⟩ := noteFailure_eq (checking attempt) failure
    rw [heq]
    exact Honest.checking hterminal rfl rfl hvalidated fun standing' hmem =>
      absurd hmem (hnone standing')
  refine Tells.bind (commit_tells (h.later (follows_noteFailure _ _)) (hhonest _))
    fun _ world hlanded => ?_
  refine Tells.fail hlanded.working.truthful ?_
  rintro ⟨standing', hmem⟩
  rw [hlanded.log] at hmem
  exact absurd hmem (hnone standing')

section

variable (h : Before attemptId initial start attempt)
include h

/-- The checked record stands until the publication has answered and the next record lands. -/
theorem publishChecked_tells
    (hvalidated : Validated start.log) :
    Tells attemptId initial start (publishChecked size callbacks snapshot attempt offered)
      (fun _ => Truthful attemptId initial) := by
  change Tells attemptId initial start (commit size (checking attempt) >>= _) _
  have hunpublished : ∀ standing, (.ok (), standing) ∉ publications start.log := by
    intro standing hmem
    rw [h.unpublished] at hmem
    cases hmem
  refine Tells.bind (commit_tells (h.working.later ⟨rfl, rfl, fun _ h => h⟩)
    (Honest.checking h.terminal rfl rfl hvalidated fun standing hmem =>
      absurd hmem (hunpublished standing))) fun _ world hlanded => ?_
  have hlog : Validated world.log ∧ publications world.log = [] := by
    rw [hlanded.log]
    exact ⟨hvalidated.cons, h.unpublished⟩
  have hstored : ∀ store, Truthful attemptId initial { world with store := store } :=
    fun store => hlanded.working.truthful.step rfl rfl rfl rfl fun record hrecord => by
      obtain rfl := mem_unique hlanded.standing hrecord
      refine Honest.checking h.terminal rfl rfl hlog.1 fun standing hmem => ?_
      rw [hlog.2] at hmem
      cases hmem
  refine Tells.bind (Q := fun _ asked => ∃ store, asked = { world with store := store })
    (Tells.asks hlanded.working.truthful ?_ ?_ ?_) ?_
  · intro a asked hf
    exact ⟨_, (Prod.mk.inj hf).2.symm⟩
  · intro e asked hf
    exact ⟨_, (Prod.mk.inj hf).2.symm⟩
  · intro asked hf
    rw [← (Prod.mk.inj hf).2]
    exact hstored _
  rintro answer _ ⟨store, rfl⟩
  have hpublications : publications (({ world with store := store } : World).happened
      (.published answer (some (checking attempt)))).log = [(answer, some (checking attempt))] := by
    change (answer, some (checking attempt)) :: publications world.log = _
    rw [hlog.2]
  have hstanding : ({ world with store := store } : World).standing
      (checking attempt).attemptId = some (checking attempt) := by
    rw [hlanded.working.id]
    exact hlanded.standing
  have htruthful : Truthful attemptId initial (({ world with store := store } : World).happened
      (.published answer (some (checking attempt)))) :=
    (hstored store).step rfl rfl rfl rfl fun record hrecord => by
      obtain rfl := mem_unique hlanded.standing hrecord
      refine Honest.checking h.terminal rfl rfl hlog.1.cons fun standing hmem => ?_
      rw [hpublications] at hmem
      exact (Prod.mk.inj (mem_singleton.mp hmem)).2
  have hworking := hlanded.working.step htruthful rfl rfl
  refine Tells.bind (Q := fun _ marked => marked = ({ world with store := store } : World).happened
    (.published answer (some (checking attempt)))) (Tells.mark ?_) ?_
  · rw [← hstanding]
    rfl
  rintro _ _ rfl
  cases answer with
  | error refusal => exact publishRefused_tells hworking h.terminal hlog.1.cons hpublications
  | ok _ =>
    refine published_tells hworking ⟨some (checking attempt), ?_⟩
    rw [hpublications]
    exact mem_singleton_self _

theorem Before.later {later : UpdateEvidence}
    (hlater : Follows later attempt) (hphase : later.phase = none)
    (hterminal : later.terminal ≠ .success) : Before attemptId initial start later :=
  ⟨h.working.later hlater, h.quiet, hphase, hterminal, h.unpublished⟩

theorem validateStaged_tells
    (hstaged : initial.store.view.inState .staged = some staged) :
    Tells attemptId initial start (validateStaged size callbacks snapshot attempt offered staged)
      (fun _ => Truthful attemptId initial) := by
  have hsemantic : Before attemptId initial start { attempt with pending := some .semantic } :=
    h.later ⟨rfl, rfl, fun _ h => h⟩ h.phase h.terminal
  refine Tells.bind hsemantic.commit fun _ world hworld => ?_
  refine Tells.bind (Q := fun _ asked => asked = world) (Tells.asks hworld.1.working.truthful
    (fun _ _ hf => (Prod.mk.inj hf).2.symm) (fun _ _ hf => (Prod.mk.inj hf).2.symm)
    fun _ hf => (Prod.mk.inj hf).2 ▸ hworld.1.working.truthful) ?_
  rintro answer _ rfl
  refine Tells.bind (Q := fun _ marked => marked = World.happened _ (.validated answer))
    (Tells.mark rfl) ?_
  rintro _ _ rfl
  have hmarked := hworld.1.marked answer
  cases answer with
  | error boundary =>
    obtain ⟨first, secondary, heq⟩ := noteFailure_eq
      { attempt with pending := some .semantic } (Failure.at boundary .conflict none)
    have hfollows := follows_noteFailure
      { attempt with pending := some .semantic } (Failure.at boundary .conflict none)
    refine rollBack_tells (hmarked.later ⟨hfollows.id, hfollows.resolved, hfollows.first⟩ ?_ ?_)
      rfl hstaged
    · rw [heq]
      exact h.phase
    · exact fun hsuccess => Terminal.noConfusion hsuccess
  | ok _ => exact publishChecked_tells hmarked ⟨_, mem_cons_self, rfl⟩

end

/-- The attempt has only started: its record, where one is stored, claims nothing yet. -/
structure Started (attempt : UpdateEvidence) (world : World) : Prop where
  unsettled : attempt.resolved = false
  phase : attempt.phase = none
  terminal : attempt.terminal = .inProgress
  log : world.log = []
  record : ∀ row ∈ world.records.rows, row.name.stem = attempt.attemptId →
    row.record.resolved = false ∧ row.record.phase = none ∧ row.record.terminal = .inProgress ∧
      KeepsFirst attempt row.record

theorem Started.before (h : Started attempt initial) :
    Before attempt.attemptId initial initial attempt := by
  have hquiet : Quiet attempt.attemptId initial := by
    intro record hrecord
    obtain ⟨row, hrow, hstem, rfl⟩ := standing_eq_some.mp hrecord
    obtain ⟨_, hphase, hterminal, _⟩ := h.record row hrow hstem
    exact ⟨hphase, hterminal ▸ nofun⟩
  have hhistory : history attempt.attemptId initial initial =
      (initial.standing attempt.attemptId).toList ++
        (initial.standing attempt.attemptId).toList := by
    rw [history, h.log]
    simp [versions]
  have hfirst : ∀ record, initial.standing attempt.attemptId = some record →
      KeepsFirst attempt record := by
    intro record hrecord
    obtain ⟨row, hrow, hstem, rfl⟩ := standing_eq_some.mp hrecord
    exact (h.record row hrow hstem).2.2.2
  refine ⟨⟨rfl, h.unsettled, ⟨?_, ?_, ?_, ?_⟩, ⟨?_, ?_⟩, ?_⟩, hquiet, h.phase, ?_, ?_⟩
  · exact fun record hrecord => Honest.quiet (hquiet record hrecord).1 (hquiet record hrecord).2
  · rw [h.log]
    exact fun _ hmem => (nomatch hmem)
  · exact fun _ hmem hnot => absurd hmem hnot
  · rw [hhistory]
    cases initial.standing attempt.attemptId with
    | none => exact List.Pairwise.nil
    | some record => simp [KeepsFirst.refl]
  · exact fun row hrow hstem => (h.record row hrow hstem).1
  · intro row hrow hstem hsuccess
    rw [Succeeded, (h.record row hrow hstem).2.2.1] at hsuccess
    cases hsuccess
  · intro record hrecord
    rw [hhistory] at hrecord
    rcases mem_append.mp hrecord with hrecord | hrecord <;>
    · exact hfirst record (mem_toList.mp hrecord)
  · rw [h.terminal]
    nofun
  · rw [h.log]
    rfl

theorem activate_tells (h : Started attempt initial) :
    Tells attempt.attemptId initial initial (activate size callbacks snapshot attempt)
      (fun _ => Truthful attempt.attemptId initial) := by
  unfold activate
  have hbefore := h.before
  split
  · refine Tells.fail hbefore.working.truthful fun hpublished => ?_
    exact absurd hpublished (not_publishedOk hbefore.unpublished)
  · have hstaging : Before attempt.attemptId initial initial
        { attempt with pending := some .baseStage } :=
      hbefore.later ⟨rfl, rfl, fun _ h => h⟩ h.phase hbefore.terminal
    refine Tells.bind hstaging.commit fun _ world hworld => ?_
    refine Tells.bind (Q := fun seen looked => seen = world ∧ looked = world)
      (Ensures.look fun looked hlooked => ⟨hlooked, hlooked⟩) fun seen looked hlooked => ?_
    rw [hlooked.1, hlooked.2]
    cases hstaged : stagedBase callbacks world.store with
    | error refusal => exact hworld.1.refuse
    | ok staged =>
      cases staged with
      | none => exact hworld.1.refuse
      | some staged =>
        refine validateStaged_tells hworld.1 ?_
        obtain ⟨_, _, hstaged⟩ := bind_eq_ok hstaged
        obtain ⟨_, _, hstaged⟩ := bind_eq_ok hstaged
        injection hstaged with hstaged
        rw [← hworld.2.1]
        exact hstaged

end

/-- Wherever an attempt ends, and wherever the process does, its durable record says no more than
has happened; and a publication that landed is refused only after a record write, a settlement or
the removal of the snapshot was. -/
theorem activate_truthful (size : UpdateEvidence → ℕ) (callbacks : Callbacks)
    (snapshot : Option String) (attempt : UpdateEvidence) (initial : World)
    (h : Started attempt initial) (turns : ℕ → Turn) :
    let ended := activation size callbacks snapshot attempt initial turns
    Truthful attempt.attemptId initial ended.2 ∧
      ∀ refusal, ended.1 = .error refusal → PublishedOk ended.2.log → Refused ended.2.log := by
  have htells : Tells attempt.attemptId initial initial
      (activate size callbacks snapshot attempt) _ := activate_tells h
  have hends := htells turns 0 initial rfl
  unfold activation
  rcases hended : activate size callbacks snapshot attempt turns (0, initial)
    with ⟨outcome | refusal | _, count, world⟩
  · rw [hended] at hends
    exact ⟨hends, nofun⟩
  · rw [hended] at hends
    exact ⟨hends.1, fun _ _ => hends.2⟩
  · rw [hended] at hends
    exact ⟨hends, nofun⟩

/-! ## A cutover that waits -/

def noFaults : CallFaults where
  stage := ⟨true, true, .reported, .reported⟩
  rules := ⟨true, true, .reported, .reported⟩
  commit := ⟨true, true, .reported, .reported⟩
  activeRead := true
  tupleRead := true
  receiptRead := true

/-- The checks pass and the publication answers that it landed. -/
def agreeing : Callbacks where
  validate := fun _ => .ok ()
  publish := fun store => (.ok (), store)
  stagedRead := true
  faults := noFaults

/-- A store with one staged base, before the first record. -/
def waiting : World where
  records := ⟨[], 0, nodup_nil, List.Pairwise.nil, fun _ h => absurd h not_mem_nil⟩
  store := ⟨{ Base.Ledger.fresh 1 with
      rows := [⟨2, "d", .staged, none, none, none, none, none⟩] },
    none, none, true, "db"⟩
  snapshots := []
  log := []

def waitingAttempt : UpdateEvidence :=
  UpdateEvidence.new "00000000-0000-4000-8000-000000000000" (some 2)

/-- The process ends before one of its effects. -/
def diesAt (effect n : ℕ) : Turn := if n = effect then .cut else .done

theorem started_waiting : Started waitingAttempt waiting :=
  ⟨rfl, rfl, rfl, rfl, fun _ h => absurd h not_mem_nil⟩

theorem activate_truthful_waiting :
    let ended := activation (fun _ => 100) agreeing none waitingAttempt waiting (diesAt 16)
    Truthful waitingAttempt.attemptId waiting ended.2 ∧
      ∀ refusal, ended.1 = .error refusal → PublishedOk ended.2.log → Refused ended.2.log :=
  activate_truthful (fun _ => 100) agreeing none waitingAttempt waiting started_waiting (diesAt 16)

/-- The process ends between the publication and the record of it: the record is still the checked
one. -/
theorem not_checked_only_unpublished :
    ¬ ∀ (size : UpdateEvidence → ℕ) (callbacks : Callbacks) (snapshot : Option String)
      (attempt : UpdateEvidence) (initial : World) (_ : Started attempt initial)
      (turns : ℕ → Turn) (record : UpdateEvidence),
      (activation size callbacks snapshot attempt initial turns).2.standing attempt.attemptId =
        some record → record.phase = some .checked →
          ¬ PublishedOk (activation size callbacks snapshot attempt initial turns).2.log := by
  intro h
  let ended := activation (fun _ => 100) agreeing none waitingAttempt waiting (diesAt 16)
  have hchecked : (ended.2.standing waitingAttempt.attemptId).map UpdateEvidence.phase =
      some (some .checked) := by decide +kernel
  have hpublished : (publications ended.2.log).any (·.1.isOk) = true := by decide +kernel
  obtain ⟨record, hrecord, hphase⟩ := map_eq_some_iff.mp hchecked
  obtain ⟨⟨answer, standing⟩, hmem, hok⟩ := any_eq_true.mp hpublished
  refine h _ _ _ _ _ started_waiting (diesAt 16) record hrecord hphase ⟨standing, ?_⟩
  cases answer with
  | ok _ => exact hmem
  | error _ => cases hok

end Rivect.Update
