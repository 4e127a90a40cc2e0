import Rivect.Dispatch.Claim

/-! # At most one dispatch

An attempt is claimed at most once over any calls and any faults, because the marker that its
claim commits stays among the retained records. After an ambiguous commit the record of it refuses
the attempt, and one that the claim could not write keeps the store closed until a reopen or an
explicit close releases it.
-/

namespace Rivect.Dispatch

open Lib List Option

variable {codec : Codec} {faults : Faults} {claim : CheckClaim}

/-! ## Retained records stay -/

/-- Every record that `db` retains stands in `db'`. -/
def Extends (db db' : Database) : Prop :=
  ∀ boundaryId recordJson, db.retained boundaryId = some recordJson →
    db'.retained boundaryId = some recordJson

theorem Extends.refl (db : Database) : Extends db db := fun _ _ h => h

theorem Extends.trans {a b c : Database} (h : Extends a b) (h' : Extends b c) : Extends a c :=
  fun boundaryId recordJson hrow => h' boundaryId recordJson (h boundaryId recordJson hrow)

/-- What one write of a record does: the record stands, the others stay. -/
structure Retains (db : Database) (recordJson boundaryId : String) (db' : Database) : Prop where
  tables : db'.tables = db.tables
  kept : Extends db db'
  row : db'.retained boundaryId = some recordJson

theorem retainOnce_retains (db : Database) (recordJson boundaryId : String) :
    Within Fails (Retains db recordJson boundaryId)
      (db.retainOnce recordJson boundaryId) := by
  unfold Database.retainOnce
  cases hrow : db.retained boundaryId with
  | none =>
    refine ⟨rfl, ?_, by simp⟩
    intro other json hother
    have hne : other ≠ boundaryId := by
      rintro rfl
      rw [hrow] at hother
      cases hother
    simpa [Function.update_of_ne hne] using hother
  | some existing =>
    by_cases hsame : existing = recordJson
    · simp only [if_pos hsame]
      exact ⟨rfl, .refl db, hsame ▸ hrow⟩
    · simp only [if_neg hsame]
      trivial

/-! ## What a claim's transaction finds -/

/-- The committed rows that a claim needs. -/
structure Claimable (db : Database) (claim : CheckClaim) : Prop where
  attempt : ∃ a ∈ db.tables.attempts, a.attemptId = claim.attemptId ∧ a.taskId = claim.taskId ∧
    a.effectClass = "exec" ∧ a.state = .planned
  task : ∃ t, db.tables.tasks claim.taskId = some t ∧ t.lifecycle.isTerminal = false
  native : claim.native = true →
    db.tables.planSelections claim.taskId =
      some ⟨claim.selectionRevision, claim.factsDigest, claim.requestKind⟩ ∧
    db.tables.gateOn claim.taskId = .open

theorem claimAttemptRead_some {db : Database} {attemptId : String} {row : ClaimRow}
    (h : db.claimAttemptRead attemptId = some row) :
    ∃ a ∈ db.tables.attempts, ∃ t, a.attemptId = attemptId ∧ row.taskId = a.taskId ∧
      row.effectClass = a.effectClass ∧ row.state = a.state ∧
      db.tables.tasks a.taskId = some t ∧ row.lifecycle = t.lifecycle ∧
      row.marker = (db.retained (markerBoundary attemptId)).isSome := by
  obtain ⟨a, ha, h⟩ := bind_eq_some_iff.mp h
  obtain ⟨t, ht, h⟩ := bind_eq_some_iff.mp h
  obtain rfl := some.inj h
  have hid : a.attemptId = attemptId := by simpa using find?_some ha
  exact ⟨a, mem_of_find?_eq_some ha, t, hid, rfl, rfl, rfl, ht, rfl, rfl⟩

theorem isTerminal_false {lifecycle : Lifecycle}
    (h : lifecycle ≠ .completed ∧ lifecycle ≠ .cancelled) : lifecycle.isTerminal = false := by
  cases lifecycle <;> simp_all [Lifecycle.isTerminal]

/-- A refusal before the commit. -/
abbrev Early (refusal : InTxn) : Prop := refusal.1 ≠ .commit

theorem claimCheckpoint_early (faults : Faults) (checkpoint : Checkpoint) :
    Within Early (fun _ => True) (faults.claimCheckpoint checkpoint) := by
  unfold Faults.claimCheckpoint
  split
  · next stop _ => cases stop <;> exact nofun
  · trivial

theorem reaches_early (faults : Faults) (site : Site) {refusal : ClaimSite}
    (h : refusal ≠ .commit) : Within Early (fun _ => True) (faults.reaches site refusal) := by
  have hearly : Early (refusal, faults.primary site) := h
  exact (Within.require fun _ => hearly).imp fun _ _ => trivial

theorem checkSelection_within (db : Database) (faults : Faults) (claim : CheckClaim) :
    Within Early (fun _ => claim.native = true →
      db.tables.planSelections claim.taskId =
        some ⟨claim.selectionRevision, claim.factsDigest, claim.requestKind⟩ ∧
      db.tables.gateOn claim.taskId = .open) (db.checkSelection faults claim) := by
  unfold Database.checkSelection
  split
  · apply Within.bind (claimCheckpoint_early faults .native)
    intro _ _
    apply Within.bind (reaches_early faults .selectionRead (by decide))
    intro _ _
    apply Within.bind (Within.require fun _ => by decide)
    intro _ hselection
    apply Within.bind (reaches_early faults .gateRead (by decide))
    intro _ _
    apply Within.imp (Within.require fun _ => by decide)
    intro _ hgate _
    exact ⟨hselection, hgate⟩
  · next hnative =>
    intro h
    exact absurd h hnative

/-- A durable fact that refuses the attempt as a replay. -/
def Refuses (db : Database) (attemptId : String) : Prop :=
  (db.retained (markerBoundary attemptId)).isSome ∨ (db.retained (commitBoundary attemptId)).isSome

theorem Refuses.extends {db db' : Database} {attemptId : String} (h : Refuses db attemptId)
    (hkept : Extends db db') : Refuses db' attemptId := by
  have hsome (boundaryId : String) (hrow : (db.retained boundaryId).isSome) :
      (db'.retained boundaryId).isSome := by
    obtain ⟨json, hjson⟩ := isSome_iff_exists.mp hrow
    exact isSome_of_eq_some (hkept _ _ hjson)
  exact h.imp (hsome _) (hsome _)

/-- What a claim that reaches its commit found and writes. -/
structure Commits (db : Database) (claim : CheckClaim) (db' : Database) : Prop where
  claimable : Claimable db claim
  first : ¬ Refuses db claim.attemptId
  kept : Extends db db'
  marked : (db'.retained (markerBoundary claim.attemptId)).isSome

theorem claimInTransaction_commits (codec : Codec) (db : Database) (faults : Faults) (claim : CheckClaim) :
    Within Early (Commits db claim) (db.claimInTransaction codec faults claim) := by
  apply Within.bind (claimCheckpoint_early faults .begun)
  intro _ _
  apply Within.bind (reaches_early faults .read (by decide))
  intro _ _
  apply Within.bind (Within.found fun _ => by decide)
  intro row hrow
  obtain ⟨a, ha, t, hid, htask, hclass, hstate, ht, hlifecycle, hmarker⟩ :=
    claimAttemptRead_some hrow
  apply Within.bind (Within.require fun _ => by decide)
  intro _ hbound
  apply Within.bind (Within.require fun _ => by decide)
  intro _ hfirst
  apply Within.bind (Within.require fun _ => by decide)
  intro _ hopen
  apply Within.bind (Within.require fun _ => by decide)
  intro _ hplanned
  apply Within.bind (claimCheckpoint_early faults .verified)
  intro _ _
  apply Within.bind (reaches_early faults .terminalRead (by decide))
  intro _ _
  apply Within.bind (Within.require fun _ => by decide)
  intro _ hunsettled
  apply Within.bind (checkSelection_within db faults claim)
  intro _ hnative
  apply Within.bind (claimCheckpoint_early faults .checked)
  intro _ _
  apply Within.bind (reaches_early faults .update (by decide))
  intro _ _
  apply Within.bind (Within.require fun _ => by decide)
  intro _ _
  apply Within.bind (claimCheckpoint_early faults .running)
  intro _ _
  apply Within.bind (reaches_early faults .marker (by decide))
  intro _ _
  have hnone : ¬ Refuses db claim.attemptId := by
    rw [Refuses, ← hmarker, hfirst, hunsettled]
    simp
  have htaskId : a.taskId = claim.taskId := htask.symm.trans hbound.1
  have hclaimable : Claimable db claim :=
    { attempt := ⟨a, ha, hid, htaskId, hclass.symm.trans hbound.2, hstate.symm.trans hplanned⟩
      task := ⟨t, htaskId ▸ ht, isTerminal_false (hlifecycle ▸ hopen)⟩
      native := hnative }
  apply Within.bind (P := Commits db claim)
  · have hretains := retainOnce_retains (db.claimAttemptRunning claim.attemptId claim.taskId)
      (codec.json (.marker "admit.claim" claim.attemptId claim.bindingDigest))
      (markerBoundary claim.attemptId)
    revert hretains
    cases (db.claimAttemptRunning claim.attemptId claim.taskId).retainOnce _ _ with
    | error e => exact fun _ => nofun
    | ok db' => exact fun h => ⟨hclaimable, hnone, h.kept, by rw [h.row]; rfl⟩
  intro db' hdb'
  apply Within.bind (claimCheckpoint_early faults .marked)
  intro _ _
  exact hdb'

/-! ## What each call leaves -/

namespace Store

theorem connMut_ok {s : Store} {replaced : Bool} {conn : Connection}
    (h : s.connMut replaced = .ok conn) : s.held = none ∧ s.conn = some conn := by
  unfold connMut at h
  cases hheld : s.held with
  | some record => simp [hheld] at h
  | none =>
    cases hconn : s.conn with
    | none => cases replaced <;> simp [hheld, hconn, connRead] at h
    | some conn' => cases replaced <;> simp_all [connRead]

theorem connMut_held {s : Store} {replaced : Bool} (h : s.held.isSome) :
    s.connMut replaced = .error .closed := by simp [connMut, h]

/-- Calls that write retained records alone. -/
structure Records (s s' : Store) : Prop where
  tables : s'.db.tables = s.db.tables
  kept : Extends s.db s'.db
  held : s'.held = s.held

theorem Records.refl (s : Store) : Records s s := ⟨rfl, .refl _, rfl⟩

theorem Records.trans {a b c : Store} (h : Records a b) (h' : Records b c) : Records a c :=
  ⟨h'.tables.trans h.tables, h.kept.trans h'.kept, h'.held.trans h.held⟩

theorem Records.slot {s s' : Store} (h : Records s s') (conn : Option Connection) :
    Records s { s' with conn := conn } := ⟨h.tables, h.kept, h.held⟩

theorem Records.of_db {s : Store} {recordJson boundaryId : String} {db : Database}
    (h : Retains s.db recordJson boundaryId db) : Records s { s with db := db } :=
  ⟨h.tables, h.kept, rfl⟩

theorem retain_records (s : Store) (faults : Faults) (recordJson boundaryId : String) :
    Records s (s.retain faults recordJson boundaryId).1 ∧
      ((s.retain faults recordJson boundaryId).2 = .ok () →
        (s.retain faults recordJson boundaryId).1.db.retained boundaryId = some recordJson) := by
  have hbody : Within Fails (Retains s.db recordJson boundaryId) (do
      let _ ← s.connMut (faults.fails .recordFence)
      require (faults.fails .recordWrite = false) .storage
      s.db.retainOnce recordJson boundaryId) := by
    apply Within.skip
    intro _
    apply Within.skip
    intro _
    exact retainOnce_retains _ _ _
  unfold retain
  revert hbody
  generalize (do
      let _ ← s.connMut (faults.fails .recordFence)
      require (faults.fails .recordWrite = false) .storage
      s.db.retainOnce recordJson boundaryId) = result
  intro hbody
  cases result with
  | error e => exact ⟨.refl s, fun h => by cases h⟩
  | ok db => exact ⟨.of_db hbody, fun _ => hbody.row⟩

/-- A record that was written stands at its boundary or at the terminal twin. -/
def Stands (codec : Codec) (db : Database) (record : RetainedAttempt) : Prop :=
  ∃ boundaryId ∈ [record.boundaryId, terminalBoundaryId record.boundaryId],
    db.retained boundaryId = some (codec.json (.attempt record))

/-- A write that succeeded: the record stood at the terminal twin, or it stands at its boundary. -/
def Writes (codec : Codec) (db : Database) (record : RetainedAttempt) (db' : Database) : Prop :=
  db.retained (terminalBoundaryId record.boundaryId) = some (codec.json (.attempt record)) ∨
    db'.retained record.boundaryId = some (codec.json (.attempt record))

theorem Writes.stands {db db' : Database} {record : RetainedAttempt}
    (h : Writes codec db record db') (hkept : Extends db db') : Stands codec db' record := by
  obtain htwin | hrow := h
  · exact ⟨_, by simp, hkept _ _ htwin⟩
  · exact ⟨_, by simp, hrow⟩

theorem retainAttempt_records (codec : Codec) (s : Store) (faults : Faults) (record : RetainedAttempt) :
    Records s (s.retainAttempt codec faults record).1 ∧
      ((s.retainAttempt codec faults record).2 = .ok () →
        Writes codec s.db record (s.retainAttempt codec faults record).1.db) := by
  unfold retainAttempt
  cases s.connRead with
  | error e => exact ⟨.refl s, fun h => by cases h⟩
  | ok conn =>
    dsimp only
    split_ifs with hread hcollision hseen
    · exact ⟨.refl s, fun h => by cases h⟩
    · exact ⟨.refl s, fun h => by cases h⟩
    · refine ⟨.refl s, fun _ => ?_⟩
      obtain ⟨row, hrow⟩ := exists_mem_of_ne_nil _ hseen
      have hsame : row = codec.json (.attempt record) := by
        by_contra hne
        exact hcollision ⟨row, hrow, hne⟩
      simp only [mem_filterMap, mem_cons, not_mem_nil, or_false, id] at hrow
      obtain ⟨slot, rfl | rfl, hslot⟩ := hrow
      · exact .inr (hsame ▸ hslot)
      · exact .inl (hsame ▸ hslot)
    · obtain ⟨hrecords, hrow⟩ := s.retain_records faults (codec.json (.attempt record))
        record.boundaryId
      exact ⟨hrecords, fun h => .inr (hrow h)⟩

theorem restoreOrQuarantine_records (s : Store) (faults : Faults) (prior : ℤ) :
    Records s (s.restoreOrQuarantine faults prior).1 := by
  unfold restoreOrQuarantine
  cases s.conn with
  | none => exact .refl s
  | some conn =>
    split_ifs
    · exact (Records.refl s).slot none
    · exact (Records.refl s).slot _

theorem retainRejection_records (s : Store) (faults : Faults) (claim : CheckClaim)
    (site : ClaimSite) (primary : Option ℤ) :
    Records s (s.retainRejection codec faults claim site primary).1 := by
  unfold retainRejection
  dsimp only
  split_ifs
  · exact .refl s
  · have hretains := retainOnce_retains s.db
      (codec.json (.rejection site.suffix "claim refused" claim.bindingDigest
        (primary.map toString)))
      (rejectionBoundary faults site.suffix)
    revert hretains
    cases s.db.retainOnce _ _ with
    | error e => exact fun _ => .refl s
    | ok db => exact fun h => .of_db h

theorem refuseClaimWith_records (codec : Codec) (s : Store) (faults : Faults) (claim : CheckClaim)
    (site : ClaimSite) (primary : Option ℤ) (prior : ℤ) :
    Records s (s.refuseClaimWith codec faults claim site primary prior).1 ∧
      (s.refuseClaimWith codec faults claim site primary prior).2.site = site := by
  unfold refuseClaimWith
  cases s.connMut (faults.fails .denialFence) with
  | error e => exact ⟨s.restoreOrQuarantine_records faults prior, rfl⟩
  | ok conn =>
    exact ⟨(s.retainRejection_records faults claim site primary).trans
      (restoreOrQuarantine_records _ faults prior), rfl⟩

/-- The record of an ambiguous commit stands at the terminal twin, which no claim reads. -/
def Twinned (codec : Codec) (db : Database) (claim : CheckClaim) : Prop :=
  ∃ primary ended, db.retained (terminalBoundaryId (commitBoundary claim.attemptId)) =
    some (codec.json (.attempt (commitAmbiguousRecord codec claim primary ended)))

/-- How a claim ends: early, with its commit, or with a commit that reported an error. -/
inductive Claims (codec : Codec) (s : Store) (claim : CheckClaim) :
    Store × Except CallError ClaimOutcome → Prop
  | fails {s' : Store} {e : CallError} : Records s s' → Claims codec s claim (s', .error e)
  | refused {s' : Store} {refusal : ClaimRefusal} : Records s s' → refusal.site ≠ .commit →
      Claims codec s claim (s', .ok (.refused refusal))
  | claimed {s' : Store} : Commits s.db claim s'.db → Claims codec s claim (s', .ok .claimed)
  | retained {s' : Store} (primary : String) (ended : Bool) : Extends s.db s'.db →
      Stands codec s'.db (commitAmbiguousRecord codec claim primary ended) →
      (¬ Twinned codec s.db claim → Refuses s'.db claim.attemptId) →
      Claims codec s claim (s', .ok (.refused ⟨.commit, .retained, false⟩))
  | held {s' : Store} (primary : String) (ended : Bool) : Extends s.db s'.db →
      s'.held = some (commitAmbiguousRecord codec claim primary ended) →
      Claims codec s claim (s', .ok (.refused ⟨.commit, .unavailable, false⟩))

theorem Claims.of_records {s s' : Store} {p : Store × Except CallError ClaimOutcome}
    (h : Records s s') (hp : Claims codec s' claim p) (hfirst : s'.db = s.db) :
    Claims codec s claim p := by
  cases hp with
  | fails h' => exact .fails (h.trans h')
  | refused h' hsite => exact .refused (h.trans h') hsite
  | claimed h' => exact .claimed (hfirst ▸ h')
  | retained primary ended h' hstands hrefuses =>
    exact .retained primary ended (h.kept.trans h') hstands (hfirst ▸ hrefuses)
  | held primary ended h' hheld => exact .held primary ended (h.kept.trans h') hheld

theorem commitReported_claims {s s' : Store} (h : Extends s.db s'.db)
    (hdb : s'.db = s.db ∨ (s'.db.retained (markerBoundary claim.attemptId)).isSome)
    (primary : String) :
    Claims codec s claim
      ((s'.commitReported codec faults claim primary).1,
        .ok (s'.commitReported codec faults claim primary).2) := by
  unfold commitReported
  dsimp only
  generalize s'.conn.any Connection.autocommit = ended
  split_ifs
  · obtain ⟨hrecords, hwrites⟩ := s'.retainAttempt_records codec faults
      (commitAmbiguousRecord codec claim primary ended)
    cases hwritten : (s'.retainAttempt codec faults
        (commitAmbiguousRecord codec claim primary ended)).2 with
    | ok _ =>
      have hwritten := hwrites hwritten
      apply Claims.retained primary ended (h.trans hrecords.kept) (hwritten.stands hrecords.kept)
      intro htwinned
      -- a commit that became durable left the marker, any other left the database as it was
      obtain hsame | hmarked := hdb
      · obtain htwin | hrow := hwritten
        · exact absurd ⟨primary, ended, hsame ▸ htwin⟩ htwinned
        · exact .inr (isSome_of_eq_some hrow)
      · exact Refuses.extends (.inl hmarked) hrecords.kept
    | error e => exact .held primary ended (h.trans hrecords.kept) rfl
  · exact .held primary ended h rfl

theorem commitClaim_claims {s : Store} {prior : ℤ} {db : Database}
    (h : Commits s.db claim db) :
    Claims codec s claim
      ((s.commitClaim codec faults claim prior db).1,
        .ok (s.commitClaim codec faults claim prior db).2) := by
  unfold commitClaim
  split_ifs
  · exact .refused ((Records.refl s).slot none) (by decide)
  · dsimp only
    cases faults.commit with
    | committed => exact .claimed h
    | durable primary => exact commitReported_claims h.kept (.inr h.marked) primary
    | rolledBack primary =>
      apply commitReported_claims
      · exact .refl s.db
      · exact .inl rfl
    | leftOpen primary =>
      apply commitReported_claims
      · exact .refl s.db
      · exact .inl rfl

theorem refuse_claims (s : Store) (faults : Faults) (refusal : InTxn) (h : Early refusal)
    (prior : ℤ) :
    Claims codec s claim
      ((s.refuseClaimWith codec faults claim refusal.1 refusal.2 prior).1,
        .ok (.refused (s.refuseClaimWith codec faults claim refusal.1 refusal.2 prior).2)) := by
  obtain ⟨hrecords, hsite⟩ :=
    s.refuseClaimWith_records codec faults claim refusal.1 refusal.2 prior
  apply Claims.refused hrecords
  rw [hsite]
  exact h

theorem claimTransaction_claims (s : Store) (faults : Faults) (claim : CheckClaim)
    (prior : ℤ) : Claims codec s claim (s.claimTransaction codec faults claim prior) := by
  unfold claimTransaction
  have hstarted := claimCheckpoint_early faults .started
  revert hstarted
  cases faults.claimCheckpoint .started with
  | error refusal =>
    intro hstarted
    exact s.refuse_claims faults refusal hstarted prior
  | ok _ =>
    intro _
    cases s.connMut (faults.fails .beginFence) with
    | error e => exact .fails (.refl s)
    | ok conn =>
      dsimp only
      split_ifs
      · exact s.refuse_claims faults (.busy, _) nofun prior
      · exact s.refuse_claims faults (.begin, _) nofun prior
      · have hbody := claimInTransaction_commits codec s.db faults claim
        revert hbody
        cases s.db.claimInTransaction codec faults claim with
        | error refusal =>
          intro hbody
          exact s.refuse_claims faults refusal hbody prior
        | ok db =>
          intro hbody
          exact commitClaim_claims hbody

theorem claimCheck_claims (codec : Codec) (s : Store) (faults : Faults) (claim : CheckClaim) :
    Claims codec s claim (s.claimCheck codec faults claim) := by
  unfold claimCheck
  cases s.connMut (faults.fails .readFence) with
  | error e => exact .fails (.refl s)
  | ok conn =>
    dsimp only
    split_ifs
    · exact .refused (.refl s) (by decide)
    all_goals cases s.connMut (faults.fails .setFence) with
      | error e => exact .fails (.refl s)
      | ok conn => ?_
    · exact .refused (s.restoreOrQuarantine_records faults _) nofun
    · exact .of_records ((Records.refl s).slot _) (claimTransaction_claims _ faults claim _) rfl

theorem Claims.kept {s : Store} {p : Store × Except CallError ClaimOutcome}
    (h : Claims codec s claim p) : Extends s.db p.1.db := by
  cases h with
  | fails h => exact h.kept
  | refused h _ => exact h.kept
  | claimed h => exact h.kept
  | retained _ _ h _ _ => exact h
  | held _ _ h _ => exact h

theorem Claims.commits {s : Store} {p : Store × Except CallError ClaimOutcome}
    (h : Claims codec s claim p) (hp : p.2 = .ok .claimed) : Commits s.db claim p.1.db := by
  cases h with
  | claimed h => exact h
  | _ => cases hp

theorem retainPreclaimRejection_records (codec : Codec) (s : Store) (faults : Faults)
    (site bindingDigest : String) :
    Records s (s.retainPreclaimRejection codec faults site bindingDigest).1 := by
  unfold retainPreclaimRejection
  cases s.connRead with
  | error e => exact .refl s
  | ok conn =>
    dsimp only
    split_ifs
    · exact .refl s
    all_goals cases s.connMut (faults.fails .setFence) with
      | error e => exact s.restoreOrQuarantine_records faults _
      | ok conn => ?_
    · exact s.restoreOrQuarantine_records faults _
    · exact (((Records.refl s).slot _).trans (retain_records _ faults _ _).1).trans
        (restoreOrQuarantine_records _ faults _)

theorem carry_kept (codec : Codec) (s : Store) (faults : Faults) :
    Extends s.db (s.carry codec faults).1.db := by
  unfold carry
  cases s.held with
  | none =>
    split_ifs <;> exact .refl s.db
  | some record =>
    have hrecords := (retainAttempt_records codec
      { s with conn := some ⟨BUSY_TIMEOUT_MS, true⟩, held := none } faults record).1
    split_ifs <;> exact hrecords.kept

/-- Whether a reopen comes to its carried write. -/
def Opens (s : Store) (faults : Faults) (presented : String) : Prop :=
  faults.fails .pathRead = false ∧ presented = s.boundDb ∧
    (s.conn.isSome → faults.fails .close = false) ∧ faults.fails .open = false

theorem reopen_eq (codec : Codec) (s : Store) (faults : Faults) (presented : String) :
    (Opens s faults presented ∧ s.reopen codec faults presented = s.carry codec faults) ∨
    (¬ Opens s faults presented ∧ (∃ e, (s.reopen codec faults presented).2 = .error e) ∧
      Records s (s.reopen codec faults presented).1) := by
  unfold reopen Opens
  split_ifs with hpath hbound hclose hopen
  · exact .inr ⟨by simp [hpath], ⟨_, rfl⟩, .refl s⟩
  · exact .inr ⟨fun h => hbound h.2.1, ⟨_, rfl⟩, .refl s⟩
  · refine .inr ⟨fun h => ?_, ⟨_, rfl⟩, (Records.refl s).slot none⟩
    rw [h.2.2.1 hclose.1] at hclose
    exact Bool.false_ne_true hclose.2
  · exact .inr ⟨by simp [hopen], ⟨_, rfl⟩, (Records.refl s).slot none⟩
  · refine .inl ⟨⟨by simpa using hpath, by simpa using hbound, fun hconn => ?_, by simpa using hopen⟩,
      rfl⟩
    by_contra hfails
    exact hclose ⟨hconn, by simpa using hfails⟩

theorem performTask_kept (s : Store) (faults : Faults) (op : TaskStore.Op) :
    Extends s.db (s.performTask faults op).1.db := by
  unfold performTask
  cases s.connMut (faults.fails .recordFence) with
  | error e => exact .refl s.db
  | ok conn =>
    split_ifs <;> exact fun _ _ h => h

theorem perform_kept (codec : Codec) (s : Store) (faults : Faults) (call : Call) :
    Extends s.db (s.perform codec faults call).1.db := by
  cases call with
  | claimCheck claim => exact (s.claimCheck_claims codec faults claim).kept
  | reopen presented =>
    obtain ⟨-, heq⟩ | ⟨-, -, hrecords⟩ := reopen_eq codec s faults presented
    · rw [perform, heq]
      exact s.carry_kept codec faults
    · exact hrecords.kept
  | close => exact .refl s.db
  | retain recordJson boundaryId => exact (s.retain_records faults recordJson boundaryId).1.kept
  | retainAttempt record => exact (s.retainAttempt_records codec faults record).1.kept
  | retainPreclaimRejection site bindingDigest =>
    exact (s.retainPreclaimRejection_records codec faults site bindingDigest).kept
  | task op => exact s.performTask_kept faults op

/-! ## At most once -/

/-- The attempt that a call dispatches: its claim answers `Claimed`. -/
def dispatched (codec : Codec) (s : Store) (call : Call × Faults) : Option String :=
  match call with
  | (.claimCheck claim, faults) =>
    if (s.claimCheck codec faults claim).2 = .ok .claimed then some claim.attemptId else none
  | _ => none

/-- The attempts that some calls dispatch, in order. -/
def dispatches (codec : Codec) (s : Store) : List (Call × Faults) → List String
  | [] => []
  | call :: calls =>
    (dispatched codec s call).toList ++ dispatches codec (s.perform codec call.2 call.1).1 calls

theorem dispatched_commits {s : Store} {call : Call × Faults} {attemptId : String}
    (h : dispatched codec s call = some attemptId) :
    ¬ Refuses s.db attemptId ∧ Refuses (s.perform codec call.2 call.1).1.db attemptId := by
  obtain ⟨call, faults⟩ := call
  cases call with
  | claimCheck claim =>
    unfold dispatched at h
    dsimp only at h
    split_ifs at h with hclaimed
    · obtain rfl := some.inj h
      have hcommits := (s.claimCheck_claims codec faults claim).commits hclaimed
      exact ⟨hcommits.first, .inl hcommits.marked⟩
  | _ => cases h

theorem dispatches_refused {s : Store} {calls : List (Call × Faults)} {attemptId : String}
    (h : Refuses s.db attemptId) : attemptId ∉ dispatches codec s calls := by
  induction calls generalizing s with
  | nil => exact not_mem_nil
  | cons call calls ih =>
    intro hmem
    rcases mem_append.mp hmem with hnow | hlater
    · exact (dispatched_commits (mem_toList.mp hnow)).1 h
    · exact ih (h.extends (s.perform_kept codec call.2 call.1)) hlater

theorem dispatches_nodup (s : Store) (calls : List (Call × Faults)) :
    (dispatches codec s calls).Nodup := by
  induction calls generalizing s with
  | nil => exact nodup_nil
  | cons call calls ih =>
    unfold dispatches
    cases hcall : dispatched codec s call with
    | none => exact ih _
    | some attemptId =>
      exact nodup_cons.mpr ⟨dispatches_refused (dispatched_commits hcall).2, ih _⟩

/-! ## A held record -/

/-- The calls that end the holder: an explicit close, and a reopen that gets through its
bootstrap. -/
def Releases (s : Store) : Call × Faults → Prop
  | (.close, _) => True
  | (.reopen presented, faults) => Opens s faults presented ∧ faults.fails .bootstrap = false
  | _ => False

theorem claimCheck_closed {s : Store} (h : s.held.isSome) (faults : Faults)
    (claim : CheckClaim) : s.claimCheck codec faults claim = (s, .error .closed) := by
  rw [claimCheck, connMut_held h]

theorem perform_held {s : Store} {record : RetainedAttempt} (h : s.held = some record)
    {call : Call × Faults} (hcall : ¬ Releases s call) :
    (s.perform codec call.2 call.1).1.held = some record := by
  obtain ⟨call, faults⟩ := call
  have hsome : s.held.isSome := by simp [h]
  cases call with
  | claimCheck claim =>
    rw [perform, claimCheck_closed hsome]
    exact h
  | reopen presented =>
    obtain ⟨hopens, heq⟩ | ⟨-, -, hrecords⟩ := reopen_eq codec s faults presented
    · have hbootstrap : faults.fails .bootstrap = true := by
        by_contra hfine
        exact hcall ⟨hopens, by simpa using hfine⟩
      simp only [perform, heq, carry, hbootstrap, ↓reduceIte, h]
    · exact hrecords.held.trans h
  | close => exact absurd trivial hcall
  | retain recordJson boundaryId =>
    exact (s.retain_records faults recordJson boundaryId).1.held.trans h
  | retainAttempt record => exact (s.retainAttempt_records codec faults record).1.held.trans h
  | retainPreclaimRejection site bindingDigest =>
    exact (s.retainPreclaimRejection_records codec faults site bindingDigest).held.trans h
  | task op =>
    simp only [perform, performTask, connMut_held hsome]
    exact h

theorem after_held {s : Store} {record : RetainedAttempt} (h : s.held = some record)
    {calls : List (Call × Faults)}
    (hcalls : ∀ pre call post, calls = pre ++ call :: post → ¬ Releases (s.after codec pre) call) :
    (s.after codec calls).held = some record := by
  induction calls generalizing s with
  | nil => exact h
  | cons call calls ih =>
    apply ih (perform_held h (hcalls [] call calls rfl))
    intro pre next post heq
    exact hcalls (call :: pre) next post (by rw [heq]; rfl)

/-- A reopen that releases the record has made its one carried write: an answer without error
means that the record stands. -/
theorem reopen_releases {s : Store} {record : RetainedAttempt} (h : s.held = some record)
    {presented : String} (hopens : Releases s (.reopen presented, faults)) :
    (s.reopen codec faults presented).1.held = none ∧
      ((s.reopen codec faults presented).2 = .ok () →
        Stands codec (s.reopen codec faults presented).1.db record) := by
  obtain ⟨-, heq⟩ | ⟨hcloses, -⟩ := reopen_eq codec s faults presented
  · obtain ⟨hrecords, hwrites⟩ := retainAttempt_records codec
      { s with conn := some ⟨BUSY_TIMEOUT_MS, true⟩, held := none } faults record
    rw [heq]
    simp only [carry, h, hopens.2, Bool.false_eq_true, ↓reduceIte]
    exact ⟨hrecords.held, fun hok => (hwrites hok).stands hrecords.kept⟩
  · exact absurd hopens.1 hcloses

end Store

/-- A claim is at most once. A commit that reported an error leaves its record, written or held:
a written one refuses the attempt from then on, and a held one closes the store until a call
releases it. -/
structure DispatchOnce (codec : Codec) : Prop where
  once : ∀ (s : Store) (calls : List (Call × Faults)), (s.dispatches codec calls).Nodup
  claimable : ∀ (s : Store) (faults : Faults) (claim : CheckClaim),
    (s.claimCheck codec faults claim).2 = .ok .claimed → Claimable s.db claim
  reported : ∀ (s s' : Store) (faults : Faults) (claim : CheckClaim) (refusal : ClaimRefusal),
    s.claimCheck codec faults claim = (s', .ok (.refused refusal)) → refusal.site = .commit →
    ∃ primary ended, let record := commitAmbiguousRecord codec claim primary ended
      refusal.retention = .retained ∧ Store.Stands codec s'.db record ∨
        refusal.retention = .unavailable ∧ s'.held = some record
  settled : ∀ (s s' : Store) (faults : Faults) (claim : CheckClaim) (refusal : ClaimRefusal),
    s.claimCheck codec faults claim = (s', .ok (.refused refusal)) → refusal.site = .commit →
    refusal.retention = .retained → ¬ Store.Twinned codec s.db claim →
    ∀ calls, claim.attemptId ∉ s'.dispatches codec calls
  quarantined : ∀ (s : Store) (record : RetainedAttempt) (calls : List (Call × Faults)),
    s.held = some record →
    (∀ pre call post, calls = pre ++ call :: post → ¬ (s.after codec pre).Releases call) →
    ∀ (faults : Faults) (claim : CheckClaim),
      ((s.after codec calls).claimCheck codec faults claim).2 = .error .closed
  released : ∀ (s : Store) (record : RetainedAttempt) (presented : String) (faults : Faults),
    s.held = some record → s.Releases (.reopen presented, faults) →
    (s.reopen codec faults presented).1.held = none ∧
      ((s.reopen codec faults presented).2 = .ok () →
        Store.Stands codec (s.reopen codec faults presented).1.db record)

theorem dispatch_once (codec : Codec) : DispatchOnce codec where
  once := Store.dispatches_nodup
  claimable s faults claim h := ((s.claimCheck_claims codec faults claim).commits h).claimable
  reported := by
    intro s s' faults claim refusal hclaim hsite
    have hclaims := s.claimCheck_claims codec faults claim
    rw [hclaim] at hclaims
    cases hclaims with
    | refused _ hearly => exact absurd hsite hearly
    | retained primary ended _ hstands _ => exact ⟨primary, ended, .inl ⟨rfl, hstands⟩⟩
    | held primary ended _ hheld => exact ⟨primary, ended, .inr ⟨rfl, hheld⟩⟩
  settled := by
    intro s s' faults claim refusal hclaim hsite hretained htwinned calls
    have hclaims := s.claimCheck_claims codec faults claim
    rw [hclaim] at hclaims
    cases hclaims with
    | refused _ hearly => exact absurd hsite hearly
    | retained _ _ _ _ hrefuses => exact Store.dispatches_refused (hrefuses htwinned)
    | held _ _ _ _ => cases hretained
  quarantined := by
    intro s record calls hheld hcalls faults claim
    have hsome : (s.after codec calls).held.isSome := by simp [Store.after_held hheld hcalls]
    rw [Store.claimCheck_closed hsome]
  released _ _ _ _ hheld hopens := Store.reopen_releases hheld hopens

/-! ## A carried write that fails -/

/-- Records as compact JSON, for texts that need no escape. -/
def plainJson : Record → String
  | .marker site attempt binding =>
    "\x7b\"attempt\":\"" ++ attempt ++ "\",\"binding\":\"" ++ binding ++ "\",\"site\":\"" ++
      site ++ "\"\x7d"
  | .rejection site cause binding primary =>
    "\x7b\"binding\":\"" ++ binding ++ "\",\"cause\":\"" ++ cause ++
      primary.elim "" (fun code => "\",\"primary\":\"" ++ code) ++ "\",\"site\":\"" ++ site ++
      "\"\x7d"
  | .attempt record =>
    "\x7b\"attempt_id\":\"" ++ record.attemptId ++ "\",\"boundary_id\":\"" ++
      record.boundaryId ++ "\",\"stage\":\"terminal\",\"cause\":\"" ++ record.cause ++
      "\",\"digest\":\"" ++ record.digest ++ "\",\"build_attempt\":\"" ++ record.buildAttempt ++
      "\"\x7d"

def plainCodec : Codec := ⟨plainJson, fun attemptId cause => attemptId ++ cause⟩

def plannedTables : TaskStore :=
  ((TaskStore.fresh.perform
      (.createTask ⟨"t"⟩ (fun _ => "c") "create" ⟨⟨"s"⟩, "unit", "goal", [], []⟩)).1.perform
    (.planAttempt "a" ⟨"t"⟩ "exec" "check")).1

def plannedStore : Store :=
  { conn := some ⟨Store.BUSY_TIMEOUT_MS, true⟩
    held := none
    boundDb := "state.db"
    db := ⟨plannedTables, fun _ => none⟩ }

def customClaim : CheckClaim := ⟨⟨"t"⟩, "a", false, 0, "", .change, "binding"⟩

def noFaults : Faults := ⟨fun _ => false, fun _ => none, fun _ => none, .committed, "1"⟩

/-- A commit that never ran and a record that cannot be written. -/
def lostCommit : Faults :=
  { noFaults with fails := (· = .recordWrite), commit := .rolledBack "10" }

/-- The record of a rolled back commit at the terminal twin, where no claim reads it. -/
def twinStore : Store :=
  { plannedStore with
    db := ⟨plannedTables, Function.update (fun _ => none) (terminalBoundaryId (commitBoundary "a"))
      (some (plainJson (.attempt (commitAmbiguousRecord plainCodec customClaim "10" true))))⟩ }

/-- A claim that is dispatched after a reopen answered an error: its carried write failed and its
bootstrap did not, which gives the record up. And one that is dispatched after its record was
answered as retained: it stood at the terminal twin alone. -/
theorem failed_carry_claims :
    (¬ ∀ (s s' : Store) (faults : Faults) (claim : CheckClaim) (refusal : ClaimRefusal)
      (calls : List (Call × Faults)),
      s.claimCheck plainCodec faults claim = (s', .ok (.refused refusal)) →
      refusal.site = .commit →
      (∀ call ∈ calls, ∃ presented, call.1 = .reopen presented ∧
        ∀ pre post, calls = pre ++ call :: post →
          ((s'.after plainCodec pre).reopen plainCodec call.2 presented).2 ≠ .ok ()) →
      ∀ (faults' : Faults) (claim' : CheckClaim),
        ((s'.after plainCodec calls).claimCheck plainCodec faults' claim').2 ≠ .ok .claimed) ∧
    let p := twinStore.claimCheck plainCodec { noFaults with commit := .rolledBack "10" } customClaim
    p.2 = .ok (.refused ⟨.commit, .retained, false⟩) ∧
      (p.1.claimCheck plainCodec noFaults customClaim).2 = .ok .claimed := by
  refine ⟨fun h => ?_, by decide +kernel⟩
  apply h plannedStore _ lostCommit customClaim ⟨.commit, .unavailable, false⟩
    [(.reopen "state.db", lostCommit)] rfl rfl ?_ noFaults customClaim (by decide +kernel)
  intro call hcall
  obtain rfl := mem_singleton.mp hcall
  refine ⟨"state.db", rfl, fun pre post heq => ?_⟩
  obtain rfl : pre = [] := by
    cases pre with
    | nil => rfl
    | cons _ pre => simp at heq
  decide +kernel

end Rivect.Dispatch
