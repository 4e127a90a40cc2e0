import Rivect.Dispatch.Once

/-! # The scoped zero wait

A claim and the denial row before a claim run under a zero busy timeout and put the prior one
back. The one exit that skips it is a path fence that refuses right before the claim's transaction.
-/

namespace Rivect.Dispatch

namespace Store

variable {s s' : Store} {faults : Faults} {prior : ℤ}

def busyTimeout (s : Store) : Option ℤ := s.conn.map Connection.timeout

/-- The slot is empty, or its connection waits as long as before. -/
def Unleaked (s s' : Store) : Prop := s'.conn = none ∨ s'.busyTimeout = s.busyTimeout

instance (s s' : Store) : Decidable (Unleaked s s') :=
  inferInstanceAs (Decidable (_ ∨ _))

/-- The slot is empty, or its connection waits this long. -/
def Waits (prior : ℤ) (s : Store) : Prop := s.conn = none ∨ s.busyTimeout = some prior

/-- The path is found replaced between the zero wait and the claim's transaction. -/
structure FenceLeaks (s : Store) (faults : Faults) (conn : Connection) : Prop where
  unheld : s.held = none
  slot : s.conn = some conn
  waits : 0 < conn.timeout ∧ conn.timeout ≤ 2 ^ 31 - 1
  zeroed : faults.fails .readFence = false ∧ faults.fails .waitRead = false ∧
    faults.fails .setFence = false ∧ faults.fails .waitSet = false
  started : faults.stops .started = none
  refused : faults.fails .beginFence = true

theorem Waits.of_conn (h : Waits prior s) (hconn : s'.conn = s.conn) : Waits prior s' := by
  unfold Waits busyTimeout
  rw [hconn]
  exact h

/-! ## What leaves the connection alone -/

theorem writes_conn (reports : Bool) (result : Except CallError Database) :
    (s.writes reports result).1.conn = s.conn := by
  cases result <;> rfl

theorem retain_conn (recordJson boundaryId : String) :
    (s.retain faults recordJson boundaryId).1.conn = s.conn := writes_conn _ _

theorem retainAttempt_conn (codec : Codec) (record : RetainedAttempt) :
    (s.retainAttempt codec faults record).1.conn = s.conn := by
  unfold retainAttempt
  dsimp only
  split
  · rfl
  · split
    · rfl
    · split
      · rfl
      · split
        · rfl
        · exact retain_conn _ _

theorem commitReported_conn (codec : Codec) (claim : CheckClaim) (primary : String) :
    (s.commitReported codec faults claim primary).1.conn = s.conn := by
  unfold commitReported
  dsimp only
  cases s.conn.any Connection.autocommit with
  | false => rfl
  | true =>
    rw [if_pos rfl]
    split
    · exact retainAttempt_conn codec _
    · exact retainAttempt_conn codec _

/-! ## The exits -/

theorem restoreOrQuarantine_waits : Waits prior (s.restoreOrQuarantine faults prior).1 := by
  unfold restoreOrQuarantine
  split
  · split
    · exact Or.inl rfl
    · exact Or.inr rfl
  · next hnone => exact Or.inl hnone

section

variable (codec : Codec) (claim : CheckClaim)
include codec claim

theorem refuseClaimWith_waits (site : ClaimSite)
    (primary : Option ℤ) :
    Waits prior (s.refuseClaimWith codec faults claim site primary prior).1 :=
  restoreOrQuarantine_waits

theorem commitClaim_waits (db : Database) :
    Waits prior (s.commitClaim codec faults claim prior db).1 := by
  unfold commitClaim
  split
  · exact Or.inl rfl
  · split
    · exact Or.inr rfl
    all_goals
      refine Waits.of_conn ?_ (commitReported_conn codec claim _)
      exact Or.inr rfl

/-- Past its fence, the transaction puts the timeout back on every exit. -/
theorem claimTransaction_waits
    (h : faults.stops .started ≠ none ∨ ∃ conn, s.connMut (faults.fails .beginFence) = .ok conn) :
    Waits prior (s.claimTransaction codec faults claim prior).1 := by
  unfold claimTransaction
  dsimp only
  split
  · exact refuseClaimWith_waits codec claim _ _
  · next hstarted =>
    obtain ⟨conn, hfence⟩ := h.resolve_left fun hstops => by
      obtain ⟨stop, hstop⟩ := Option.ne_none_iff_exists'.mp hstops
      simp [Faults.claimCheckpoint, hstop] at hstarted
    rw [hfence]
    dsimp only
    split
    · exact refuseClaimWith_waits codec claim _ _
    · split
      · exact refuseClaimWith_waits codec claim _ _
      · split
        · exact refuseClaimWith_waits codec claim _ _
        · exact commitClaim_waits codec claim _

theorem claimTransaction_refused {e : CallError}
    (hstarted : faults.stops .started = none) (hfence : s.connMut (faults.fails .beginFence) =
      .error e) : s.claimTransaction codec faults claim prior = (s, .error e) := by
  simp only [claimTransaction, Faults.claimCheckpoint, hstarted, hfence]

end

theorem connRead_ok {conn : Connection} (h : s.connRead = .ok conn) : s.conn = some conn := by
  unfold connRead at h
  split at h
  · cases h
  · split at h
    · next conn' hconn =>
      obtain rfl := Except.ok.inj h
      exact hconn
    · cases h

theorem connMut_open {conn : Connection} (hheld : s.held = none) (hconn : s.conn = some conn) :
    s.connMut false = .ok conn := by
  simp [connMut, connRead, hheld, hconn]

theorem connMut_replaced (hheld : s.held = none) : s.connMut true = .error .pathReplaced := by
  simp [connMut, hheld]

theorem fence_of_connMut_ok {replaced : Bool} {conn : Connection}
    (h : s.connMut replaced = .ok conn) : replaced = false := by
  cases replaced with
  | false => rfl
  | true =>
    rw [connMut_replaced (connMut_ok h).1] at h
    cases h

def zeroed (s : Store) (conn : Connection) : Store :=
  { s with conn := some { conn with timeout := 0 } }

theorem FenceLeaks.claimCheck_eq {conn : Connection} (h : FenceLeaks s faults conn)
    (codec : Codec) (claim : CheckClaim) :
    s.claimCheck codec faults claim = (s.zeroed conn, .error .pathReplaced) := by
  obtain ⟨hread, hwait, hset, hzero⟩ := h.zeroed
  have hrange : ¬ (faults.fails .waitRead = true ∨ conn.timeout < 0 ∨
      2 ^ 31 - 1 < conn.timeout) := by
    rintro (hfails | hneg | hlarge)
    · rw [hwait] at hfails
      cases hfails
    · exact absurd h.waits.1 (by omega)
    · exact absurd h.waits.2 (by omega)
  have hfence : (s.zeroed conn).connMut (faults.fails .beginFence) = .error .pathReplaced := by
    rw [h.refused]
    exact connMut_replaced h.unheld
  simp only [claimCheck, hread, hset, connMut_open h.unheld h.slot]
  rw [if_neg hrange, if_neg (by simp [hzero])]
  exact claimTransaction_refused codec claim h.started hfence

theorem Waits.unleaked {conn : Connection} (h : Waits conn.timeout s')
    (hconn : s.conn = some conn) : Unleaked s s' :=
  h.imp_right fun h => h.trans (congrArg (Option.map Connection.timeout) hconn).symm

/-- A claim leaks its zero wait exactly where the fence refuses before the transaction. -/
theorem claimCheck_unleaked_iff (codec : Codec) (s : Store) (faults : Faults)
    (claim : CheckClaim) :
    Unleaked s (s.claimCheck codec faults claim).1 ↔ ∀ conn, ¬ FenceLeaks s faults conn := by
  constructor
  · rintro hunleaked conn hleaks
    rw [hleaks.claimCheck_eq] at hunleaked
    rcases hunleaked with hnone | hsame
    · cases hnone
    · rw [busyTimeout, busyTimeout, hleaks.slot] at hsame
      have hzero : 0 = conn.timeout := Option.some.inj hsame
      exact absurd hleaks.waits.1 (by omega)
  · intro hnone
    unfold claimCheck
    split
    · exact Or.inr rfl
    · next conn hread =>
      obtain ⟨hheld, hconn⟩ := connMut_ok hread
      dsimp only
      split
      · exact Or.inr rfl
      · next hrange =>
        split
        · exact Or.inr rfl
        · next conn' hset =>
          obtain rfl : conn' = conn := Option.mem_unique (connMut_ok hset).2 hconn
          split
          · exact restoreOrQuarantine_waits.unleaked hconn
          · next hzero =>
            by_cases hstarted : faults.stops .started = none
            · cases hfence : faults.fails .beginFence with
              | false =>
                refine (claimTransaction_waits codec claim (Or.inr ?_)).unleaked hconn
                rw [hfence]
                exact ⟨_, connMut_open hheld rfl⟩
              | true =>
                have hrefused : (s.zeroed conn').connMut (faults.fails .beginFence) =
                    .error .pathReplaced := by
                  rw [hfence]
                  exact connMut_replaced hheld
                have hleft : (s.zeroed conn').claimTransaction codec faults claim conn'.timeout =
                    (s.zeroed conn', .error .pathReplaced) :=
                  claimTransaction_refused codec claim hstarted hrefused
                push Not at hrange
                obtain ⟨hwait, hneg, hlarge⟩ := hrange
                have hzeroed : conn'.timeout = 0 := by
                  by_contra hpos
                  exact hnone conn' ⟨hheld, hconn, ⟨by omega, by omega⟩,
                    ⟨fence_of_connMut_ok hread, by simpa using hwait, fence_of_connMut_ok hset,
                      by simpa using hzero⟩, hstarted, hfence⟩
                refine Or.inr ((congrArg (fun r => r.1.busyTimeout) hleft).trans ?_)
                rw [busyTimeout, busyTimeout, hconn, zeroed]
                exact congrArg some hzeroed.symm
            · exact (claimTransaction_waits codec claim (Or.inl hstarted)).unleaked hconn

theorem retainPreclaimRejection_unleaked (codec : Codec) (s : Store) (faults : Faults)
    (site bindingDigest : String) :
    Unleaked s (s.retainPreclaimRejection codec faults site bindingDigest).1 := by
  unfold retainPreclaimRejection
  split
  · exact Or.inr rfl
  · next conn hread =>
    have hconn : s.conn = some conn := connRead_ok hread
    dsimp only
    split
    · exact Or.inr rfl
    · split
      · exact restoreOrQuarantine_waits.unleaked hconn
      · split
        · exact restoreOrQuarantine_waits.unleaked hconn
        · exact restoreOrQuarantine_waits.unleaked hconn

/-- Both calls leave the slot empty or the timeout as it was, exactly if the path's fence does not
refuse between the zero wait of a claim and its transaction. -/
theorem zero_wait_scoped (codec : Codec) (s : Store) (faults : Faults) (claim : CheckClaim)
    (site bindingDigest : String) :
    (Unleaked s (s.claimCheck codec faults claim).1 ∧
        Unleaked s (s.retainPreclaimRejection codec faults site bindingDigest).1) ↔
      ∀ conn, ¬ FenceLeaks s faults conn := by
  rw [claimCheck_unleaked_iff]
  exact and_iff_left (retainPreclaimRejection_unleaked codec s faults site bindingDigest)

/-- The path is replaced right before the transaction: the store keeps the zero wait. -/
theorem not_zero_wait_scoped :
    ¬ Unleaked plannedStore
      (plannedStore.claimCheck plainCodec
        { noFaults with fails := fun site => site = .beginFence } customClaim).1 := by
  decide

end Store

end Rivect.Dispatch
