import Mathlib.Logic.Equiv.Basic
import Rivect.Sharing.Turns

/-! # Runs of the sharing surface

`Kept` holds of a surface that starts without live grants, and every call keeps it, whatever the
clock, the peers and the entropy source do. What observers may do under a grant follows.
-/

namespace Rivect.Sharing

open Lib List
open EffectPolicy (LF ascii)

variable {codec : Codec} {owners : Owners} {log log' : List Event} {rows rows' : Rows}
  {future : List String} {g g' : LiveGrant} {s s' : Surface}

/-- The grants, the rows and the log agree; `future` are the attachment ids still to be minted. -/
structure Kept (codec : Codec) (log : List Event) (future : List String) (s : Surface) : Prop where
  keys : UniqueKeys LiveGrant.grantId s.grants
  lawful : Lawful log
  known : ∀ e ∈ log, sharingGrant s.rows e.grantId ≠ none
  stands : ∀ g ∈ s.grants, Stands codec log s.rows g
  attached : ∀ g ∈ s.grants, ∀ c ∈ g.connections, Attached codec g c
  framed : ∀ g ∈ s.grants, ∀ c ∈ g.connections, Framed c []
  exact : ∀ g ∈ s.grants, Exact g (held g.connections)
  fresh : ∀ g ∈ s.grants, Fresh future (held g.connections)

/-- What a later surface keeps of an earlier one: the rows that are closed, and every grant with
its terms. -/
structure Continues (s s' : Surface) : Prop where
  ended : ∀ row ∈ s.rows, row.state ≠ .opened → row ∈ s'.rows
  grants : ∀ g ∈ s.grants, ∃ g' ∈ s'.grants, g'.row = { g.row with state := g'.state }

namespace Continues

theorem refl : Continues s s := ⟨fun _ h _ => h, fun g hg => ⟨g, hg, rfl⟩⟩

theorem trans {s'' : Surface} (h : Continues s s') (h' : Continues s' s'') : Continues s s'' where
  ended row hrow hstate := h'.ended row (h.ended row hrow hstate) hstate
  grants g hg := by
    obtain ⟨g', hg', hrow⟩ := h.grants g hg
    obtain ⟨g'', hg'', hrow'⟩ := h'.grants g' hg'
    exact ⟨g'', hg'', by rw [hrow', hrow]⟩

end Continues

/-! ## One grant at a time -/

variable {front back : List LiveGrant}

theorem Moves.continues (h : Moves codec log rows g log' rows' g') :
    Continues ⟨rows, front ++ g :: back⟩ ⟨rows', front ++ g' :: back⟩ where
  ended := h.ended
  grants other hother := by
    rcases mem_append.mp hother with hmem | hmem
    · exact ⟨other, mem_append_left _ hmem, rfl⟩
    · rcases mem_cons.mp hmem with rfl | hmem
      · exact ⟨g', mem_append_right _ mem_cons_self, h.row⟩
      · exact ⟨other, mem_append_right _ (mem_cons_of_mem _ hmem), rfl⟩

/-- A lawful step of one grant, with its own connections in order, keeps the whole surface. -/
theorem Kept.step {future' : List String}
    (h : Kept codec log future ⟨rows, front ++ g :: back⟩)
    (hmoves : Moves codec log rows g log' rows' g') (hfuture : future'.Sublist future)
    (hattached : ∀ c ∈ g'.connections, Attached codec g' c)
    (hframed : ∀ c ∈ g'.connections, Framed c [])
    (hexact : Exact g' (held g'.connections)) (hfresh : Fresh future' (held g'.connections)) :
    Kept codec log' future' ⟨rows', front ++ g' :: back⟩ := by
  have hg : g ∈ front ++ g :: back := mem_append_right _ mem_cons_self
  have hstands := h.stands g hg
  have hkeys := h.keys
  unfold UniqueKeys at hkeys
  rw [map_append, map_cons] at hkeys
  have hfound : ∀ other ∈ front ++ g' :: back, other = g' ∨
      other ∈ front ++ g :: back ∧ other.grantId ≠ g.grantId := by
    intro other hother
    have hnot := (nodup_middle.mp hkeys)
    rw [← map_append] at hnot
    have hne (hmem : other ∈ front ++ back) : other.grantId ≠ g.grantId := fun heq =>
      (nodup_cons.mp hnot).1 (heq ▸ mem_map_of_mem hmem)
    rcases mem_append.mp hother with hmem | hmem
    · exact .inr ⟨mem_append_left _ hmem, hne (mem_append_left _ hmem)⟩
    · rcases mem_cons.mp hmem with rfl | hmem
      · exact .inl rfl
      · exact .inr ⟨mem_append_right _ (mem_cons_of_mem _ hmem),
          hne (mem_append_right _ hmem)⟩
  have hall (P : LiveGrant → Prop) (hself : P g')
      (hold : ∀ other ∈ front ++ g :: back, other.grantId ≠ g.grantId → P other) :
      ∀ other ∈ front ++ g' :: back, P other := by
    intro other hother
    rcases hfound other hother with rfl | ⟨hmem, hne⟩
    · exact hself
    · exact hold other hmem hne
  obtain ⟨added, rfl, hadded⟩ := hmoves.added
  exact {
    keys := by
      unfold UniqueKeys
      rw [map_append, map_cons, hmoves.grantId_eq]
      exact hkeys
    lawful := hmoves.lawful hstands h.lawful
    known := fun e he hnone => by
      by_cases hid : e.grantId = g.grantId
      · rw [hid, ← hmoves.grantId_eq, (hmoves.stands hstands).stored] at hnone
        cases hnone
      · rw [hmoves.others _ hid] at hnone
        rcases mem_append.mp he with he | he
        · exact h.known e he hnone
        · exact hid (hadded e he)
    stands := hall _ (hmoves.stands hstands) fun other hmem hne => by
      have hother := (h.stands other hmem).append fun state hclosed =>
        hne (hadded _ hclosed)
      exact ⟨(hmoves.others _ hne).trans hother.stored, hother.minted, hother.closed⟩
    attached := hall _ hattached fun other hmem _ => h.attached other hmem
    framed := hall _ hframed fun other hmem _ => h.framed other hmem
    exact := hall _ hexact fun other hmem _ => h.exact other hmem
    fresh := hall _ hfresh fun other hmem _ =>
      (h.fresh other hmem).mono hfuture (Subset.refl _) }

theorem Kept.mono {future' : List String} (h : Kept codec log future s)
    (hfuture : future'.Sublist future) : Kept codec log future' s :=
  { h with fresh := fun g hg => (h.fresh g hg).mono hfuture (Subset.refl _) }

/-- What a serving turn does to the surface. -/
structure Turns (codec : Codec) (log : List Event) (future : List String) (turn : ServeTurn)
    (grants : List LiveGrant) (turn' : ServeTurn) (grants' : List LiveGrant) : Prop where
  kept : ∀ front, Kept codec (log ++ turn.events) (minted turn.ticks ++ future)
      ⟨turn.rows, front ++ grants⟩ →
    Kept codec (log ++ turn'.events) (minted turn'.ticks ++ future) ⟨turn'.rows, front ++ grants'⟩ ∧
      Continues ⟨turn.rows, front ++ grants⟩ ⟨turn'.rows, front ++ grants'⟩
  spent : turn'.served + turn'.framesLeft = turn.served + turn.framesLeft
  budget : turn'.framesLeft ≤ turn.framesLeft
  suffix : turn'.ticks <:+ turn.ticks
  drained : InTime turn.deadline turn.ticks → 0 < turn'.framesLeft → turn'.ticks ≠ [] →
    ∀ g ∈ grants', ∀ c ∈ g.connections, Drained c

theorem turns_serveGrants (hcodec : codec.Separates) (grants : List LiveGrant) :
    ∀ turn, Turns codec log future turn grants (serveGrants codec owners turn grants).1
      (serveGrants codec owners turn grants).2 := by
  -- induction on the grants left to serve, each with the ticks that the ones before it left
  induction grants with
  | nil =>
    intro turn
    exact {
      kept := fun _ h => ⟨h, .refl⟩
      spent := rfl
      budget := Nat.le_refl _
      suffix := suffix_refl _
      drained := fun _ _ _ _ h => nomatch h }
  | cons g grants ih =>
    intro turn
    unfold serveGrants
    split
    · rename_i hticks
      exact {
        kept := fun _ h => ⟨h, .refl⟩
        spent := rfl
        budget := Nat.le_refl _
        suffix := suffix_refl _
        drained := fun _ _ hne => absurd hticks hne }
    · rename_i t ticks hticks
      have hsuffix : ticks <:+ turn.ticks := hticks ▸ suffix_cons t ticks
      have hsublist : (minted ticks ++ future).Sublist (minted turn.ticks ++ future) :=
        (hsuffix.sublist.filterMap _).append_right _
      split
      · have hserved := @served_serve _ owners hcodec { turn with ticks := ticks } g
        have hdrained := @drained_serve _ owners hcodec { turn with ticks := ticks } g
        generalize g.serve codec owners { turn with ticks := ticks } = result at hserved hdrained ⊢
        obtain ⟨turn1, g1⟩ := result
        have hrest := ih turn1
        exact {
          kept := fun front hkept => by
            have hg : g ∈ front ++ g :: grants := mem_append_right _ mem_cons_self
            obtain ⟨hexact, hfresh⟩ := hserved.exact future (hkept.exact g hg)
              ((hkept.fresh g hg).mono hsublist (Subset.refl _))
            have hmoves := hserved.moves log (hkept.attached g hg)
            have hstep := hkept.step hmoves
              (((hserved.suffix.sublist.filterMap _).append_right _).trans hsublist)
              (hserved.attached (hkept.attached g hg)) (hserved.framed (hkept.framed g hg))
              hexact hfresh
            rw [append_cons] at hstep ⊢
            obtain ⟨hkept', hcontinues⟩ := hrest.kept _ hstep
            rw [← append_cons] at hcontinues
            exact ⟨hkept', hmoves.continues.trans hcontinues⟩
          spent := hrest.spent.trans hserved.spent
          budget := Nat.le_trans hrest.budget hserved.budget
          suffix := (hrest.suffix.trans hserved.suffix).trans hsuffix
          drained := fun htime hleft hne h hh => by
            rcases mem_cons.mp hh with rfl | hh
            · exact hdrained (htime.suffix hsuffix) (Nat.lt_of_lt_of_le hleft hrest.budget)
                (ne_nil_of_suffix hne hrest.suffix)
            · refine hrest.drained ?_ hleft hne h hh
              rw [hserved.deadline]
              exact htime.suffix (hserved.suffix.trans hsuffix) }
      · rename_i hnot
        exact {
          kept := fun _ h => ⟨h.mono hsublist, .refl⟩
          spent := rfl
          budget := Nat.le_refl _
          suffix := hsuffix
          drained := fun htime hleft _ => by
            have hnow := (htime t (hticks ▸ mem_cons_self)).1
            exact absurd (available_of_lt hleft hnow) hnot }

/-! ## The calls -/

theorem exists_middle {grantId : String} (hkeys : UniqueKeys LiveGrant.grantId s.grants)
    (hg : g ∈ s.grants) (hid : g.grantId = grantId) :
    ∃ front back, s.grants = front ++ g :: back ∧
      ∀ other ∈ front ++ back, other.grantId ≠ grantId := by
  obtain ⟨front, back, hgrants⟩ := append_of_mem hg
  refine ⟨front, back, hgrants, fun other hother heq => ?_⟩
  unfold UniqueKeys at hkeys
  rw [hgrants, map_append, map_cons] at hkeys
  have hnot := nodup_middle.mp hkeys
  rw [← map_append] at hnot
  exact (nodup_cons.mp hnot).1 ((heq.trans hid.symm) ▸ mem_map_of_mem hother)

/-- A lawful step of one grant that leaves its connections as they are. -/
theorem Kept.replace (h : Kept codec log future s) (hg : g ∈ s.grants)
    (hmoves : Moves codec log s.rows g log' rows' g')
    (hconnections : g'.connections = g.connections)
    (hattachments : g'.attachments = g.attachments) :
    ∃ front back, s.grants = front ++ g :: back ∧
      (∀ other ∈ front ++ back, other.grantId ≠ g.grantId) ∧
      Kept codec log' future ⟨rows', front ++ g' :: back⟩ ∧
      Continues s ⟨rows', front ++ g' :: back⟩ := by
  obtain ⟨front, back, hgrants, hne⟩ := exists_middle h.keys hg rfl
  have hs : s = ⟨s.rows, front ++ g :: back⟩ := by rw [← hgrants]
  refine ⟨front, back, hgrants, hne, ?_, ?_⟩
  · have hattached : ∀ c ∈ g.connections, Attached codec g' c := fun c hc =>
      (h.attached g hg c hc).congr hmoves.tokenDigest_eq
    have hframed := h.framed g hg
    have hexact := (h.exact g hg).congr hattachments
    have hfresh := h.fresh g hg
    rw [← hconnections] at hattached hframed hexact hfresh
    rw [hs] at h
    exact h.step hmoves (Sublist.refl _) hattached hframed hexact hfresh
  · conv_lhs => rw [hs]
    exact hmoves.continues

theorem Kept.of_rows (h : Kept codec log future s)
    (hrows : ∀ g ∈ s.grants, sharingGrant rows' g.grantId = sharingGrant s.rows g.grantId)
    (hnone : ∀ k, sharingGrant rows' k = none → sharingGrant s.rows k = none) :
    Kept codec log future ⟨rows', s.grants⟩ :=
  { h with
    known := fun e he hrow => h.known e he (hnone _ hrow)
    stands := fun g hg =>
      ⟨(hrows g hg).trans (h.stands g hg).stored, (h.stands g hg).minted, (h.stands g hg).closed⟩ }

theorem insertGrant_perm {grants : List LiveGrant}
    (h : ∀ other ∈ grants, other.grantId ≠ g.grantId) :
    (insertGrant g grants).Perm (g :: grants) := by
  induction grants with
  | nil => exact Perm.refl _
  | cons other grants ih =>
    unfold insertGrant
    rw [if_neg fun heq => h other mem_cons_self heq.symm]
    split
    · exact Perm.refl _
    · exact ((ih fun o ho => h o (mem_cons_of_mem _ ho)).cons other).trans
        (Perm.swap _ _ _)

theorem openSharingGrant_rows {grantId sessionId taskId tokenDigest : String} {expiresAt : ℕ}
    (h : openSharingGrant owners rows grantId sessionId taskId tokenDigest expiresAt =
      .ok rows') :
    (∀ row ∈ rows, row.grantId ≠ grantId) ∧
      rows' = rows ++ [⟨grantId, taskId, tokenDigest, expiresAt, .opened⟩] := by
  unfold openSharingGrant sharingExpiry at h
  split at h
  · rw [ok_bind] at h
    unfold require at h
    split at h
    · rw [ok_bind] at h
      split at h
      · rename_i hkey
        exact ⟨hkey, (Except.ok.inj h).symm⟩
      · cases h
    · cases h
  · cases h

theorem Kept.opened {token : String} (h : Kept codec log future s)
    (hkey : ∀ row ∈ s.rows, row.grantId ≠ g.grantId) (hopen : g.state = .opened)
    (hshape : isTokenShaped token = true) (hdigest : codec.digest token = g.tokenDigest)
    (hconnections : g.connections = []) (hattachments : g.attachments = [])
    (hfuture : future.Nodup) :
    Kept codec (log ++ [.opened g.grantId token g.expiresAt]) future
        ⟨s.rows ++ [g.row], insertGrant g s.grants⟩ ∧
      Continues s ⟨s.rows ++ [g.row], insertGrant g s.grants⟩ := by
  have hnone : sharingGrant s.rows g.grantId = none := rowAt_eq_none.mpr hkey
  have hself : sharingGrant (s.rows ++ [g.row]) g.grantId = some g.row :=
    rowAt_insert_self (a := g.row) hkey
  have hunknown : ∀ e ∈ log, e.grantId ≠ g.grantId := fun e he heq => h.known e he (heq ▸ hnone)
  have hne : ∀ other ∈ s.grants, other.grantId ≠ g.grantId := fun other hother heq => by
    have hstored := (h.stands other hother).stored
    rw [heq, hnone] at hstored
    cases hstored
  have hperm := insertGrant_perm hne
  have hall (P : LiveGrant → Prop) (hnew : P g) (hold : ∀ other ∈ s.grants, P other) :
      ∀ other ∈ insertGrant g s.grants, P other := by
    intro other hother
    rcases mem_cons.mp (hperm.subset hother) with rfl | hother
    · exact hnew
    · exact hold other hother
  have hothers : ∀ k, k ≠ g.grantId → sharingGrant (s.rows ++ [g.row]) k = sharingGrant s.rows k :=
    fun k hk => rowAt_insert_of_ne (a := g.row) hk.symm
  constructor
  · exact {
      keys := by
        have hkeys : UniqueKeys LiveGrant.grantId (g :: s.grants) :=
          nodup_cons.mpr ⟨fun hmem => by
            obtain ⟨other, hother, heq⟩ := mem_map.mp hmem
            exact hne other hother heq, h.keys⟩
        exact (hperm.map _).nodup_iff.mpr hkeys
      lawful := h.lawful.snoc hunknown
      known := fun e he hrow => by
        rcases mem_append.mp he with he | he
        · rw [hothers _ (hunknown e he)] at hrow
          exact h.known e he hrow
        · obtain rfl := mem_singleton.mp he
          exact Option.some_ne_none _ (hself.symm.trans hrow)
      stands := hall _ ⟨hself, ⟨token, by simp, hshape, hdigest⟩, fun state => by
          rw [mem_append, mem_singleton]
          constructor
          · rintro (hmem | heq)
            · exact absurd rfl (hunknown _ hmem)
            · cases heq
          · rintro ⟨rfl, hstate⟩
            exact absurd hopen hstate⟩
        fun other hother => by
          have happend := @Stands.append _ _ _ _ [.opened g.grantId token g.expiresAt]
            (h.stands other hother) (by simp)
          exact ⟨(hothers _ (hne other hother)).trans happend.stored, happend.minted,
            happend.closed⟩
      attached := hall _ (by rw [hconnections]; exact fun _ hc => nomatch hc) h.attached
      framed := hall _ (by rw [hconnections]; exact fun _ hc => nomatch hc) h.framed
      exact := hall _ (by
        rw [hconnections]
        exact ⟨nodup_nil, fun id => by rw [hattachments]; rfl⟩) h.exact
      fresh := hall _ (by
        rw [hconnections]
        exact ⟨hfuture, fun _ _ hmem => nomatch hmem⟩) h.fresh }
  · exact ⟨fun row hrow _ => mem_append_left _ hrow, fun other hother =>
      ⟨other, hperm.symm.subset (mem_cons_of_mem _ hother), rfl⟩⟩

theorem kept_openSharingGrant {opening : Opening} {events : List Event}
    (h : Kept codec log future s) (hfuture : future.Nodup)
    (hopen : s.openSharingGrant codec owners opening = .ok (s', events)) :
    Kept codec (log ++ events) future s' ∧ Continues s s' := by
  unfold Surface.openSharingGrant at hopen
  cases hid : opening.grantId with
  | none =>
    rw [hid] at hopen
    cases hopen
  | some grantId =>
  cases htoken : opening.token with
  | none =>
    rw [hid, htoken] at hopen
    cases hopen
  | some token =>
  cases hbound : opening.bound with
  | none =>
    rw [hid, htoken, hbound] at hopen
    cases hopen
  | some listener =>
    simp only [hid, htoken, hbound, found_some, ok_bind] at hopen
    split at hopen
    · cases hopen
    · rename_i rows' hrows
      obtain ⟨rfl, rfl⟩ := Prod.mk.inj (Except.ok.inj hopen)
      obtain ⟨hkey, rfl⟩ := openSharingGrant_rows hrows
      exact h.opened (g := ⟨grantId, opening.sessionId, opening.taskId, codec.digest token, _,
        .opened, some listener, [], []⟩) hkey rfl token.property rfl rfl rfl hfuture

theorem map_adopt_of_ne {grantId : String} {state : GrantState} {grants : List LiveGrant}
    (h : ∀ other ∈ grants, other.grantId ≠ grantId) :
    grants.map (Surface.adopt grantId state) = grants ∧
      (grants.flatMap fun other => closing other (Surface.adopt grantId state other)) = [] := by
  have hsame : ∀ other ∈ grants, Surface.adopt grantId state other = other := fun other hother =>
    if_neg (h other hother)
  constructor
  · conv_rhs => rw [← map_id grants]
    exact map_congr_left hsame
  · refine flatMap_eq_nil_iff.mpr fun other hother => ?_
    rw [hsame other hother]
    exact closing_self

theorem moves_adopt {sessionId : String} {row : SharingGrant}
    (h : revokeSharingGrant owners rows g.grantId sessionId = .ok (rows', row)) :
    Moves codec log rows g (log ++ closing g (Surface.adopt g.grantId row.state g)) rows'
      (Surface.adopt g.grantId row.state g) := by
  obtain ⟨rfl, hrow⟩ := transitionSharingGrant_ok h
  unfold Surface.adopt
  rw [if_pos rfl]
  refine Moves.of_state rfl (fun k hk => sharingGrant_updateGrant_of_ne hk)
    (fun row hrow => mem_updateGrant_of_ended hrow) fun hstored => ?_
  have hafter := @sharingGrant_updateGrant rows g.grantId g.grantId (fun _ => true) .revoked
  rw [hstored, hrow, Option.map_some] at hafter
  have hclosed := Option.some.inj hafter
  have hterms : ∀ state, closeRow g.grantId (fun _ => true) state g.row =
      { g.row with state := (closeRow g.grantId (fun _ => true) state g.row).state } := by
    intro state
    unfold closeRow
    split <;> rfl
  constructor
  · rw [hrow, hclosed]
    exact congrArg some (hterms _)
  · intro hended
    have hstays := @closeRow_of_ended g.grantId (fun _ => true) .revoked g.row hended
    rw [hclosed, hstays]
    rfl

theorem kept_revokeSharingGrant {sessionId grantId : String} {events : List Event}
    (h : Kept codec log future s)
    (hrevoke : s.revokeSharingGrant owners sessionId grantId = .ok (s', events)) :
    Kept codec (log ++ events) future s' ∧ Continues s s' := by
  unfold Surface.revokeSharingGrant at hrevoke
  split at hrevoke
  · cases hrevoke
  · rename_i rows' row hrows
    obtain ⟨rfl, rfl⟩ := Prod.mk.inj (Except.ok.inj hrevoke)
    by_cases hlive : ∃ g ∈ s.grants, g.grantId = grantId
    · obtain ⟨g, hg, rfl⟩ := hlive
      have hsame : (Surface.adopt g.grantId row.state g).connections = g.connections ∧
          (Surface.adopt g.grantId row.state g).attachments = g.attachments := by
        unfold Surface.adopt
        split <;> exact ⟨rfl, rfl⟩
      obtain ⟨front, back, hgrants, hne, hkept⟩ :=
        h.replace hg (moves_adopt hrows) hsame.1 hsame.2
      have hfront := @map_adopt_of_ne _ row.state _
        fun other hother => hne other (mem_append_left _ hother)
      have hback := @map_adopt_of_ne _ row.state _
        fun other hother => hne other (mem_append_right _ hother)
      rw [hgrants, map_append, map_cons, flatMap_append, flatMap_cons,
        hfront.1, hfront.2, hback.1, hback.2, nil_append, append_nil]
      exact hkept
    · have hne : ∀ other ∈ s.grants, other.grantId ≠ grantId := fun other hother heq =>
        hlive ⟨other, hother, heq⟩
      rw [(map_adopt_of_ne hne).1, (map_adopt_of_ne hne).2, append_nil]
      obtain ⟨rfl, -⟩ := transitionSharingGrant_ok hrows
      refine ⟨h.of_rows (fun g hg => sharingGrant_updateGrant_of_ne (hne g hg)) fun k hk => ?_,
        fun row hrow => mem_updateGrant_of_ended hrow, fun g hg => ⟨g, hg, rfl⟩⟩
      rw [sharingGrant_updateGrant] at hk
      exact Option.map_eq_none_iff.mp hk

theorem kept_attach {token : String} {now : Seconds} {entropy : Option String}
    (hcodec : codec.Separates) (h : Kept codec log future s) :
    Kept codec (log ++ (s.attach codec owners token now entropy).2.1) future
        (s.attach codec owners token now entropy).1 ∧
      Continues s (s.attach codec owners token now entropy).1 := by
  unfold Surface.attach
  split
  · rw [append_nil]
    exact ⟨h, .refl⟩
  rename_i hshape
  split
  · rw [append_nil]
    exact ⟨h, .refl⟩
  rename_i g hfind
  have hg := mem_of_find?_eq_some hfind
  have hdigest : g.tokenDigest = codec.digest token := by
    simpa using find?_some hfind
  have hreplaced (front back : List LiveGrant) (g' : LiveGrant)
      (hgrants : s.grants = front ++ g :: back)
      (hne : ∀ other ∈ front ++ back, other.grantId ≠ g.grantId) :
      (s.grants.map fun other => if other.grantId = g.grantId then g' else other) =
        front ++ g' :: back := by
    have hside (side : List LiveGrant) (hside : ∀ other ∈ side, other.grantId ≠ g.grantId) :
        (side.map fun other => if other.grantId = g.grantId then g' else other) = side := by
      conv_rhs => rw [← map_id side]
      exact map_congr_left fun other hother => if_neg (hside other hother)
    rw [hgrants, map_append, map_cons, if_pos rfl,
      hside front fun other hother => hne other (mem_append_left _ hother),
      hside back fun other hother => hne other (mem_append_right _ hother)]
  split
  rename_i rows' g' result hensure
  cases result with
  | error error =>
    obtain ⟨hmoves, hattachments, hconnections⟩ := ensureLive_error
      hensure
    obtain ⟨front, back, hgrants, hne, hkept⟩ := h.replace hg hmoves hconnections hattachments
    rw [hreplaced front back g' hgrants hne]
    exact hkept
  | ok done =>
    obtain ⟨rfl, rfl, hlive⟩ := ensureLive_ok hensure
    cases entropy with
    | none =>
      obtain ⟨front, back, hgrants, hne, hkept⟩ := h.replace hg (Moves.of_quiet rfl) rfl rfl
      rw [hreplaced front back g' hgrants hne]
      exact hkept
    | some attachmentId =>
      have hlawful : Stands codec log s.rows g' →
          (Event.attached g'.grantId token now).LawfulAfter log := fun hs =>
        ⟨_, hs.standsOpen_of_digest hcodec hlive.1 (eq_true_of_ne_false hshape) hdigest, hlive.2⟩
      obtain ⟨front, back, hgrants, hne, hkept⟩ :=
        h.replace hg (Moves.of_event rfl (fun _ => by simp) hlawful) rfl rfl
      rw [hreplaced front back g' hgrants hne, closing_self, nil_append]
      exact hkept

/-- The attachment ids that a call mints for connections. -/
def Call.minted : Call → List String
  | .serve _ ticks => Sharing.minted ticks
  | _ => []

theorem kept_after (hcodec : codec.Separates) (call : Call)
    (h : Kept codec log (call.minted ++ future) s) (hfuture : future.Nodup) :
    Kept codec (log ++ (s.after codec owners call).2) future (s.after codec owners call).1 ∧
      Continues s (s.after codec owners call).1 := by
  cases call with
  | «open» opening =>
    simp only [Surface.after]
    split
    · rename_i hopen
      exact kept_openSharingGrant h hfuture hopen
    · rw [append_nil]
      exact ⟨h, .refl⟩
  | revoke sessionId grantId =>
    simp only [Surface.after]
    split
    · rename_i hrevoke
      exact kept_revokeSharingGrant h hrevoke
    · rw [append_nil]
      exact ⟨h, .refl⟩
  | attach token now entropy => exact kept_attach hcodec h
  | serve started ticks =>
    have hturns := @turns_serveGrants _ owners log future hcodec
      s.grants ⟨s.rows, started + maxServeTurn, maxFramesPerTurn, ticks, 0, []⟩
    obtain ⟨hkept, hcontinues⟩ := hturns.kept [] (by rw [append_nil]; exact h)
    exact ⟨hkept.mono (sublist_append_right _ _), hcontinues⟩

/-! ## Runs -/

/-- The surface as a process starts it: whatever the rows say, no grant is live. -/
def Surface.start (rows : Rows) : Surface := ⟨failOpenSharingGrants rows, []⟩

/-- The attachment ids that the entropy source gives in a run. -/
def mintedIn (calls : List (Owners × Call)) : List String := calls.flatMap fun call => call.2.minted

theorem kept_run (hcodec : codec.Separates) (calls : List (Owners × Call)) :
    ∀ log s, Kept codec log (mintedIn calls ++ future) s → (mintedIn calls ++ future).Nodup →
      Kept codec (log ++ (s.run codec calls).2) future (s.run codec calls).1 ∧
        Continues s (s.run codec calls).1 := by
  induction calls with
  | nil =>
    intro log s h _
    simp only [Surface.run, append_nil]
    exact ⟨h, .refl⟩
  | cons call calls ih =>
    intro log s h hids
    obtain ⟨owners, call⟩ := call
    have hcons : mintedIn ((owners, call) :: calls) ++ future =
        call.minted ++ (mintedIn calls ++ future) := by
      rw [mintedIn, flatMap_cons, append_assoc]
      rfl
    rw [hcons] at h hids
    have hlater := (nodup_append.mp hids).2.1
    obtain ⟨hkept, hcontinues⟩ := kept_after hcodec call h hlater
    obtain ⟨hkept', hcontinues'⟩ := ih _ _ hkept hlater
    simp only [Surface.run]
    rw [← append_assoc]
    exact ⟨hkept', hcontinues.trans hcontinues'⟩

end Rivect.Sharing
