import Rivect.Sharing.Service

/-! # The gate of a grant

The log of a surface is lawful when every event in it is justified by the ones before. `Moves` is
what one step may do to a grant, its row and the log; `answer` is such a step.
-/

namespace Rivect.Sharing

open Lib List
open EffectPolicy (Text)

variable {codec : Codec} {owners : Owners} {log log' log'' : List Event} {rows rows' rows'' : Rows}
  {g g' g'' : LiveGrant}

/-! ## Lawful logs -/

/-- No two tokens have one digest. -/
def Codec.Separates (codec : Codec) : Prop :=
  ∀ s t, isTokenShaped s = true → isTokenShaped t = true → codec.digest s = codec.digest t → s = t

/-- The grant was opened with this token and expiry, and has not been closed. -/
def StandsOpen (log : List Event) (grantId token : String) (expiresAt : ℕ) : Prop :=
  .opened grantId token expiresAt ∈ log ∧ ∀ state, .closed grantId state ∉ log

/-- What must have happened before an event. -/
def Event.LawfulAfter (log : List Event) : Event → Prop
  | .opened grantId _ _ => ∀ e ∈ log, e.grantId ≠ grantId
  | .closed grantId state =>
    state ≠ .opened ∧ ∃ token expiresAt, StandsOpen log grantId token expiresAt
  | .attached grantId token now =>
    ∃ expiresAt, StandsOpen log grantId token expiresAt ∧ now < expiresAt
  | .ran g presented now => g.state = .opened ∧ now < g.expiresAt ∧
      ∃ token, presented = some token ∧ StandsOpen log g.grantId token g.expiresAt

def Lawful (log : List Event) : Prop :=
  ∀ before e later, log = before ++ e :: later → e.LawfulAfter before

theorem Lawful.snoc {e : Event} (h : Lawful log) (he : e.LawfulAfter log) :
    Lawful (log ++ [e]) := by
  intro before e' later heq
  rcases eq_nil_or_concat later with rfl | ⟨later, last, rfl⟩
  · obtain ⟨rfl, hlast⟩ := append_inj' heq rfl
    cases hlast
    exact he
  · rw [concat_eq_append, ← cons_append, ← append_assoc] at heq
    exact h before e' later (append_inj' heq rfl).1

/-- The row that the live grant stands for. -/
def LiveGrant.row (g : LiveGrant) : SharingGrant :=
  ⟨g.grantId, g.taskId, g.tokenDigest, g.expiresAt, g.state⟩

structure Stands (codec : Codec) (log : List Event) (rows : Rows) (g : LiveGrant) : Prop where
  stored : sharingGrant rows g.grantId = some g.row
  minted : ∃ token, .opened g.grantId token g.expiresAt ∈ log ∧ isTokenShaped token = true ∧
    codec.digest token = g.tokenDigest
  closed : ∀ state, .closed g.grantId state ∈ log ↔ g.state = state ∧ state ≠ .opened

theorem Stands.standsOpen (h : Stands codec log rows g) (hopen : g.state = .opened) :
    ∃ token, StandsOpen log g.grantId token g.expiresAt ∧ isTokenShaped token = true ∧
      codec.digest token = g.tokenDigest := by
  obtain ⟨token, hmem, hshape, hdigest⟩ := h.minted
  refine ⟨token, ⟨hmem, fun state hclosed => ?_⟩, hshape, hdigest⟩
  obtain ⟨hstate, hne⟩ := (h.closed state).mp hclosed
  exact hne (hstate.symm.trans hopen)

theorem Stands.standsOpen_of_digest (hcodec : codec.Separates) (h : Stands codec log rows g)
    (hopen : g.state = .opened) {token : String} (hshape : isTokenShaped token = true)
    (hdigest : g.tokenDigest = codec.digest token) :
    StandsOpen log g.grantId token g.expiresAt := by
  obtain ⟨minted, hstands, hminted, hsame⟩ := h.standsOpen hopen
  rwa [hcodec token minted hshape hminted (hdigest.symm.trans hsame.symm)]

theorem Stands.append {added : List Event} (h : Stands codec log rows g)
    (hadded : ∀ state, .closed g.grantId state ∉ added) : Stands codec (log ++ added) rows g where
  stored := h.stored
  minted := by
    obtain ⟨token, hmem, hminted⟩ := h.minted
    exact ⟨token, mem_append_left _ hmem, hminted⟩
  closed state := by
    rw [mem_append, ← h.closed state]
    exact or_iff_left (hadded state)

/-- What a step on one grant may do: the grant keeps its terms, the step logs only events of the
grant and writes only its row, and grant, row and log stay in agreement. -/
structure Moves (codec : Codec) (log : List Event) (rows : Rows) (g : LiveGrant)
    (log' : List Event) (rows' : Rows) (g' : LiveGrant) : Prop where
  row : g'.row = { g.row with state := g'.state }
  added : ∃ added, log' = log ++ added ∧ ∀ e ∈ added, e.grantId = g.grantId
  others : ∀ k, k ≠ g.grantId → sharingGrant rows' k = sharingGrant rows k
  ended : ∀ row ∈ rows, row.state ≠ .opened → row ∈ rows'
  stands : Stands codec log rows g → Stands codec log' rows' g'
  lawful : Stands codec log rows g → Lawful log → Lawful log'

namespace Moves

theorem grantId_eq (h : Moves codec log rows g log' rows' g') : g'.grantId = g.grantId :=
  congrArg SharingGrant.grantId h.row

theorem tokenDigest_eq (h : Moves codec log rows g log' rows' g') :
    g'.tokenDigest = g.tokenDigest :=
  congrArg SharingGrant.tokenDigest h.row

theorem refl : Moves codec log rows g log rows g where
  row := rfl
  added := ⟨[], (append_nil _).symm, fun _ h => absurd h not_mem_nil⟩
  others _ _ := rfl
  ended _ h _ := h
  stands h := h
  lawful _ h := h

theorem trans (h : Moves codec log rows g log' rows' g')
    (h' : Moves codec log' rows' g' log'' rows'' g'') :
    Moves codec log rows g log'' rows'' g'' where
  row := by rw [h'.row, h.row]
  added := by
    obtain ⟨added, rfl, hadded⟩ := h.added
    obtain ⟨more, rfl, hmore⟩ := h'.added
    refine ⟨added ++ more, append_assoc _ _ _, fun e he => ?_⟩
    rcases mem_append.mp he with he | he
    · exact hadded e he
    · exact (hmore e he).trans h.grantId_eq
  others k hk := (h'.others k (h.grantId_eq ▸ hk)).trans (h.others k hk)
  ended row hrow hstate := h'.ended row (h.ended row hrow hstate) hstate
  stands hs := h'.stands (h.stands hs)
  lawful hs hlog := h'.lawful (h.stands hs) (h.lawful hs hlog)

/-- A step that changes neither the terms, nor the state, nor a row. -/
theorem of_row_eq (hrow : g'.row = g.row) : Moves codec log rows g log rows g' where
  row := by
    rw [hrow, show g'.state = g.row.state from congrArg SharingGrant.state hrow]
  added := (@Moves.refl codec log rows g).added
  others _ _ := rfl
  ended _ h _ := h
  stands h := by
    have hid : g'.grantId = g.grantId := congrArg SharingGrant.grantId hrow
    have hexpires : g'.expiresAt = g.expiresAt := congrArg SharingGrant.expiresAt hrow
    have hdigest : g'.tokenDigest = g.tokenDigest := congrArg SharingGrant.tokenDigest hrow
    have hstate : g'.state = g.state := congrArg SharingGrant.state hrow
    exact {
      stored := by rw [hid, hrow, h.stored]
      minted := by rw [hid, hexpires, hdigest]; exact h.minted
      closed := by rw [hid, hstate]; exact h.closed }
  lawful _ h := h

theorem of_event {e : Event} (hid : e.grantId = g.grantId)
    (hclosed : ∀ state, e ≠ .closed g.grantId state)
    (hlaw : Stands codec log rows g → e.LawfulAfter log) :
    Moves codec log rows g (log ++ [e]) rows g where
  row := rfl
  added := ⟨[e], rfl, fun e' he' => by rw [mem_singleton.mp he', hid]⟩
  others _ _ := rfl
  ended _ h _ := h
  stands h := h.append fun state hmem => hclosed state (mem_singleton.mp hmem).symm
  lawful hs h := h.snoc (hlaw hs)

/-- A change of state that the row follows, with its closing in the log. -/
theorem of_state (hrow : g'.row = { g.row with state := g'.state })
    (hothers : ∀ k, k ≠ g.grantId → sharingGrant rows' k = sharingGrant rows k)
    (hended : ∀ row ∈ rows, row.state ≠ .opened → row ∈ rows')
    (hstored : sharingGrant rows g.grantId = some g.row →
      sharingGrant rows' g.grantId = some g'.row ∧ (g.state ≠ .opened → g'.state = g.state)) :
    Moves codec log rows g (log ++ closing g g') rows' g' where
  row := hrow
  added := by
    refine ⟨_, rfl, fun e he => ?_⟩
    unfold closing at he
    split at he
    · rw [mem_singleton.mp he]
      rfl
    · exact absurd he not_mem_nil
  others := hothers
  ended := hended
  stands h := by
    have hid : g'.grantId = g.grantId := congrArg SharingGrant.grantId hrow
    have hexpires : g'.expiresAt = g.expiresAt := congrArg SharingGrant.expiresAt hrow
    have hdigest : g'.tokenDigest = g.tokenDigest := congrArg SharingGrant.tokenDigest hrow
    obtain ⟨hself, hstays⟩ := hstored h.stored
    obtain ⟨token, hmem, hminted⟩ := h.minted
    refine ⟨hid ▸ hself, ⟨token, ?_, hdigest ▸ hminted⟩, fun state => ?_⟩
    · rw [hid, hexpires]
      exact mem_append_left _ hmem
    · rw [hid, mem_append, h.closed state]
      unfold closing
      by_cases hopen : g.state = .opened
      · by_cases hopen' : g'.state = .opened
        · simp [hopen, hopen']
        · rw [if_pos ⟨hopen, hopen'⟩]
          simp only [hopen, mem_singleton, Event.closed.injEq, true_and]
          constructor
          · rintro (⟨rfl, hne⟩ | rfl)
            · exact absurd rfl hne
            · exact ⟨rfl, hopen'⟩
          · rintro ⟨rfl, -⟩
            exact .inr rfl
      · simp [hopen, hstays hopen]
  lawful h hlog := by
    unfold closing
    split
    · rename_i hclosing
      obtain ⟨token, hstands, -⟩ := h.standsOpen hclosing.1
      exact hlog.snoc ⟨hclosing.2, token, _, hstands⟩
    · rwa [append_nil]

end Moves

theorem closing_of_state_eq (h : g'.state = g.state) : closing g g' = [] :=
  if_neg fun hclosing => hclosing.2 (h.trans hclosing.1)

theorem closing_self : closing g g = [] := closing_of_state_eq rfl

/-- A step that changes neither the terms nor the state closes nothing. -/
theorem Moves.of_quiet (hrow : g'.row = g.row) :
    Moves codec log rows g (log ++ closing g g') rows g' := by
  rw [closing_of_state_eq (congrArg SharingGrant.state hrow), append_nil]
  exact Moves.of_row_eq hrow

theorem closing_attachments {attachments : List String} {previous : Option String} :
    closing g ({ g with attachments := attachments }.release previous) = [] :=
  closing_of_state_eq rfl

/-! ## The transitions of the row -/

section

variable {grantId k : String} {guard : SharingGrant → Bool} {state : GrantState}
  {sessionId : Option String} {requireTransition : Bool} {row : SharingGrant}

def closeRow (grantId : String) (guard : SharingGrant → Bool) (state : GrantState)
    (row : SharingGrant) : SharingGrant :=
  if matched grantId guard row then { row with state := state } else row

theorem sharingGrant_updateGrant :
    sharingGrant (updateGrant rows grantId guard state) k =
      (sharingGrant rows k).map (closeRow grantId guard state) := by
  refine rowAt_map fun row => ?_
  split <;> rfl

theorem closeRow_of_ne (h : row.grantId ≠ grantId) : closeRow grantId guard state row = row := by
  simp [closeRow, matched, h]

theorem closeRow_of_ended (h : row.state ≠ .opened) : closeRow grantId guard state row = row := by
  simp [closeRow, matched, h]

theorem sharingGrant_updateGrant_of_ne (h : k ≠ grantId) :
    sharingGrant (updateGrant rows grantId guard state) k = sharingGrant rows k := by
  rw [sharingGrant_updateGrant]
  cases hrow : sharingGrant rows k with
  | none => rfl
  | some row =>
    have hkey : row.grantId = k := key_of_rowAt hrow
    exact congrArg some (closeRow_of_ne (hkey ▸ h))

theorem mem_updateGrant_of_ended (hrow : row ∈ rows) (h : row.state ≠ .opened) :
    row ∈ updateGrant rows grantId guard state :=
  mem_map.mpr ⟨row, hrow, closeRow_of_ended h⟩

theorem transitionSharingGrant_ok
    (h : transitionSharingGrant owners rows grantId sessionId requireTransition guard state =
      .ok (rows', row)) :
    rows' = updateGrant rows grantId guard state ∧ sharingGrant rows' grantId = some row := by
  unfold transitionSharingGrant at h
  by_cases howner : sessionId = none ∨
      ((sharingGrant rows grantId).bind fun row => owners row.taskId) = sessionId
  · simp only [require_pos howner, ok_bind] at h
    cases hfound : sharingGrant (updateGrant rows grantId guard state) grantId with
    | none =>
      rw [hfound] at h
      cases h
    | some found =>
      simp only [hfound, found_some, ok_bind] at h
      unfold require at h
      split at h
      · obtain ⟨rfl, rfl⟩ := Prod.mk.inj (Except.ok.inj h)
        exact ⟨rfl, hfound⟩
      · cases h
  · simp only [require_neg howner] at h
    cases h

/-- Without a session to check, the transition of a matched row goes through. -/
theorem transitionSharingGrant_of_matched (hrow : sharingGrant rows grantId = some row)
    (hmatched : matched grantId guard row = true) :
    transitionSharingGrant owners rows grantId none requireTransition guard state =
      .ok (updateGrant rows grantId guard state, { row with state := state }) := by
  have hafter : sharingGrant (updateGrant rows grantId guard state) grantId =
      some { row with state := state } := by
    rw [sharingGrant_updateGrant, hrow, Option.map_some, closeRow, if_pos hmatched]
  have hany : rows.any (matched grantId guard) = true :=
    any_eq_true.mpr ⟨row, mem_of_rowAt hrow, hmatched⟩
  simp only [transitionSharingGrant, true_or, require_pos, ok_bind, hafter, found_some, hany,
    implies_true]
  rfl

end

/-! ## Liveness -/

/-- The grant is live for a request at this moment. -/
def LiveGrant.LiveAt (g : LiveGrant) (now : Seconds) : Prop := g.state = .opened ∧ now < g.expiresAt

variable {now : Seconds} {error : SharingError}

theorem ensureLive_ok (h : g.ensureLive owners rows now = (rows', g', .ok ())) :
    rows' = rows ∧ g' = g ∧ g.LiveAt now := by
  unfold LiveGrant.ensureLive at h
  split at h
  · rename_i hopen
    split at h
    · rename_i hlive
      obtain ⟨rfl, rfl⟩ := h
      exact ⟨rfl, rfl, hopen, hlive⟩
    · dsimp only at h
      split at h <;> cases h
  · cases h

theorem expireSharingGrant_eq (grantId : String) :
    expireSharingGrant owners rows grantId now =
      transitionSharingGrant owners rows grantId none true (fun row => row.expiresAt ≤ now)
        .expired := by
  unfold expireSharingGrant sharingExpiry
  rw [if_pos now.property, ok_bind]

theorem expireSharingGrant_of_stored (hstored : sharingGrant rows g.grantId = some g.row)
    (hopen : g.state = .opened) (hexpired : ¬ now < g.expiresAt) :
    expireSharingGrant owners rows g.grantId now =
      .ok (updateGrant rows g.grantId (fun row => row.expiresAt ≤ now) .expired,
        { g.row with state := .expired }) := by
  have hmatched : matched g.grantId (fun row => row.expiresAt ≤ now) g.row = true := by
    simp [matched, LiveGrant.row, hopen, Nat.not_lt.mp hexpired]
  rw [expireSharingGrant_eq]
  exact transitionSharingGrant_of_matched hstored hmatched

/-- A refusal of a grant that is not live is a lawful step: an expiry is recorded first. -/
theorem ensureLive_error (h : g.ensureLive owners rows now = (rows', g', .error error)) :
    Moves codec log rows g (log ++ closing g g') rows' g' ∧ g'.attachments = g.attachments ∧
      g'.connections = g.connections := by
  unfold LiveGrant.ensureLive at h
  split at h
  · rename_i hopen
    split at h
    · cases h
    · rename_i hexpired
      dsimp only at h
      split at h
      · rename_i expired row hok
        obtain ⟨rfl, rfl, -⟩ := h
        rw [expireSharingGrant_eq] at hok
        obtain ⟨rfl, hrow⟩ := transitionSharingGrant_ok hok
        refine ⟨Moves.of_state rfl (fun k hk => sharingGrant_updateGrant_of_ne hk)
          (fun row hrow => mem_updateGrant_of_ended hrow)
          fun hstored => ⟨?_, fun hne => absurd hopen hne⟩, rfl, rfl⟩
        have hnow := @expireSharingGrant_of_stored owners _ _ _ hstored hopen hexpired
        rw [expireSharingGrant_eq, hok] at hnow
        rw [hrow, (Prod.mk.inj (Except.ok.inj hnow)).2]
        rfl
      · rename_i hclosed
        obtain ⟨rfl, rfl, -⟩ := h
        refine ⟨Moves.of_state rfl (fun _ _ => rfl) (fun _ h _ => h) fun hstored => ?_, rfl, rfl⟩
        rw [expireSharingGrant_of_stored hstored hopen hexpired] at hclosed
        cases hclosed
      · rename_i hrefused
        obtain ⟨rfl, rfl, -⟩ := h
        refine ⟨Moves.of_state rfl (fun _ _ => rfl) (fun _ h _ => h) fun hstored => ?_, rfl, rfl⟩
        rw [expireSharingGrant_of_stored hstored hopen hexpired] at hrefused
        cases hrefused
  · simp only [Prod.mk.injEq] at h
    obtain ⟨rfl, rfl, -⟩ := h
    rw [closing_self, append_nil]
    exact ⟨Moves.refl, rfl, rfl⟩

/-! ## One frame -/

/-- All that the gate can do with a frame. -/
inductive Answers (codec : Codec) (owners : Owners) (rows : Rows) (g : LiveGrant)
    (c : ShareConnection) (t : Tick) : Answer → Prop
  | refused (presented : Option String) (response : Response) :
      Answers codec owners rows g c t
        ⟨rows, g, { c with presented := presented }, response, false, []⟩
  | dead {rows' : Rows} {g' : LiveGrant} {error : SharingError} (presented : Option String)
      (response : Response) (h : g.ensureLive owners rows t.now = (rows', g', .error error)) :
      Answers codec owners rows g c t
        ⟨rows', g', { c with presented := presented }, response, false, []⟩
  | attached {token attachmentId : String} (response : Response)
      (hshape : isTokenShaped token = true) (hdigest : g.tokenDigest = codec.digest token)
      (hlive : g.LiveAt t.now) (hentropy : t.entropy = some attachmentId) :
      Answers codec owners rows g c t
        ⟨rows, { g with attachments := g.attachments.insert attachmentId }.release c.attachment,
          { c with presented := some token, attachment := some attachmentId }, response, true,
          [.attached g.grantId token t.now]⟩
  | ran {attachmentId : String} (hattachment : c.attachment = some attachmentId)
      (hmem : attachmentId ∈ g.attachments) (hlive : g.LiveAt t.now) :
      Answers codec owners rows g c t
        ⟨rows, g, c, .body t.body, true, [.ran g c.presented t.now]⟩

variable {c : ShareConnection} {frame : Text} {t : Tick} {a : Answer} {token : String}
  {entropy : Option String} {attachment : SharingAttachment} {attachmentId : String}

theorem exchangeToken_ok
    (h : g.exchangeToken codec owners rows token now entropy = (rows', g', .ok attachment)) :
    isTokenShaped token = true ∧ g.tokenDigest = codec.digest token ∧ g.LiveAt now ∧
      entropy = some attachment.attachmentId ∧ rows' = rows ∧
      g' = { g with attachments := g.attachments.insert attachment.attachmentId } := by
  unfold LiveGrant.exchangeToken at h
  split at h
  · cases h
  · rename_i htoken
    obtain ⟨hshape, hdigest⟩ := not_or.mp htoken
    split at h
    · cases h
    · rename_i hensure
      obtain ⟨rfl, rfl, hlive⟩ := ensureLive_ok hensure
      split at h
      · cases h
      · simp only [Prod.mk.injEq, Except.ok.injEq] at h
        obtain ⟨rfl, rfl, rfl⟩ := h
        exact ⟨eq_true_of_ne_false hshape, not_not.mp hdigest, hlive, rfl, rfl, rfl⟩

theorem exchangeToken_error
    (h : g.exchangeToken codec owners rows token now entropy = (rows', g', .error error)) :
    (rows' = rows ∧ g' = g) ∨ g.ensureLive owners rows now = (rows', g', .error error) := by
  unfold LiveGrant.exchangeToken at h
  split at h
  · simp only [Prod.mk.injEq] at h
    exact .inl ⟨h.1.symm, h.2.1.symm⟩
  · split at h
    · rename_i hensure
      exact .inr (hensure.trans (by simp_all))
    · rename_i hensure
      obtain ⟨rfl, rfl, -⟩ := ensureLive_ok hensure
      split at h
      · simp only [Prod.mk.injEq] at h
        exact .inl ⟨h.1.symm, h.2.1.symm⟩
      · simp only [Prod.mk.injEq, reduceCtorEq, and_false] at h

theorem verifyAttachment_ok
    (h : g.verifyAttachment owners rows attachmentId now = (rows', g', .ok ())) :
    rows' = rows ∧ g' = g ∧ g.LiveAt now ∧ attachmentId ∈ g.attachments := by
  unfold LiveGrant.verifyAttachment at h
  split at h
  · cases h
  · rename_i hensure
    obtain ⟨rfl, rfl, hlive⟩ := ensureLive_ok hensure
    split at h
    · rename_i hmem
      simp only [Prod.mk.injEq] at h
      exact ⟨h.1.symm, h.2.1.symm, hlive, hmem⟩
    · simp only [Prod.mk.injEq, reduceCtorEq, and_false] at h

theorem verifyAttachment_error
    (h : g.verifyAttachment owners rows attachmentId now = (rows', g', .error error)) :
    (rows' = rows ∧ g' = g) ∨ g.ensureLive owners rows now = (rows', g', .error error) := by
  unfold LiveGrant.verifyAttachment at h
  split at h
  · rename_i hensure
    exact .inr (hensure.trans (by simp_all))
  · rename_i hensure
    obtain ⟨rfl, rfl, -⟩ := ensureLive_ok hensure
    simp only [Prod.mk.injEq] at h
    exact .inl ⟨h.1.symm, h.2.1.symm⟩

theorem answers_answer :
    Answers codec owners rows g c t (answer codec owners rows g c frame t) := by
  unfold answer
  split
  · exact .refused c.presented _
  · dsimp only
    split
    · split
      · exact .refused c.presented _
      · split
        · rename_i herror
          rcases exchangeToken_error herror with ⟨rfl, rfl⟩ | hdead
          · exact .refused _ _
          · exact .dead _ _ hdead
        · rename_i hok
          obtain ⟨hshape, hdigest, hlive, hentropy, rfl, rfl⟩ := exchangeToken_ok hok
          exact .attached _ hshape hdigest hlive hentropy
    · split
      · exact .refused c.presented _
      · rename_i attachmentId hattachment
        split
        · rename_i herror
          rcases verifyAttachment_error herror with ⟨rfl, rfl⟩ | hdead
          · exact .refused c.presented _
          · exact .dead c.presented _ hdead
        · rename_i hok
          obtain ⟨rfl, rfl, hlive, hmem⟩ := verifyAttachment_ok hok
          split
          · exact .ran hattachment hmem hlive
          · exact .refused c.presented _

/-- A connection that holds an attachment last presented a token of the grant. -/
def Attached (codec : Codec) (g : LiveGrant) (c : ShareConnection) : Prop :=
  ∀ attachmentId, c.attachment = some attachmentId → ∃ token, c.presented = some token ∧
    isTokenShaped token = true ∧ g.tokenDigest = codec.digest token

/-- The set of the grant holds these attachments, each once. -/
structure Exact (g : LiveGrant) (held : List String) : Prop where
  nodup : held.Nodup
  mem : ∀ attachmentId, attachmentId ∈ g.attachments ↔ attachmentId ∈ held

namespace Exact

variable {held held' rest : List String}

theorem perm (h : Exact g held) (hperm : held.Perm held') : Exact g held' where
  nodup := hperm.nodup_iff.mp h.nodup
  mem id := (h.mem id).trans hperm.mem_iff

theorem congr (h : Exact g held) (hattachments : g'.attachments = g.attachments) :
    Exact g' held where
  nodup := h.nodup
  mem := by rw [hattachments]; exact h.mem

theorem release {attachment : Option String} (h : Exact g (attachment.toList ++ rest)) :
    Exact (g.release attachment) rest where
  nodup := (nodup_append.mp h.nodup).2.1
  mem id := by
    have hdisjoint := (nodup_append.mp h.nodup).2.2
    unfold LiveGrant.release
    rw [mem_filter, h.mem id, mem_append, Option.mem_toList, decide_eq_true_iff]
    constructor
    · rintro ⟨hmem | hmem, hne⟩
      · exact absurd hmem.symm hne
      · exact hmem
    · refine fun hmem => ⟨.inr hmem, fun heq => ?_⟩
      exact hdisjoint id (Option.mem_toList.mpr heq.symm) id hmem rfl

theorem insert (h : Exact g held) (hfresh : attachmentId ∉ held) :
    Exact { g with attachments := g.attachments.insert attachmentId } (attachmentId :: held) where
  nodup := nodup_cons.mpr ⟨hfresh, h.nodup⟩
  mem id := by rw [mem_insert_iff, h.mem id, mem_cons]

end Exact

namespace Answers

variable {rest : List String}

theorem connection_eq (h : Answers codec owners rows g c t a) :
    ∃ presented attachment,
      a.connection = { c with presented := presented, attachment := attachment } := by
  cases h with
  | refused presented => exact ⟨presented, c.attachment, rfl⟩
  | dead presented => exact ⟨presented, c.attachment, rfl⟩
  | attached => exact ⟨_, _, rfl⟩
  | ran => exact ⟨c.presented, c.attachment, rfl⟩

theorem connections_eq (h : Answers codec owners rows g c t a) :
    a.grant.connections = g.connections := by
  cases h with
  | refused => rfl
  | dead _ _ hdead => exact (@ensureLive_error codec _ [] _ _ _ _ _ _ hdead).2.2
  | attached => rfl
  | ran => rfl

theorem moves (hcodec : codec.Separates) (h : Answers codec owners rows g c t a)
    (hc : Attached codec g c) :
    Moves codec log rows g (log ++ closing g a.grant ++ a.events) a.rows a.grant := by
  cases h with
  | refused =>
    rw [closing_self, append_nil, append_nil]
    exact Moves.refl
  | dead _ _ hdead =>
    rw [append_nil]
    exact (ensureLive_error hdead).1
  | attached _ hshape hdigest hlive _ =>
    rw [closing_attachments, append_nil]
    refine (Moves.of_event rfl (fun _ => by simp) fun hs => ?_).trans (Moves.of_row_eq rfl)
    exact ⟨_, hs.standsOpen_of_digest hcodec hlive.1 hshape hdigest, hlive.2⟩
  | ran hattachment _ hlive =>
    rw [closing_self, append_nil]
    refine Moves.of_event rfl (fun _ => by simp) fun hs => ⟨hlive.1, hlive.2, ?_⟩
    obtain ⟨token, hpresented, hshape, hdigest⟩ := hc _ hattachment
    exact ⟨token, hpresented, hs.standsOpen_of_digest hcodec hlive.1 hshape hdigest⟩

theorem attached_of_keep (h : Answers codec owners rows g c t a) (hc : Attached codec g c)
    (hkeep : a.keep = true) : Attached codec a.grant a.connection := by
  cases h with
  | refused => cases hkeep
  | dead => cases hkeep
  | attached _ hshape hdigest _ _ => exact fun _ _ => ⟨_, rfl, hshape, hdigest⟩
  | ran => exact hc

/-- With a fresh id the set stays exact: the new attachment takes the place of the previous one. -/
theorem exact (h : Answers codec owners rows g c t a)
    (hexact : Exact g (c.attachment.toList ++ rest))
    (hfresh : ∀ id, t.entropy = some id → id ∉ c.attachment.toList ++ rest) :
    Exact a.grant (a.connection.attachment.toList ++ rest) := by
  cases h with
  | refused => exact hexact
  | dead _ _ hdead => exact hexact.congr (@ensureLive_error codec _ [] _ _ _ _ _ _ hdead).2.1
  | attached _ _ _ _ hentropy =>
    exact ((hexact.insert (hfresh _ hentropy)).perm perm_middle.symm).release
  | ran => exact hexact

/-- What is held afterwards was held before or is the id of this tick. -/
theorem held (h : Answers codec owners rows g c t a) (id : String)
    (hid : a.connection.attachment = some id) : c.attachment = some id ∨ t.entropy = some id := by
  cases h with
  | refused => exact .inl hid
  | dead => exact .inl hid
  | attached _ _ _ _ hentropy => exact .inr (hentropy.trans hid)
  | ran => exact .inl hid

end Answers

end Rivect.Sharing
