import Rivect.Sharing.Gate

/-! # Serving turns

Each pass of a connection's loop is a step in `Pumped`, and so is the whole turn of the connection:
the grant moves lawfully, its set stays exact, and no frame is lost, repeated or overtaken.
-/

namespace Rivect.Sharing

open Lib List Option
open EffectPolicy (Text CR LF)

variable {codec : Codec} {owners : Owners} {c c' c'' : ShareConnection} {frame : Text}

/-! ## Frames in their order -/

/-- The frames that arrived are those answered, the one in hand and those still waiting. -/
def Framed (c : ShareConnection) (taken : List Text) : Prop :=
  (cut LF c.arrived).1.map trimFrame =
      c.answered.map Prod.fst ++ taken ++ c.ready ++ (cut LF c.pending).1.map trimFrame ∧
    (cut LF c.arrived).2 = (cut LF c.pending).2

/-- The frames that a read put in hand. -/
def FrameRead.taken : FrameRead → List Text
  | .frame frame => [frame]
  | _ => []

/-- A read touches only the stream and the bytes of a connection. -/
structure ReadFrom (c c' : ShareConnection) (read : FrameRead) : Prop where
  attachment : c'.attachment = c.attachment
  presented : c'.presented = c.presented
  framed : Framed c [] → Framed c' read.taken

theorem framed_receive (h : Framed c []) (read : Text) : Framed (c.receive read) [] := by
  obtain ⟨hframes, hleft⟩ := h
  unfold Framed ShareConnection.receive
  rw [cut_append, cut_append c.pending, ← hleft]
  refine ⟨?_, rfl⟩
  rw [map_append, hframes, map_append, append_assoc]

theorem framed_takeFrame (h : Framed c []) (hready : c.ready = [])
    (htake : c.takeFrame = some (frame, c')) : Framed c' [frame] := by
  obtain ⟨⟨raw, rest⟩, hfirst, heq⟩ := map_eq_some_iff.mp htake
  obtain ⟨rfl, rfl⟩ := Prod.mk.inj heq
  obtain ⟨hframes, hleft⟩ := h
  rw [cut_of_firstFrame hfirst] at hframes hleft
  refine ⟨?_, hleft⟩
  simp only [hready, append_nil] at hframes ⊢
  rw [hframes, map_cons, append_assoc]
  rfl

theorem takeFrame_fields (htake : c.takeFrame = some (frame, c')) :
    c'.attachment = c.attachment ∧ c'.presented = c.presented := by
  obtain ⟨_, _, heq⟩ := map_eq_some_iff.mp htake
  obtain ⟨-, rfl⟩ := Prod.mk.inj heq
  exact ⟨rfl, rfl⟩

theorem readFrom_takeFrame (hready : c.ready = []) (htake : c.takeFrame = some (frame, c'))
    (stream : Stream) : ReadFrom c { c' with stream := stream } (.frame frame) where
  attachment := (takeFrame_fields htake).1
  presented := (takeFrame_fields htake).2
  framed h := ⟨(framed_takeFrame h hready htake).1, (framed_takeFrame h hready htake).2⟩

theorem readFrom_readFrame (reads : List Reading) :
    ∀ c : ShareConnection, c.ready = [] →
      ReadFrom c (c.readFrame reads).1 (c.readFrame reads).2 := by
  induction reads with
  | nil =>
    intro c hready
    unfold ShareConnection.readFrame
    split
    · rename_i htake
      exact readFrom_takeFrame hready htake _
    · dsimp only
      split <;> exact ⟨rfl, rfl, id⟩
  | cons reading reads ih =>
    intro c hready
    unfold ShareConnection.readFrame
    split
    · rename_i htake
      exact readFrom_takeFrame hready htake _
    · split
      · exact ⟨rfl, rfl, id⟩
      · cases reading with
        | bytes read =>
          have hread := ih (c.receive read) hready
          exact ⟨hread.attachment, hread.presented,
            fun h => hread.framed (framed_receive h read)⟩
        | interrupted => exact ih c hready
        | eof => exact ⟨rfl, rfl, id⟩
        | wouldBlock => exact ⟨rfl, rfl, id⟩
        | failed => exact ⟨rfl, rfl, id⟩

theorem readFrom_nextFrame (c : ShareConnection) : ReadFrom c c.nextFrame.1 c.nextFrame.2 := by
  unfold ShareConnection.nextFrame
  split
  · rename_i frame ready hready
    refine ⟨rfl, rfl, fun h => ⟨?_, h.2⟩⟩
    have hframes := h.1
    rw [hready] at hframes
    simpa [FrameRead.taken] using hframes
  · rename_i hready
    exact readFrom_readFrame _ c hready

theorem framed_requeue (h : Framed c [frame]) : Framed (c.requeue frame) [] := by
  refine ⟨?_, h.2⟩
  have hframes := h.1
  simpa [ShareConnection.requeue] using hframes

theorem framed_answered {response : Response} (h : Framed c [frame]) :
    Framed { c with answered := c.answered ++ [(frame, response)] } [] := by
  refine ⟨?_, h.2⟩
  have hframes := h.1
  simpa using hframes

theorem writeFrame_fields (c : ShareConnection) :
    ∃ stream, c.writeFrame.1 = { c with stream := stream } := by
  unfold ShareConnection.writeFrame
  split
  · exact ⟨c.stream, rfl⟩
  · exact ⟨_, rfl⟩

/-! ## One connection's turn -/

/-- The attachment ids that these ticks may still mint. -/
def minted (ticks : List Tick) : List String := ticks.filterMap Tick.entropy

/-- Ids to come: none repeats, and none is held. -/
structure Fresh (ids held : List String) : Prop where
  nodup : ids.Nodup
  unheld : ∀ id ∈ ids, id ∉ held

namespace Fresh

variable {ids ids' held held' future : List String} {ticks ticks' : List Tick}

theorem mono (h : Fresh ids held) (hids : ids'.Sublist ids) (hheld : held' ⊆ held) :
    Fresh ids' held' where
  nodup := h.nodup.sublist hids
  unheld id hid hmem := h.unheld id (hids.subset hid) (hheld hmem)

theorem suffix (h : Fresh (minted ticks ++ future) held) (hticks : ticks' <:+ ticks) :
    Fresh (minted ticks' ++ future) held :=
  h.mono ((hticks.sublist.filterMap _).append_right _) (Subset.refl _)

end Fresh

variable {turn turn' turn'' : ServeTurn} {g g' g'' : LiveGrant} {ticks ticks' : List Tick}
  {keep : Bool}

/-- What a part of a connection's turn does, from a state to the next. -/
structure Pumped (codec : Codec) (ticks : List Tick) (turn : ServeTurn) (g : LiveGrant)
    (c : ShareConnection) (turn' : ServeTurn) (g' : LiveGrant) (c' : ShareConnection)
    (keep : Bool) : Prop where
  moves : ∀ log, Attached codec g c →
    Moves codec (log ++ turn.events) turn.rows g (log ++ turn'.events) turn'.rows g'
  connections : g'.connections = g.connections
  suffix : turn'.ticks <:+ ticks
  deadline : turn'.deadline = turn.deadline
  spent : turn'.served + turn'.framesLeft = turn.served + turn.framesLeft
  budget : turn'.framesLeft ≤ turn.framesLeft
  attached : keep = true → Attached codec g c → Attached codec g' c'
  framed : Framed c [] → Framed c' []
  exact : ∀ rest future, Exact g (c.attachment.toList ++ rest) →
    Fresh (minted ticks ++ future) (c.attachment.toList ++ rest) →
    Exact g' (c'.attachment.toList ++ rest) ∧
      Fresh (minted turn'.ticks ++ future) (c'.attachment.toList ++ rest)

namespace Pumped

theorem trans (h : Pumped codec ticks turn g c turn' g' c' true)
    (h' : Pumped codec turn'.ticks turn' g' c' turn'' g'' c'' keep) :
    Pumped codec ticks turn g c turn'' g'' c'' keep where
  moves log hc := (h.moves log hc).trans (h'.moves log (h.attached rfl hc))
  connections := h'.connections.trans h.connections
  suffix := h'.suffix.trans h.suffix
  deadline := h'.deadline.trans h.deadline
  spent := h'.spent.trans h.spent
  budget := Nat.le_trans h'.budget h.budget
  attached hkeep hc := h'.attached hkeep (h.attached rfl hc)
  framed hf := h'.framed (h.framed hf)
  exact rest future hexact hfresh := by
    obtain ⟨hexact, hfresh⟩ := h.exact rest future hexact hfresh
    exact h'.exact rest future hexact hfresh

/-- Nothing is promised of the connection that is dropped. -/
theorem dropped (h : Pumped codec ticks turn g c turn' g' c' keep) :
    Pumped codec ticks turn g c turn' g' c' false :=
  { h with attached := nofun }

theorem of_end (hticks : ticks' <:+ ticks) (hattachment : c'.attachment = c.attachment)
    (hpresented : c'.presented = c.presented) (hframed : Framed c [] → Framed c' []) :
    Pumped codec ticks turn g c { turn with ticks := ticks' } g c' keep where
  moves _ _ := Moves.refl
  connections := rfl
  suffix := hticks
  deadline := rfl
  spent := rfl
  budget := Nat.le_refl _
  attached _ hc := by
    unfold Attached
    rw [hattachment, hpresented]
    exact hc
  framed := hframed
  exact rest future hexact hfresh := by
    rw [hattachment]
    exact ⟨hexact, hfresh.suffix hticks⟩

theorem of_answer {t : Tick} {a : Answer} (hcodec : codec.Separates)
    (hread : ReadFrom c c' (.frame frame)) (ha : Answers codec owners turn.rows g c' t a)
    (hleft : 0 < turn.framesLeft) (stream : Stream) :
    Pumped codec (t :: ticks) turn g c
      { turn with
        rows := a.rows
        framesLeft := turn.framesLeft - 1
        ticks := ticks
        served := turn.served + 1
        events := turn.events ++ closing g a.grant ++ a.events }
      a.grant
      { a.connection with
        answered := a.connection.answered ++ [(frame, a.response)]
        stream := stream } a.keep where
  moves log hc := by
    have hmoves := @Answers.moves _ _ (log ++ turn.events) _ _ _ _ _ hcodec ha
      (show Attached codec g c' by
        unfold Attached
        rw [hread.attachment, hread.presented]
        exact hc)
    simpa only [append_assoc] using hmoves
  connections := ha.connections_eq
  suffix := suffix_cons _ _
  deadline := rfl
  spent := by
    change turn.served + 1 + (turn.framesLeft - 1) = turn.served + turn.framesLeft
    omega
  budget := Nat.sub_le _ _
  attached hkeep hc := by
    refine ha.attached_of_keep ?_ hkeep
    unfold Attached
    rw [hread.attachment, hread.presented]
    exact hc
  framed hf := by
    obtain ⟨presented, attachment, hconnection⟩ := ha.connection_eq
    rw [hconnection]
    have hframed := @framed_answered _ _ a.response (hread.framed hf)
    exact ⟨hframed.1, hframed.2⟩
  exact rest future hexact hfresh := by
    rw [← hread.attachment] at hexact hfresh
    constructor
    · refine ha.exact hexact fun id hid => hfresh.unheld id ?_
      exact mem_append_left _ (mem_filterMap.mpr ⟨t, mem_cons_self, hid⟩)
    · refine ⟨(hfresh.suffix (suffix_cons t ticks)).nodup, fun id hid hmem => ?_⟩
      rcases mem_append.mp hmem with hheld | hrest
      · rcases ha.held id (mem_toList.mp hheld) with hold | hnew
        · exact (hfresh.suffix (suffix_cons t ticks)).unheld id hid
            (mem_append_left _ (mem_toList.mpr hold))
        · have hnodup := hfresh.nodup
          unfold minted at hnodup
          rw [filterMap_cons_some hnew, cons_append] at hnodup
          exact (nodup_cons.mp hnodup).1 hid
      · exact (hfresh.suffix (suffix_cons t ticks)).unheld id hid
          (mem_append_right _ hrest)

end Pumped

theorem pumped_pumpFrames (hcodec : codec.Separates) (ticks : List Tick) :
    ∀ turn g c,
      Pumped codec ticks turn g c (pumpFrames codec owners turn g c ticks).1
        (pumpFrames codec owners turn g c ticks).2.1
        (pumpFrames codec owners turn g c ticks).2.2.1
        (pumpFrames codec owners turn g c ticks).2.2.2 := by
  induction ticks with
  | nil =>
    intro turn g c
    exact Pumped.of_end (suffix_refl _) rfl rfl id
  | cons t ticks ih =>
    intro turn g c
    have hread := readFrom_nextFrame c
    unfold pumpFrames
    split
    · split <;> (rename_i hnext; rw [hnext] at hread)
      iterate 3
        · exact Pumped.of_end (suffix_cons _ _) hread.attachment hread.presented hread.framed
      · obtain ⟨stream, hwrite⟩ := writeFrame_fields _
        rw [hwrite]
        exact Pumped.of_end (suffix_cons _ _) hread.attachment hread.presented hread.framed
      · rename_i c1 frame
        split
        · rename_i havailable
          have hleft : 0 < turn.framesLeft := by
            simp only [available, Bool.and_eq_true, decide_eq_true_eq] at havailable
            exact havailable.1
          dsimp only
          have ha := @answers_answer codec owners turn.rows g c1 frame t
          generalize answer codec owners turn.rows g c1 frame t = a at ha
          split
          · rename_i c2 hwritten
            obtain ⟨stream, hwrite⟩ := writeFrame_fields _
            rw [hwritten] at hwrite
            subst hwrite
            exact (Pumped.of_answer hcodec hread ha hleft stream).dropped
          · rename_i c2 hwritten
            obtain ⟨stream, hwrite⟩ := writeFrame_fields _
            rw [hwritten] at hwrite
            subst hwrite
            have hpass := @Pumped.of_answer _ _ _ _ _ _ _ ticks _ _ hcodec hread ha hleft stream
            split
            · rename_i hkeep
              rw [hkeep] at hpass
              exact hpass.trans (ih _ _ _)
            · exact hpass.dropped
        · exact Pumped.of_end (suffix_cons _ _) hread.attachment hread.presented
            fun hf => framed_requeue (hread.framed hf)
    · exact Pumped.of_end (suffix_cons _ _) rfl rfl id

/-! ## One grant's turn -/

/-- The attachments that these connections hold. -/
def held (connections : List ShareConnection) : List String :=
  connections.filterMap ShareConnection.attachment

theorem held_middle (front back : List ShareConnection) (c : ShareConnection) :
    (held (front ++ c :: back)).Perm (c.attachment.toList ++ held (front ++ back)) := by
  unfold held
  rw [filterMap_append, filterMap_append]
  cases hc : c.attachment with
  | none =>
    rw [filterMap_cons_none hc]
    exact Perm.refl _
  | some id =>
    rw [filterMap_cons_some hc]
    exact perm_middle

theorem Attached.congr (h : Attached codec g c) (hdigest : g'.tokenDigest = g.tokenDigest) :
    Attached codec g' c := by
  unfold Attached
  rw [hdigest]
  exact h

theorem moves_release {log : List Event} {rows : Rows} (attachment : Option String) :
    Moves codec log rows g log rows (g.release attachment) := Moves.of_row_eq rfl

/-- What the turn of a connection does, with what it leaves of the connection. -/
structure Turned (codec : Codec) (turn : ServeTurn) (g : LiveGrant) (c : ShareConnection)
    (turn' : ServeTurn) (g' : LiveGrant) (left : Option ShareConnection) : Prop where
  moves : ∀ log, Attached codec g c →
    Moves codec (log ++ turn.events) turn.rows g (log ++ turn'.events) turn'.rows g'
  connections : g'.connections = g.connections
  suffix : turn'.ticks <:+ turn.ticks
  deadline : turn'.deadline = turn.deadline
  spent : turn'.served + turn'.framesLeft = turn.served + turn.framesLeft
  budget : turn'.framesLeft ≤ turn.framesLeft
  attached : Attached codec g c → ∀ c' ∈ left, Attached codec g' c'
  framed : Framed c [] → ∀ c' ∈ left, Framed c' []
  exact : ∀ rest future, Exact g (c.attachment.toList ++ rest) →
    Fresh (minted turn.ticks ++ future) (c.attachment.toList ++ rest) →
    Exact g' (held left.toList ++ rest) ∧
      Fresh (minted turn'.ticks ++ future) (held left.toList ++ rest)

theorem turned_pump (hcodec : codec.Separates) (turn : ServeTurn) (g : LiveGrant)
    (c : ShareConnection) :
    Turned codec turn g c (pump codec owners turn g c).1 (pump codec owners turn g c).2.1
      (pump codec owners turn g c).2.2 := by
  have hpump := @pumped_pumpFrames _ owners hcodec turn.ticks turn g c
  unfold pump
  generalize pumpFrames codec owners turn g c turn.ticks = result at hpump ⊢
  obtain ⟨turn', g', c', keep⟩ := result
  cases keep with
  | true =>
    exact {
      moves := hpump.moves
      connections := hpump.connections
      suffix := hpump.suffix
      deadline := hpump.deadline
      spent := hpump.spent
      budget := hpump.budget
      attached := fun h c1 hc1 => mem_some_iff.mp hc1 ▸ hpump.attached rfl h
      framed := fun h c1 hc1 => mem_some_iff.mp hc1 ▸ hpump.framed h
      exact := fun rest future hexact hfresh => by
        have hheld : held [c'] = c'.attachment.toList := by
          cases h : c'.attachment <;> simp [held, h]
        rw [toList_some, hheld]
        exact hpump.exact rest future hexact hfresh }
  | false =>
    exact {
      moves := fun log h => (hpump.moves log h).trans (moves_release _)
      connections := hpump.connections
      suffix := hpump.suffix
      deadline := hpump.deadline
      spent := hpump.spent
      budget := hpump.budget
      attached := fun _ _ h => nomatch h
      framed := fun _ _ h => nomatch h
      exact := fun rest future hexact hfresh => by
        obtain ⟨hexact, hfresh⟩ := hpump.exact rest future hexact hfresh
        exact ⟨hexact.release, hfresh.mono (Sublist.refl _) (subset_append_right _ _)⟩ }

variable {connections : List ShareConnection}

/-- What the turn of a grant does with the connections it found. -/
structure Served (codec : Codec) (turn : ServeTurn) (g : LiveGrant)
    (connections : List ShareConnection) (turn' : ServeTurn) (g' : LiveGrant) : Prop where
  moves : ∀ log, (∀ c ∈ connections, Attached codec g c) →
    Moves codec (log ++ turn.events) turn.rows g (log ++ turn'.events) turn'.rows g'
  suffix : turn'.ticks <:+ turn.ticks
  deadline : turn'.deadline = turn.deadline
  spent : turn'.served + turn'.framesLeft = turn.served + turn.framesLeft
  budget : turn'.framesLeft ≤ turn.framesLeft
  attached : (∀ c ∈ connections, Attached codec g c) → ∀ c ∈ g'.connections, Attached codec g' c
  framed : (∀ c ∈ connections, Framed c []) → ∀ c ∈ g'.connections, Framed c []
  exact : ∀ future, Exact g (held connections) →
    Fresh (minted turn.ticks ++ future) (held connections) →
    Exact g' (held g'.connections) ∧ Fresh (minted turn'.ticks ++ future) (held g'.connections)

/-- The turn of the next connection, before the turns of those after it. -/
theorem Turned.served {left : Option ShareConnection} {kept : List ShareConnection}
    (h : Turned codec turn g c turn' g' left)
    (hrest : Served codec turn' g' (kept ++ left.toList ++ connections) turn'' g'') :
    Served codec turn g (kept ++ c :: connections) turn'' g'' := by
  have hc : c ∈ kept ++ c :: connections := mem_append_right _ mem_cons_self
  have hfound : ∀ c' ∈ kept ++ left.toList ++ connections,
      c' ∈ left ∨ c' ∈ kept ++ c :: connections := by
    intro c' hc'
    rw [mem_append, mem_append, mem_toList] at hc'
    rw [mem_append, mem_cons]
    tauto
  have hattached (hall : ∀ c' ∈ kept ++ c :: connections, Attached codec g c') :
      ∀ c' ∈ kept ++ left.toList ++ connections, Attached codec g' c' := by
    intro c' hc'
    rcases hfound c' hc' with hleft | hold
    · exact h.attached (hall c hc) c' hleft
    · exact (hall c' hold).congr (h.moves [] (hall c hc)).tokenDigest_eq
  exact {
    moves := fun log hall =>
      (h.moves log (hall c hc)).trans (hrest.moves log (hattached hall))
    suffix := hrest.suffix.trans h.suffix
    deadline := hrest.deadline.trans h.deadline
    spent := hrest.spent.trans h.spent
    budget := Nat.le_trans hrest.budget h.budget
    attached := fun hall => hrest.attached (hattached hall)
    framed := fun hall => hrest.framed fun c' hc' => (hfound c' hc').elim
      (h.framed (hall c hc) c') (hall c')
    exact := fun future hexact hfresh => by
      have hbefore := held_middle kept connections c
      have hafter : (held left.toList ++ held (kept ++ connections)).Perm
          (held (kept ++ left.toList ++ connections)) := by
        unfold held
        rw [← filterMap_append, ← append_assoc]
        exact (perm_append_comm.append_right _).filterMap _
      obtain ⟨hexact, hfresh⟩ := h.exact _ future (hexact.perm hbefore)
        (hfresh.mono (Sublist.refl _) hbefore.symm.subset)
      exact hrest.exact future (hexact.perm hafter)
        (hfresh.mono (Sublist.refl _) hafter.symm.subset) }

theorem served_pumpAll (hcodec : codec.Separates) (connections : List ShareConnection) :
    ∀ turn g kept, Served codec turn g (kept ++ connections)
      (pumpAll codec owners turn g kept connections).1
      (pumpAll codec owners turn g kept connections).2 := by
  induction connections with
  | nil =>
    intro turn g kept
    rw [append_nil]
    exact {
      moves := fun _ _ => Moves.of_row_eq rfl
      suffix := suffix_refl _
      deadline := rfl
      spent := rfl
      budget := Nat.le_refl _
      attached := fun h c hc => (h c hc).congr rfl
      framed := fun h => h
      exact := fun _ hexact hfresh => ⟨hexact.congr rfl, hfresh⟩ }
  | cons c connections ih =>
    intro turn g kept
    have hpump := @turned_pump _ owners hcodec turn g c
    unfold pumpAll
    generalize pump codec owners turn g c = result at hpump ⊢
    obtain ⟨turn1, g1, left⟩ := result
    cases left with
    | some c1 => exact hpump.served (ih turn1 g1 (kept ++ [c1]))
    | none =>
      refine hpump.served ?_
      rw [toList_none, append_nil]
      exact ih turn1 g1 kept

/-! ## Accepting -/

/-- The accepted peers are new connections behind the ones that were there. -/
theorem acceptAll_append (listener : List Accepting) :
    ∀ connections : List ShareConnection, ∃ streams : List Stream,
      (acceptAll connections listener).1 = connections ++ streams.map .new := by
  induction listener with
  | nil => exact fun _ => ⟨[], (append_nil _).symm⟩
  | cons accepting listener ih =>
    intro connections
    cases accepting with
    | stream stream nonblocking =>
      unfold acceptAll
      split
      · exact ⟨[], (append_nil _).symm⟩
      · cases nonblocking with
        | true =>
          obtain ⟨streams, h⟩ := ih (connections ++ [.new stream])
          exact ⟨stream :: streams, by rw [if_pos rfl, h, append_assoc]; rfl⟩
        | false => exact ih connections
    | interrupted => exact ih connections
    | wouldBlock => exact ⟨[], (append_nil _).symm⟩
    | failed => exact ⟨[], (append_nil _).symm⟩

theorem held_new (streams : List Stream) : held (streams.map .new) = [] := by
  unfold held
  rw [filterMap_map]
  exact filterMap_eq_nil_iff.mpr fun _ _ => rfl

variable {rows : Rows}

theorem failSharingGrant_moves {log : List Event} {connections : List ShareConnection}
    (hopen : g.state = .opened) :
    Moves codec log rows g
      (log ++ closing g { g with connections := connections, state := .failed, listener := none })
      (match failSharingGrant owners rows g.grantId with
        | .ok (rows, _) => rows
        | .error _ => rows)
      { g with connections := connections, state := .failed, listener := none } := by
  have hrows : ∀ rows' row, failSharingGrant owners rows g.grantId = .ok (rows', row) →
      rows' = updateGrant rows g.grantId (fun _ => true) .failed := fun _ _ h =>
    (transitionSharingGrant_ok h).1
  cases hfail : failSharingGrant owners rows g.grantId with
  | ok done =>
    obtain ⟨rows', row⟩ := done
    obtain rfl := hrows _ _ hfail
    refine Moves.of_state rfl (fun k hk => sharingGrant_updateGrant_of_ne hk)
      (fun row hrow => mem_updateGrant_of_ended hrow) fun hstored =>
        ⟨?_, fun hne => absurd hopen hne⟩
    have hmatched : matched g.grantId (fun _ => true) g.row = true := by
      simp [matched, LiveGrant.row, hopen]
    rw [sharingGrant_updateGrant, hstored, map_some, closeRow, if_pos hmatched]
    rfl
  | error refusal =>
    refine Moves.of_state rfl (fun _ _ => rfl) (fun _ h _ => h) fun hstored => ?_
    have hmatched : matched g.grantId (fun _ => true) g.row = true := by
      simp [matched, LiveGrant.row, hopen]
    unfold failSharingGrant at hfail
    rw [transitionSharingGrant_of_matched hstored hmatched] at hfail
    cases hfail

theorem accept_moves (codec : Codec) (owners : Owners) (rows : Rows) (g : LiveGrant)
    (log : List Event) :
    Moves codec log rows g (log ++ closing g (g.accept owners rows).2) (g.accept owners rows).1
      (g.accept owners rows).2 := by
  unfold LiveGrant.accept
  split
  · rename_i listener hopen hlistener
    split
    · exact Moves.of_quiet rfl
    · exact failSharingGrant_moves hopen
  · exact Moves.of_quiet rfl

theorem accept_attachments (owners : Owners) (rows : Rows) (g : LiveGrant) :
    (g.accept owners rows).2.attachments = g.attachments := by
  unfold LiveGrant.accept
  split
  · split <;> rfl
  · rfl

theorem accept_connections (owners : Owners) (rows : Rows) (g : LiveGrant) :
    ∃ streams : List Stream,
      (g.accept owners rows).2.connections = g.connections ++ streams.map .new := by
  unfold LiveGrant.accept
  split
  · rename_i listener _ _
    have happend := acceptAll_append listener g.connections
    split
    · rename_i hall
      rwa [hall] at happend
    · rename_i hall
      rwa [hall] at happend
  · exact ⟨[], (append_nil _).symm⟩

theorem attached_new (stream : Stream) : Attached codec g (.new stream) := fun _ h => nomatch h

theorem framed_new (stream : Stream) : Framed (.new stream) [] := ⟨rfl, rfl⟩

theorem served_serve (hcodec : codec.Separates) (turn : ServeTurn) (g : LiveGrant) :
    Served codec turn g g.connections (g.serve codec owners turn).1
      (g.serve codec owners turn).2 := by
  have ⟨streams, hconnections⟩ := accept_connections owners turn.rows g
  have haccept := accept_moves codec owners turn.rows g
  have hattachments := accept_attachments owners turn.rows g
  unfold LiveGrant.serve
  generalize g.accept owners turn.rows = accepted at hconnections haccept hattachments ⊢
  obtain ⟨rows, h⟩ := accepted
  dsimp only at hconnections haccept hattachments ⊢
  have hserved := @served_pumpAll _ owners hcodec h.connections
    { turn with rows := rows, events := turn.events ++ closing g h } { h with connections := [] } []
  rw [nil_append, hconnections] at hserved
  have hall (P : ShareConnection → Prop) (hnew : ∀ stream, P (.new stream))
      (hold : ∀ c ∈ g.connections, P c) : ∀ c ∈ g.connections ++ streams.map .new, P c := by
    intro c hc
    rcases mem_append.mp hc with hc | hc
    · exact hold c hc
    · obtain ⟨stream, -, rfl⟩ := mem_map.mp hc
      exact hnew stream
  have hattached (hold : ∀ c ∈ g.connections, Attached codec g c) :
      ∀ c ∈ g.connections ++ streams.map .new, Attached codec { h with connections := [] } c :=
    hall _ attached_new fun c hc => (hold c hc).congr (haccept []).tokenDigest_eq
  have hheld : held (g.connections ++ streams.map .new) = held g.connections := by
    unfold held
    rw [filterMap_append]
    exact (congrArg _ (held_new streams)).trans (append_nil _)
  rw [hconnections]
  exact {
    moves := fun log hold => by
      have hstart : Moves codec (log ++ turn.events) turn.rows g
          (log ++ (turn.events ++ closing g h)) rows { h with connections := [] } := by
        rw [← append_assoc]
        exact (haccept _).trans (Moves.of_row_eq rfl)
      exact hstart.trans (hserved.moves log (hattached hold))
    suffix := hserved.suffix
    deadline := hserved.deadline
    spent := hserved.spent
    budget := hserved.budget
    attached := fun hold => hserved.attached (hattached hold)
    framed := fun hold => hserved.framed (hall _ framed_new hold)
    exact := fun future hexact hfresh => by
      rw [← hheld] at hexact hfresh
      exact hserved.exact future (hexact.congr hattachments) hfresh }

/-! ## A turn with frames and time to spare -/

/-- No complete frame waits on the connection. -/
def Drained (c : ShareConnection) : Prop := c.ready = [] ∧ firstFrame LF c.pending = none

/-- The clock stays before the deadline throughout. -/
def InTime (deadline : ℕ) (ticks : List Tick) : Prop :=
  ∀ t ∈ ticks, t.checked < deadline ∧ t.spent < deadline

theorem InTime.suffix {deadline : ℕ} (h : InTime deadline ticks) (hticks : ticks' <:+ ticks) :
    InTime deadline ticks' := fun t ht => h t (hticks.subset ht)

theorem available_of_lt {framesLeft deadline now : ℕ} (hleft : 0 < framesLeft)
    (hnow : now < deadline) : available framesLeft deadline now = true := by
  simp [available, hleft, hnow]

theorem drained_of_takeFrame (hready : c.ready = []) (htake : c.takeFrame = none)
    (stream : Stream) : Drained { c with stream := stream } :=
  ⟨hready, map_eq_none_iff.mp htake⟩

theorem drained_readFrame (reads : List Reading) :
    ∀ c : ShareConnection, c.ready = [] → (c.readFrame reads).2 = .idle →
      Drained (c.readFrame reads).1 := by
  induction reads with
  | nil =>
    intro c hready hidle
    unfold ShareConnection.readFrame at hidle ⊢
    split at hidle
    · cases hidle
    · rename_i htake
      exact drained_of_takeFrame hready htake _
  | cons reading reads ih =>
    intro c hready hidle
    unfold ShareConnection.readFrame at hidle ⊢
    split at hidle
    · cases hidle
    · rename_i htake
      split at hidle
      · cases hidle
      · rename_i hsize
        rw [if_neg hsize]
        cases reading with
        | bytes read => exact ih (c.receive read) hready hidle
        | interrupted => exact ih c hready hidle
        | wouldBlock => exact drained_of_takeFrame hready htake _
        | eof => cases hidle
        | failed => cases hidle

theorem drained_nextFrame (hidle : c.nextFrame.2 = .idle) : Drained c.nextFrame.1 := by
  unfold ShareConnection.nextFrame at hidle ⊢
  split at hidle
  · cases hidle
  · rename_i hready
    exact drained_readFrame _ c hready hidle

/-- A connection that is kept with frames and time to spare had no frame left. -/
theorem drained_pumpFrames (ticks : List Tick) :
    ∀ turn g c, InTime turn.deadline ticks →
      pumpFrames codec owners turn g c ticks = (turn', g', c', true) →
      0 < turn'.framesLeft → turn'.ticks ≠ [] → Drained c' := by
  induction ticks with
  | nil =>
    intro turn g c _ hpump _ hticks
    simp only [pumpFrames, Prod.mk.injEq] at hpump
    rw [← hpump.1] at hticks
    exact absurd rfl hticks
  | cons t ticks ih =>
    intro turn g c htime hpump hleft hticks
    obtain ⟨hchecked, hspent⟩ := htime t mem_cons_self
    have hexhausted : ∀ now, now < turn.deadline →
        ¬ available turn.framesLeft turn.deadline now = true → turn.framesLeft = 0 := by
      intro now hnow hnot
      simp only [available, Bool.and_eq_true, decide_eq_true_eq] at hnot
      omega
    unfold pumpFrames at hpump
    split at hpump
    · split at hpump
      · rename_i c1 hnext
        obtain ⟨-, -, rfl, -⟩ := hpump
        have hdrained := drained_nextFrame (c := c) (by rw [hnext])
        rwa [hnext] at hdrained
      · simp only [Prod.mk.injEq, Bool.false_eq_true, and_false] at hpump
      · simp only [Prod.mk.injEq, Bool.false_eq_true, and_false] at hpump
      · simp only [Prod.mk.injEq, Bool.false_eq_true, and_false] at hpump
      · split at hpump
        · dsimp only at hpump
          split at hpump
          · simp only [Prod.mk.injEq, Bool.false_eq_true, and_false] at hpump
          · split at hpump
            · refine ih _ _ _ ?_ hpump hleft hticks
              exact fun t' ht' => htime t' (mem_cons_of_mem _ ht')
            · simp only [Prod.mk.injEq, Bool.false_eq_true, and_false] at hpump
        · rename_i hnot
          obtain ⟨rfl, -⟩ := hpump
          exact absurd (hexhausted _ hspent hnot) (Nat.pos_iff_ne_zero.mp hleft)
    · rename_i hnot
      obtain ⟨rfl, -⟩ := hpump
      exact absurd (hexhausted _ hchecked hnot) (Nat.pos_iff_ne_zero.mp hleft)

theorem ne_nil_of_suffix {ticks ticks' : List Tick} (hne : ticks' ≠ []) (h : ticks' <:+ ticks) :
    ticks ≠ [] := by
  rintro rfl
  exact hne (suffix_nil.mp h)

theorem drained_pumpAll (hcodec : codec.Separates) (connections : List ShareConnection) :
    ∀ turn g kept, InTime turn.deadline turn.ticks → (∀ c ∈ kept, Drained c) →
      0 < (pumpAll codec owners turn g kept connections).1.framesLeft →
      (pumpAll codec owners turn g kept connections).1.ticks ≠ [] →
      ∀ c ∈ (pumpAll codec owners turn g kept connections).2.connections, Drained c := by
  induction connections with
  | nil => exact fun turn g kept _ hkept _ _ => hkept
  | cons c connections ih =>
    intro turn g kept htime hkept hleft hticks
    have hpump := @turned_pump _ owners hcodec turn g c
    have hdrained : ∀ c1 ∈ (pump codec owners turn g c).2.2,
        0 < (pump codec owners turn g c).1.framesLeft →
        (pump codec owners turn g c).1.ticks ≠ [] → Drained c1 := by
      intro c1 hc1 hleft hticks
      unfold pump at hc1 hleft hticks
      split at hc1
      · rename_i hframes
        simp only [hframes] at hleft hticks
        rw [← mem_some_iff.mp hc1]
        exact drained_pumpFrames _ turn g c htime hframes hleft hticks
      · cases hc1
    unfold pumpAll at hleft hticks ⊢
    generalize pump codec owners turn g c = result at hpump hdrained hleft hticks ⊢
    obtain ⟨turn1, g1, left⟩ := result
    have htime1 : InTime turn1.deadline turn1.ticks := by
      rw [hpump.deadline]
      exact htime.suffix hpump.suffix
    cases left with
    | some c1 =>
      have hserved := @served_pumpAll _ owners hcodec connections turn1 g1 (kept ++ [c1])
      refine ih turn1 g1 (kept ++ [c1]) htime1 ?_ hleft hticks
      intro c' hc'
      rcases mem_append.mp hc' with hc' | hc'
      · exact hkept c' hc'
      · obtain rfl := mem_singleton.mp hc'
        exact hdrained c' rfl (Nat.lt_of_lt_of_le hleft hserved.budget)
          (ne_nil_of_suffix hticks hserved.suffix)
    | none => exact ih turn1 g1 kept htime1 hkept hleft hticks

theorem drained_serve (hcodec : codec.Separates) (turn : ServeTurn) (g : LiveGrant)
    (htime : InTime turn.deadline turn.ticks)
    (hleft : 0 < (g.serve codec owners turn).1.framesLeft)
    (hticks : (g.serve codec owners turn).1.ticks ≠ []) :
    ∀ c ∈ (g.serve codec owners turn).2.connections, Drained c :=
  drained_pumpAll hcodec _ _ _ [] htime (fun _ h => nomatch h) hleft hticks

end Rivect.Sharing
