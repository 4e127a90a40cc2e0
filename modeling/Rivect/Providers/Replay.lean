import Rivect.Providers.Responses

/-! # What a send replays

The replay set of a lineage is what its completed replies returned, and each encrypted artifact
belongs to one lineage for good.
-/

namespace Rivect.Providers.Responses

open Lib List

/-- The encrypted artifact of a reasoning item. -/
def artifact (item : Json) : Option String :=
  if item.getStr "type" = some "reasoning" then item.getStr "encrypted_content" else none

/-- The output of the response that a stream completes with. -/
def completedOutput (codec : Codec) (adapter : Adapter) (around : Surroundings) :
    Option (List Json) :=
  match around.response with
  | .error _ => none
  | .ok stream =>
    match streamEvents codec adapter stream with
    | .ok ⟨0, some (.completed response)⟩ => (response.get "output").bind Json.asArray
    | _ => none

variable {codec : Codec} {adapter : Adapter} {manifest : Broker.RequestManifest}
  {around : Surroundings} {tools : List String} {gathered gathered' : Gathered} {item : Json}
  {output : List Json} {blobs : List String} {blob : String} {key : LineageKey}

/-! ## The items of one output -/

/-- A reasoning item has its artifact where the peer returns one, and none elsewhere. -/
def Labelled (reasoningArtifact : Bool) (item : Json) : Prop :=
  item.getStr "type" = some "reasoning" → (artifact item).isSome = reasoningArtifact

theorem blobs_messageItem (h : messageItem adapter gathered item = .ok gathered') :
    gathered'.blobs = gathered.blobs := by
  obtain ⟨content, -, h⟩ := bind_eq_ok h
  obtain ⟨text, -, h⟩ := bind_eq_ok h
  cases h
  rfl

theorem blobs_functionCallItem
    (h : functionCallItem codec adapter tools gathered item = .ok gathered') :
    gathered'.blobs = gathered.blobs := by
  obtain ⟨name, -, h⟩ := bind_eq_ok h
  obtain ⟨-, -, h⟩ := bind_eq_ok h
  obtain ⟨arguments, -, h⟩ := bind_eq_ok h
  obtain ⟨parsed, -, h⟩ := bind_eq_ok h
  obtain ⟨-, -, h⟩ := bind_eq_ok h
  cases h
  rfl

theorem blobs_reasoningItem (htype : item.getStr "type" = some "reasoning")
    (h : reasoningItem adapter gathered item = .ok gathered') :
    gathered'.blobs = gathered.blobs ++ (artifact item).toList ∧
      Labelled adapter.reasoningArtifact item := by
  have hartifact : artifact item = item.getStr "encrypted_content" := if_pos htype
  unfold reasoningItem at h
  split at h
  · rename_i hpeer
    obtain ⟨blob, hblob, h⟩ := bind_eq_ok h
    have hblob := found_eq_ok hblob
    cases h
    rw [Labelled, hartifact, hblob, hpeer]
    exact ⟨rfl, fun _ => rfl⟩
  · rename_i hpeer
    split at h
    · cases h
    · rename_i hnone
      cases h
      have hmember : item.get "encrypted_content" = none := by simpa using hnone
      have hstr : item.getStr "encrypted_content" = none := by rw [Json.getStr, hmember]; rfl
      have hpeer : adapter.reasoningArtifact = false := by simpa using hpeer
      rw [Labelled, hartifact, hstr, hpeer]
      exact ⟨(append_nil _).symm, fun _ => rfl⟩

/-- An accepted item adds its artifact to the blobs, and nothing else. -/
theorem blobs_outputItem (h : outputItem codec adapter tools gathered item = .ok gathered') :
    gathered'.blobs = gathered.blobs ++ (artifact item).toList ∧
      Labelled adapter.reasoningArtifact item := by
  obtain ⟨itemType, htype, h⟩ := bind_eq_ok h
  have htype := found_eq_ok htype
  obtain ⟨-, -, h⟩ := bind_eq_ok h
  have hother : itemType ≠ "reasoning" → artifact item = none ∧
      Labelled adapter.reasoningArtifact item := by
    intro hne
    have hnot : item.getStr "type" ≠ some "reasoning" := by
      rw [htype]
      simpa using hne
    exact ⟨if_neg hnot, fun heq => absurd heq hnot⟩
  split at h
  · obtain ⟨hnone, hlabel⟩ := hother (by decide)
    rw [blobs_messageItem h, hnone]
    exact ⟨(append_nil _).symm, hlabel⟩
  · obtain ⟨hnone, hlabel⟩ := hother (by decide)
    rw [blobs_functionCallItem h, hnone]
    exact ⟨(append_nil _).symm, hlabel⟩
  · exact blobs_reasoningItem htype h
  · cases h

theorem blobs_output (h : output.foldlM (outputItem codec adapter tools) gathered = .ok gathered') :
    gathered'.blobs = gathered.blobs ++ output.filterMap artifact ∧
      ∀ item ∈ output, Labelled adapter.reasoningArtifact item := by
  induction output generalizing gathered with
  | nil =>
    cases h
    exact ⟨(append_nil _).symm, nofun⟩
  | cons item output ih =>
    rw [foldlM_cons] at h
    obtain ⟨next, hitem, hrest⟩ := bind_eq_ok h
    obtain ⟨hblobs, hlabel⟩ := blobs_outputItem hitem
    obtain ⟨hrestBlobs, hlabels⟩ := ih hrest
    constructor
    · rw [hrestBlobs, hblobs, append_assoc]
      cases hartifact : artifact item with
      | none => rw [filterMap_cons_none hartifact]; rfl
      | some blob => rw [filterMap_cons_some hartifact]; rfl
    · intro other hother
      rcases mem_cons.mp hother with rfl | hmem
      · exact hlabel
      · exact hlabels other hmem

/-! ## One send -/

theorem claimCheck_eq_ok (h : claimCheck adapter key blob = .ok ()) :
    ∀ owner, adapter.blobOwner blob = some owner → owner = key := by
  intro owner howner
  rw [claimCheck, howner] at h
  dsimp only at h
  by_cases heq : owner = key
  · exact heq
  · rw [if_neg heq] at h
    cases h

theorem claimChecks_eq_ok (h : blobs.forM (claimCheck adapter key) = .ok ()) :
    ∀ blob ∈ blobs, ∀ owner, adapter.blobOwner blob = some owner → owner = key := by
  induction blobs with
  | nil => nofun
  | cons first blobs ih =>
    obtain ⟨⟨⟩, hfirst, hrest⟩ := bind_eq_ok h
    intro blob hblob
    rcases mem_cons.mp hblob with rfl | hmem
    · exact claimCheck_eq_ok hfirst
    · exact ih hrest blob hmem

/-- What an accepted output has passed. -/
structure Accepted (adapter : Adapter) (key : LineageKey) (output : List Json) : Prop where
  unclaimed : ∀ blob ∈ output.filterMap artifact, ∀ owner,
    adapter.blobOwner blob = some owner → owner = key
  labelled : ∀ item ∈ output, Labelled adapter.reasoningArtifact item

theorem validate_eq_ok {response : Json} {usage : UsageDelta}
    (h : validate codec adapter manifest response = .ok (output, gathered, usage)) :
    (response.get "output").bind Json.asArray = some output ∧
      gathered.blobs = output.filterMap artifact ∧
      Accepted adapter (lineageKey manifest) output := by
  obtain ⟨items, hitems, h⟩ := bind_eq_ok h
  obtain ⟨all, hall, h⟩ := bind_eq_ok h
  obtain ⟨⟨⟩, hchecks, h⟩ := bind_eq_ok h
  obtain ⟨use, -, h⟩ := bind_eq_ok h
  cases h
  obtain ⟨hblobs, hlabels⟩ := blobs_output hall
  rw [nil_append] at hblobs
  refine ⟨found_eq_ok hitems, hblobs, ?_, hlabels⟩
  rw [← hblobs]
  exact claimChecks_eq_ok hchecks

/-- A send either fails and leaves the adapter as it was, or commits an accepted output under
the lineage of its own manifest. -/
theorem send_cases (codec : Codec) (adapter : Adapter) (manifest : Broker.RequestManifest)
    (around : Surroundings) :
    (∃ error, (send codec adapter manifest around).outcome = .error error ∧
      (send codec adapter manifest around).adapter = adapter) ∨
    ∃ reply output, (send codec adapter manifest around).outcome = .ok reply ∧
      completedOutput codec adapter around = some output ∧
      Accepted adapter (lineageKey manifest) output ∧
      (send codec adapter manifest around).adapter =
        commit adapter (lineageKey manifest) output (output.filterMap artifact) := by
  unfold send completedOutput
  split
  · exact .inl ⟨_, rfl, rfl⟩
  · cases around.response with
    | error error => exact .inl ⟨_, rfl, rfl⟩
    | ok stream =>
      dsimp only [readStream]
      cases streamEvents codec adapter stream with
      | error error => exact .inl ⟨_, rfl, rfl⟩
      | ok state =>
        obtain ⟨openItems, terminal⟩ := state
        cases openItems with
        | succ openItems => exact .inl ⟨_, rfl, rfl⟩
        | zero =>
          cases terminal with
          | none => exact .inl ⟨_, rfl, rfl⟩
          | some terminal =>
            cases terminal with
            | failed reason => exact .inl ⟨_, rfl, rfl⟩
            | incomplete reason => exact .inl ⟨_, rfl, rfl⟩
            | completed response =>
              dsimp only [complete]
              cases hvalid : validate codec adapter manifest response with
              | error error => exact .inl ⟨_, rfl, rfl⟩
              | ok valid =>
                obtain ⟨output, gathered, usage⟩ := valid
                obtain ⟨houtput, hblobs, haccepted⟩ := validate_eq_ok hvalid
                refine .inr ⟨_, output, rfl, houtput, haccepted, ?_⟩
                rw [← hblobs]
                rfl

/-- The replayed items stand ahead of the new input on every posted body. -/
theorem posted_input {body : Json}
    (h : (send codec adapter manifest around).posted = some body) :
    body.get "input" =
      some (.array ((adapter.lineages (lineageKey manifest)).getD [] ++ [userInput manifest])) := by
  have hbody : ∃ fixed, body = requestBody adapter manifest fixed := by
    unfold send at h
    cases hprepared : prepared codec adapter manifest around with
    | error error =>
      rw [hprepared] at h
      cases h
    | ok ready =>
      rw [hprepared] at h
      obtain ⟨fixed, -, hready⟩ := bind_eq_ok hprepared
      obtain ⟨-, -, hready⟩ := bind_eq_ok hready
      obtain ⟨-, -, hready⟩ := bind_eq_ok hready
      cases hready
      refine ⟨fixed, ?_⟩
      dsimp only at h
      split at h
      · cases h
        rfl
      · cases h
        rfl
  obtain ⟨fixed, rfl⟩ := hbody
  have htools : ∀ body : Json, (withTools manifest body).get "input" = body.get "input" := by
    intro body
    unfold withTools
    split
    · rfl
    · exact Json.get_set_of_ne (by decide)
  have heffort : ∀ body : Json, (withEffort manifest body).get "input" = body.get "input" := by
    intro body
    unfold withEffort
    split
    · exact Json.get_set_of_ne (by decide)
    · rfl
  have hinclude : ∀ body : Json, (withInclude adapter body).get "input" = body.get "input" := by
    intro body
    unfold withInclude
    split
    · exact Json.get_set_of_ne (by decide)
    · rfl
  rw [requestBody, htools, heffort, hinclude]
  rfl

/-! ## Runs of sends -/

/-- One send of a run: its manifest, and what surrounds it. -/
structure Turn where
  manifest : Broker.RequestManifest
  around : Surroundings

/-- The adapter after the sends of a run, one after another. -/
def after (codec : Codec) (adapter : Adapter) (turns : List Turn) : Adapter :=
  turns.foldl (fun adapter turn => (send codec adapter turn.manifest turn.around).adapter) adapter

/-- The admissible output items of one send's reply, if it completes under `key`. -/
def completedUnder (codec : Codec) (adapter : Adapter) (key : LineageKey) (turn : Turn) :
    List Json :=
  match (send codec adapter turn.manifest turn.around).outcome with
  | .error _ => []
  | .ok _ =>
    if lineageKey turn.manifest = key then
      ((completedOutput codec adapter turn.around).getD []).filter
        (admissible adapter.reasoningArtifact)
    else []

/-- The admissible output items of the replies that completed under `key`, in order. -/
def completions (codec : Codec) (key : LineageKey) : Adapter → List Turn → List Json
  | _, [] => []
  | adapter, turn :: turns =>
    completedUnder codec adapter key turn ++
      completions codec key (send codec adapter turn.manifest turn.around).adapter turns

variable {turn : Turn} {turns : List Turn}

theorem after_cons :
    after codec adapter (turn :: turns) =
      after codec (send codec adapter turn.manifest turn.around).adapter turns :=
  rfl

/-- One send extends the replay set of a lineage by what completes under it. -/
theorem lineages_send (key : LineageKey) :
    ((send codec adapter turn.manifest turn.around).adapter.lineages key).getD [] =
      (adapter.lineages key).getD [] ++ completedUnder codec adapter key turn := by
  unfold completedUnder
  rcases send_cases codec adapter turn.manifest turn.around with
    ⟨error, herror, hkept⟩ | ⟨reply, output, hok, houtput, -, hnew⟩
  · rw [herror, hkept]
    exact (append_nil _).symm
  · rw [hok, hnew, houtput]
    dsimp only [commit]
    by_cases hkey : lineageKey turn.manifest = key
    · rw [if_pos hkey.symm, if_pos hkey]
      rfl
    · rw [if_neg fun h => hkey h.symm, if_neg hkey, append_nil]

theorem lineages_after (key : LineageKey) :
    ((after codec adapter turns).lineages key).getD [] =
      (adapter.lineages key).getD [] ++ completions codec key adapter turns := by
  induction turns generalizing adapter with
  | nil => exact (append_nil _).symm
  | cons turn turns ih => rw [after_cons, ih, lineages_send, append_assoc]; rfl

theorem blobOwner_send (h : adapter.blobOwner blob = some key) :
    (send codec adapter manifest around).adapter.blobOwner blob = some key := by
  rcases send_cases codec adapter manifest around with
    ⟨error, -, hkept⟩ | ⟨reply, output, -, -, haccepted, hnew⟩
  · rw [hkept, h]
  · rw [hnew]
    dsimp only [commit]
    by_cases hmem : blob ∈ output.filterMap artifact
    · rw [if_pos hmem, haccepted.unclaimed blob hmem key h]
    · rw [if_neg hmem, h]

theorem blobOwner_after (h : adapter.blobOwner blob = some key) :
    (after codec adapter turns).blobOwner blob = some key := by
  induction turns generalizing adapter with
  | nil => exact h
  | cons turn turns ih => exact ih (blobOwner_send h)

/-- The two structures agree: a replayed reasoning item has its artifact, claimed by the lineage
that replays it. -/
structure Owned (adapter : Adapter) : Prop where
  claimed : ∀ key, ∀ item ∈ (adapter.lineages key).getD [], ∀ blob, artifact item = some blob →
    adapter.blobOwner blob = some key
  present : ∀ key, ∀ item ∈ (adapter.lineages key).getD [],
    item.getStr "type" = some "reasoning" → (artifact item).isSome

theorem owned_new (connection : String) (reasoningArtifact : Bool) :
    Owned (Adapter.new connection reasoningArtifact) :=
  ⟨nofun, nofun⟩

theorem owned_send (h : Owned adapter) : Owned (send codec adapter manifest around).adapter := by
  rcases send_cases codec adapter manifest around with
    ⟨error, -, hkept⟩ | ⟨reply, output, -, -, haccepted, hnew⟩
  · rw [hkept]
    exact h
  · have hold : ∀ key, ∀ item ∈ (adapter.lineages key).getD [], ∀ blob,
        artifact item = some blob →
          (send codec adapter manifest around).adapter.blobOwner blob = some key :=
      fun key item hitem blob hblob => blobOwner_send (h.claimed key item hitem blob hblob)
    -- An item of a committed set is an old one, or an admissible one of this output.
    have hsplit : ∀ key item,
        item ∈ ((commit adapter (lineageKey manifest) output
          (output.filterMap artifact)).lineages key).getD [] →
        item ∈ (adapter.lineages key).getD [] ∨ (key = lineageKey manifest ∧ item ∈ output ∧
          admissible adapter.reasoningArtifact item = true) := by
      intro key item hitem
      dsimp only [commit] at hitem
      split at hitem
      · rename_i hkey
        rcases mem_append.mp hitem with hitem | hitem
        · exact .inl hitem
        · exact .inr ⟨hkey, mem_filter.mp hitem⟩
      · exact .inl hitem
    rw [hnew] at hold ⊢
    constructor
    · intro key item hitem blob hblob
      rcases hsplit key item hitem with hitem | ⟨rfl, hitem, -⟩
      · exact hold key item hitem blob hblob
      · exact if_pos (mem_filterMap.mpr ⟨item, hitem, hblob⟩)
    · intro key item hitem htype
      rcases hsplit key item hitem with hitem | ⟨rfl, hitem, hadmissible⟩
      · exact h.present key item hitem htype
      · rw [haccepted.labelled item hitem htype]
        simpa [admissible, htype] using hadmissible

theorem owned_after (h : Owned adapter) : Owned (after codec adapter turns) := by
  induction turns generalizing adapter with
  | nil => exact h
  | cons turn turns ih => exact ih (owned_send h)

/-- After any sends, in any interleaving of epochs: a posted body replays exactly what completed
under its own lineage, each artifact belongs to one lineage for good, no body replays a reasoning
item of another's, a reply that names another's artifact is refused, and a refused reply leaves
both structures as they were. -/
theorem replay_provenance (codec : Codec) (connection : String) (reasoningArtifact : Bool)
    (turns later : List Turn) (turn : Turn) :
    (∀ body, (send codec (after codec (.new connection reasoningArtifact) turns)
        turn.manifest turn.around).posted = some body →
      body.get "input" = some (.array (completions codec (lineageKey turn.manifest)
        (.new connection reasoningArtifact) turns ++ [userInput turn.manifest]))) ∧
    (∀ key, ∀ item ∈ completions codec key (.new connection reasoningArtifact) turns,
      item.getStr "type" = some "reasoning" → ∃ blob, artifact item = some blob ∧
        (after codec (.new connection reasoningArtifact) turns).blobOwner blob = some key) ∧
    (∀ blob key, (after codec (.new connection reasoningArtifact) turns).blobOwner blob = some key →
      (after codec (.new connection reasoningArtifact) (turns ++ later)).blobOwner blob =
        some key) ∧
    (∀ output, completedOutput codec (after codec (.new connection reasoningArtifact) turns)
        turn.around = some output →
      ∀ item ∈ output, ∀ blob key, artifact item = some blob →
        (after codec (.new connection reasoningArtifact) turns).blobOwner blob = some key →
        key ≠ lineageKey turn.manifest →
        ∃ error, (send codec (after codec (.new connection reasoningArtifact) turns)
          turn.manifest turn.around).outcome = .error error) ∧
    (∀ error, (send codec (after codec (.new connection reasoningArtifact) turns)
        turn.manifest turn.around).outcome = .error error →
      (send codec (after codec (.new connection reasoningArtifact) turns)
        turn.manifest turn.around).adapter =
        after codec (.new connection reasoningArtifact) turns) := by
  have hset : ∀ key, ((after codec (.new connection reasoningArtifact) turns).lineages key).getD [] =
      completions codec key (.new connection reasoningArtifact) turns := fun key => lineages_after key
  have howned : Owned (after codec (.new connection reasoningArtifact) turns) :=
    owned_after (owned_new connection reasoningArtifact)
  refine ⟨fun body hbody => ?_, fun key item hitem htype => ?_, fun blob key hkey => ?_,
    fun output houtput item hitem blob key hblob hkey hne => ?_, fun error herror => ?_⟩
  · rw [posted_input hbody, hset]
  · rw [← hset] at hitem
    obtain ⟨blob, hblob⟩ := Option.isSome_iff_exists.mp (howned.present key item hitem htype)
    exact ⟨blob, hblob, howned.claimed key item hitem blob hblob⟩
  · rw [after, foldl_append]
    exact blobOwner_after hkey
  · rcases send_cases codec (after codec (.new connection reasoningArtifact) turns)
      turn.manifest turn.around with ⟨error, herror, -⟩ | ⟨reply, items, -, hitems, haccepted, -⟩
    · exact ⟨error, herror⟩
    · obtain rfl : output = items := Option.mem_unique houtput hitems
      exact absurd (haccepted.unclaimed blob (mem_filterMap.mpr ⟨item, hitem, hblob⟩) key hkey)
        hne
  · rcases send_cases codec (after codec (.new connection reasoningArtifact) turns)
      turn.manifest turn.around with ⟨_, -, hkept⟩ | ⟨reply, items, hok, -⟩
    · exact hkept
    · rw [hok] at herror
      cases herror

end Rivect.Providers.Responses
