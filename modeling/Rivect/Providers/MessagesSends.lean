import Rivect.Providers.MessagesStream

/-! # What Messages sends put on the wire

How many legs one send posts and what it counts, what a send that posts nothing leaves of the
lineages, and what later sends may replay once the peer refused a replayed set.
-/

namespace Rivect.Providers.Messages

open Lib Broker List
open Responses (Codec LineageKey ReplyError SseEvent Stream lineageKey)

def SendError.wireRetries : SendError → ℕ
  | .leg _ => 0
  | .retried wireRetries _ => wireRetries

/-- The retries that a reply or an error reports. -/
def Sent.wireRetries (sent : Sent) : ℕ :=
  match sent.outcome with
  | .ok reply => reply.wireRetries
  | .error error => error.wireRetries

/-- The peer refuses a post for the signatures of its replay. -/
def RefusesReplay (around : Surroundings) (first : Post) : Prop :=
  first.replay ≠ [] ∧ ∃ response, around.response = .ok response ∧ response.status = 400 ∧
    ∃ body, response.failed = .ok body ∧ namesInvalidSignature body = true

/-- A send whose first post was refused so. -/
def ReplayRefused (around : Surroundings) (sent : Sent) : Prop :=
  ∃ first, sent.posts.head? = some first ∧ RefusesReplay around first

/-- The replay decision drops a set: the manifest mutated, or another model minted it. -/
def Drops (adapter : Adapter) (manifest : Broker.RequestManifest) (model : String) : Prop :=
  manifest.mutationReason.isSome ∨
    ∃ lineage, adapter.lineages (lineageKey manifest) = some lineage ∧ lineage.model ≠ model

/-- The stream that a send's last leg answered with. -/
def answering (around : Surroundings) (sent : Sent) : Option Stream :=
  (if sent.posts.length = 2 then around.retryResponse else around.response).toOption.map (·.stream)

/-- A send that was answered with a thinking set. -/
def Captures (codec : Codec) (connection : String) (manifest : Broker.RequestManifest)
    (around : Surroundings) (sent : Sent) (blocks : List Json) : Prop :=
  (∃ reply, sent.outcome = .ok reply) ∧ ∃ stream state, answering around sent = some stream ∧
    streamEvents codec connection manifest.tools stream = .ok state ∧
    state.thinking = blocks

/-! ## One send -/

section Send

variable {codec : Codec} {adapter : Adapter} {manifest : Broker.RequestManifest}
  {around : Surroundings} {model : String}

theorem set_lineages (key : LineageKey) (lineage : Option ThinkingLineage) :
    (adapter.set key lineage).lineages = Function.update adapter.lineages key lineage := rfl

theorem verdict_retries {connection : String} {state : StreamState} {reply : ProviderReply}
    (h : verdict connection state = .ok reply) : reply.wireRetries = 0 := by
  obtain ⟨_, -, h⟩ := bind_eq_ok h
  obtain ⟨_, -, h⟩ := bind_eq_ok h
  obtain ⟨_, -, h⟩ := bind_eq_ok h
  obtain ⟨_, -, h⟩ := bind_eq_ok h
  obtain ⟨usage, -, h⟩ := bind_eq_ok h
  cases h
  rfl

/-- A stream leaves the adapter as it was, or its thinking set under its lineage. -/
theorem readStream_cases (codec : Codec) (adapter : Adapter) (manifest : Broker.RequestManifest)
    (model : String) (stream : Stream) :
    (∃ error, readStream codec adapter manifest model stream = (adapter, .error error)) ∨
    ∃ after reply state, readStream codec adapter manifest model stream = (after, .ok reply) ∧
      streamEvents codec adapter.connection manifest.tools stream = .ok state ∧
      reply.wireRetries = 0 ∧ after.lineages = Function.update adapter.lineages
        (lineageKey manifest)
        (if state.thinking.isEmpty then none else some ⟨model, state.thinking⟩) := by
  unfold readStream
  cases hstate : streamEvents codec adapter.connection manifest.tools stream with
  | error error => exact .inl ⟨error, rfl⟩
  | ok state =>
    cases hverdict : verdict adapter.connection state with
    | error error => exact .inl ⟨error, by dsimp only; rw [hverdict]⟩
    | ok reply =>
      refine .inr ⟨_, reply, state, by dsimp only; rw [hverdict], rfl, verdict_retries hverdict,
        rfl⟩

/-- What the legs of a send leave. -/
structure Exchanged (codec : Codec) (adapter : Adapter) (manifest : Broker.RequestManifest)
    (around : Surroundings) (model : String) (first : Post) (sent : Sent) : Prop where
  posts : sent.posts = [] ∨ sent.posts = [first] ∨ ∃ retry, sent.posts = [first, retry] ∧
    retry.replay = [] ∧ RefusesReplay around first
  counted : sent.wireRetries = if sent.posts.length = 2 then 1 else 0
  silent : sent.posts = [] → sent.adapter = adapter ∧ ∃ error, sent.outcome = .error error
  leaves : (sent.adapter.lineages = adapter.lineages ∧ ¬ ReplayRefused around sent) ∨
    sent.adapter.lineages = Function.update adapter.lineages (lineageKey manifest) none ∨
    ∃ blocks, Captures codec adapter.connection manifest around sent blocks ∧ blocks ≠ [] ∧
      sent.adapter.lineages =
        Function.update adapter.lineages (lineageKey manifest) (some ⟨model, blocks⟩)

theorem answering_one {first : Post} {sent : Sent} {response : Response}
    (hposts : sent.posts = [first]) (hresponse : around.response = .ok response) :
    answering around sent = some response.stream := by
  have hone : sent.posts.length ≠ 2 := by simp [hposts]
  rw [answering, if_neg hone, hresponse]
  rfl

theorem answering_two {first retry : Post} {sent : Sent} {response : Response}
    (hposts : sent.posts = [first, retry]) (hresponse : around.retryResponse = .ok response) :
    answering around sent = some response.stream := by
  have htwo : sent.posts.length = 2 := by simp [hposts]
  rw [answering, if_pos htwo, hresponse]
  rfl

theorem answered {posts : List Post} {stream : Stream} {state : StreamState}
    {after : Adapter} {reply : ProviderReply}
    (hanswering : answering around ⟨after, posts, .ok reply⟩ = some stream)
    (hstate : streamEvents codec adapter.connection manifest.tools stream = .ok state)
    (hafter : after.lineages = Function.update adapter.lineages (lineageKey manifest)
      (if state.thinking.isEmpty then none else some ⟨model, state.thinking⟩)) :
    after.lineages = Function.update adapter.lineages (lineageKey manifest) none ∨
    ∃ blocks, Captures codec adapter.connection manifest around ⟨after, posts, .ok reply⟩ blocks ∧
      blocks ≠ [] ∧ after.lineages =
        Function.update adapter.lineages (lineageKey manifest) (some ⟨model, blocks⟩) := by
  by_cases hempty : state.thinking.isEmpty
  · rw [if_pos hempty] at hafter
    exact .inl hafter
  · rw [if_neg hempty] at hafter
    refine .inr ⟨state.thinking, ⟨⟨reply, rfl⟩, stream, state, hanswering, hstate, rfl⟩, ?_, hafter⟩
    rintro hnil
    exact hempty (isEmpty_iff.mpr hnil)

/-- The corrected leg replays nothing and is counted once it is posted. -/
theorem corrected_exchanged {fixed : Config.FixedModel} {first : Post}
    (hrefuses : RefusesReplay around first) :
    Exchanged codec adapter manifest around fixed.modelId first
      (corrected codec (adapter.set (lineageKey manifest) none) manifest around fixed first) := by
  have hretry : (postOf manifest fixed ⟨[], first.dropBlock⟩).replay = [] := rfl
  unfold corrected
  dsimp only
  generalize postOf manifest fixed ⟨[], first.dropBlock⟩ = retry at hretry ⊢
  split
  · exact ⟨.inr (.inl rfl), rfl, fun h => (by cases h), .inr (.inl rfl)⟩
  · split
    · exact ⟨.inr (.inr ⟨retry, rfl, hretry, hrefuses⟩), rfl, fun h => (by cases h),
        .inr (.inl rfl)⟩
    case h_2 response hresponse =>
      split
      · rcases readStream_cases codec (adapter.set (lineageKey manifest) none) manifest
          fixed.modelId response.stream with ⟨error, hread⟩ | ⟨after, reply, state, hread, hstate,
            hretries, hafter⟩
        · rw [hread]
          exact ⟨.inr (.inr ⟨retry, rfl, hretry, hrefuses⟩), rfl, fun h => (by cases h),
            .inr (.inl rfl)⟩
        · rw [hread]
          refine ⟨.inr (.inr ⟨retry, rfl, hretry, hrefuses⟩), ?_, fun h => (by cases h), .inr ?_⟩
          · exact congrArg (· + 1) hretries
          · rw [set_lineages, Function.update_idem] at hafter
            refine answered ?_ hstate hafter
            exact answering_two rfl hresponse
      · exact ⟨.inr (.inr ⟨retry, rfl, hretry, hrefuses⟩), rfl, fun h => (by cases h),
          .inr (.inl rfl)⟩

theorem not_refused {first : Post} {sent : Sent} (hposts : sent.posts = [first])
    (h : ¬ RefusesReplay around first) : ¬ ReplayRefused around sent := by
  rintro ⟨post, hpost, hrefuses⟩
  rw [hposts] at hpost
  obtain rfl := Option.some.inj hpost
  exact h hrefuses

theorem refused_exchanged {fixed : Config.FixedModel} {first : Post} {response : Response}
    (hresponse : around.response = .ok response) :
    Exchanged codec adapter manifest around fixed.modelId first
      (refused codec adapter manifest around fixed first response) := by
  have hone : ¬ RefusesReplay around first → ∀ error : SendError, error.wireRetries = 0 →
      Exchanged codec adapter manifest around fixed.modelId first
        ⟨adapter, [first], .error error⟩ := by
    intro h error hretries
    exact ⟨.inr (.inl rfl), hretries, fun h => (by cases h), .inl ⟨rfl, not_refused rfl h⟩⟩
  have hsame : ∀ other, around.response = .ok other → other = response := by
    intro other hother
    exact Except.ok.inj (hother.symm.trans hresponse)
  unfold refused
  split
  case isTrue hreplay =>
    cases hfailed : response.failed with
    | error error =>
      refine hone ?_ _ rfl
      rintro ⟨-, other, hother, -, body, hbody, -⟩
      rw [hsame other hother, hfailed] at hbody
      cases hbody
    | ok failed =>
      dsimp only
      split
      case isTrue hnames =>
        exact corrected_exchanged
          ⟨hreplay.2, response, hresponse, hreplay.1, failed, hfailed, hnames⟩
      case isFalse hnames =>
        refine hone ?_ _ rfl
        rintro ⟨-, other, hother, -, body, hbody, hmarked⟩
        rw [hsame other hother, hfailed] at hbody
        obtain rfl := Except.ok.inj hbody
        exact hnames hmarked
  case isFalse hreplay =>
    refine hone ?_ _ rfl
    rintro ⟨hne, other, hother, hstatus, -⟩
    rw [hsame other hother] at hstatus
    exact hreplay ⟨hstatus, hne⟩

theorem exchanged_exchanged {fixed : Config.FixedModel} {first : Post} :
    Exchanged codec adapter manifest around fixed.modelId first
      (exchanged codec adapter manifest around fixed first) := by
  unfold exchanged
  split
  case h_1 error _ =>
    refine ⟨.inl rfl, rfl, fun _ => ⟨rfl, _, rfl⟩, .inl ⟨rfl, ?_⟩⟩
    rintro ⟨post, hpost, -⟩
    cases hpost
  · split
    case h_1 error herror =>
      refine ⟨.inr (.inl rfl), rfl, fun h => (by cases h), .inl ⟨rfl, not_refused rfl ?_⟩⟩
      rintro ⟨-, other, hother, -⟩
      rw [herror] at hother
      cases hother
    case h_2 response hresponse =>
      split
      case isTrue hsuccess =>
        rcases readStream_cases codec adapter manifest fixed.modelId response.stream with
          ⟨error, hread⟩ | ⟨after, reply, state, hread, hstate, hretries, hafter⟩
        · rw [hread]
          refine ⟨.inr (.inl rfl), rfl, fun h => (by cases h), .inl ⟨rfl, not_refused rfl ?_⟩⟩
          rintro ⟨-, other, hother, hstatus, -⟩
          obtain rfl := Except.ok.inj (hother.symm.trans hresponse)
          unfold Response.isSuccess at hsuccess
          rw [hstatus] at hsuccess
          exact absurd hsuccess (by decide)
        · rw [hread]
          refine ⟨.inr (.inl rfl), hretries, fun h => (by cases h),
            .inr (answered ?_ hstate hafter)⟩
          exact answering_one rfl hresponse
      case isFalse => exact refused_exchanged hresponse

theorem binding_cases (adapter : Adapter) (manifest : Broker.RequestManifest) (model : String) :
    ((binding adapter manifest model).1 = adapter ∧
      ((binding adapter manifest model).2.replay = [] ∨
        ∃ lineage, adapter.lineages (lineageKey manifest) = some lineage ∧
          (binding adapter manifest model).2.replay = lineage.blocks)) ∨
    (Drops adapter manifest model ∧
      (binding adapter manifest model).1 = adapter.set (lineageKey manifest) none ∧
      (binding adapter manifest model).2.replay = []) := by
  unfold binding
  by_cases hmutation : manifest.mutationReason.isSome
  · rw [if_pos hmutation]
    exact .inr ⟨.inl hmutation, rfl, rfl⟩
  · rw [if_neg hmutation]
    cases hlineage : adapter.lineages (lineageKey manifest) with
    | none => exact .inl ⟨rfl, .inl rfl⟩
    | some lineage =>
      dsimp only
      by_cases hmodel : lineage.model = model
      · rw [if_pos hmodel]
        exact .inl ⟨rfl, .inr ⟨lineage, rfl, rfl⟩⟩
      · rw [if_neg hmodel]
        exact .inr ⟨.inr ⟨lineage, hlineage, hmodel⟩, rfl, rfl⟩

/-- What one send puts on the wire, counts and leaves. -/
structure Lawful (codec : Codec) (adapter : Adapter) (manifest : Broker.RequestManifest)
    (around : Surroundings) (sent : Sent) : Prop where
  two : sent.posts.length ≤ 2
  second : ∀ first retry, sent.posts = [first, retry] →
    RefusesReplay around first ∧ retry.replay = []
  counted : sent.wireRetries = if sent.posts.length = 2 then 1 else 0
  silent : sent.posts = [] → (∃ error, sent.outcome = .error error) ∧
    (sent.adapter = adapter ∨ ∃ fixed, gates adapter manifest around = .ok fixed ∧
      Drops adapter manifest fixed.modelId ∧
      sent.adapter = adapter.set (lineageKey manifest) none)
  replays : ∀ post ∈ sent.posts, post.replay = [] ∨
    ∃ lineage, adapter.lineages (lineageKey manifest) = some lineage ∧
      post.replay = lineage.blocks
  leaves : ∀ key lineage, sent.adapter.lineages key = some lineage →
    (adapter.lineages key = some lineage ∧
      (key = lineageKey manifest → ¬ ReplayRefused around sent)) ∨
    (key = lineageKey manifest ∧
      Captures codec adapter.connection manifest around sent lineage.blocks)

/-- The lineages after the legs, against those before the replay decision. -/
theorem Exchanged.lineage {decided : Adapter} {first : Post} {sent : Sent}
    (h : Exchanged codec decided manifest around model first sent)
    (hconnection : decided.connection = adapter.connection)
    (hdecided : ∀ key lineage, decided.lineages key = some lineage →
      adapter.lineages key = some lineage)
    {key : LineageKey} {lineage : ThinkingLineage}
    (hkey : sent.adapter.lineages key = some lineage) :
    (adapter.lineages key = some lineage ∧
      (key = lineageKey manifest → ¬ ReplayRefused around sent)) ∨
    (key = lineageKey manifest ∧
      Captures codec adapter.connection manifest around sent lineage.blocks) := by
  rcases h.leaves with ⟨hsame, hrefused⟩ | hdropped | ⟨blocks, hcaptures, -, hset⟩
  · rw [hsame] at hkey
    exact .inl ⟨hdecided key lineage hkey, fun _ => hrefused⟩
  · rw [hdropped] at hkey
    by_cases hown : key = lineageKey manifest
    · rw [hown, Function.update_self] at hkey
      cases hkey
    · rw [Function.update_of_ne hown] at hkey
      exact .inl ⟨hdecided key lineage hkey, fun h => absurd h hown⟩
  · rw [hset] at hkey
    by_cases hown : key = lineageKey manifest
    · rw [hown, Function.update_self] at hkey
      obtain rfl := Option.some.inj hkey
      rw [hconnection] at hcaptures
      exact .inr ⟨hown, hcaptures⟩
    · rw [Function.update_of_ne hown] at hkey
      exact .inl ⟨hdecided key lineage hkey, fun h => absurd h hown⟩

theorem sendManifest_lawful (codec : Codec) (adapter : Adapter)
    (manifest : Broker.RequestManifest) (around : Surroundings) :
    Lawful codec adapter manifest around (sendManifest codec adapter manifest around) := by
  unfold sendManifest
  cases hgates : gates adapter manifest around with
  | error error =>
    refine ⟨by simp, fun _ _ h => (by cases h), rfl, fun _ => ⟨⟨_, rfl⟩, .inl rfl⟩,
      fun _ h => (by cases h), fun key lineage hkey => .inl ⟨hkey, ?_⟩⟩
    rintro - ⟨first, hfirst, -⟩
    cases hfirst
  | ok fixed =>
    -- The lineage is kept and replayed, or dropped before anything is posted.
    have hcases := binding_cases adapter manifest fixed.modelId
    dsimp only
    generalize binding adapter manifest fixed.modelId = decision at hcases ⊢
    obtain ⟨decided, binding⟩ := decision
    have hreplay : (postOf manifest fixed binding).replay = binding.replay := rfl
    generalize postOf manifest fixed binding = first at hreplay ⊢
    have hexchanged : Exchanged codec decided manifest around fixed.modelId first
      (exchanged codec decided manifest around fixed first) := exchanged_exchanged
    generalize exchanged codec decided manifest around fixed first = sent at hexchanged ⊢
    have hconnection : decided.connection = adapter.connection := by
      rcases hcases with ⟨rfl, -⟩ | ⟨-, rfl, -⟩
      · rfl
      · rfl
    have hdecided : ∀ key lineage, decided.lineages key = some lineage →
        adapter.lineages key = some lineage := by
      intro key lineage hkey
      rcases hcases with ⟨rfl, -⟩ | ⟨-, rfl, -⟩
      · exact hkey
      · by_cases hown : key = lineageKey manifest
        · rw [hown, set_lineages, Function.update_self] at hkey
          cases hkey
        · rwa [set_lineages, Function.update_of_ne hown] at hkey
    have hfirst : first.replay = [] ∨ ∃ lineage,
        adapter.lineages (lineageKey manifest) = some lineage ∧ first.replay = lineage.blocks := by
      rw [hreplay]
      rcases hcases with ⟨-, hreplay⟩ | ⟨-, -, hreplay⟩
      · exact hreplay
      · exact .inl hreplay
    refine ⟨?_, ?_, hexchanged.counted, ?_, ?_, ?_⟩
    · rcases hexchanged.posts with h | h | ⟨retry, h, -, -⟩
      all_goals simp [h]
    · intro post retry hposts
      rcases hexchanged.posts with h | h | ⟨retry', h, hempty, hrefuses⟩
      · rw [h] at hposts
        cases hposts
      · rw [h] at hposts
        cases hposts
      · rw [h] at hposts
        cases hposts
        exact ⟨hrefuses, hempty⟩
    · intro hposts
      obtain ⟨hkept, herror⟩ := hexchanged.silent hposts
      refine ⟨herror, ?_⟩
      rcases hcases with ⟨rfl, -⟩ | ⟨hdrops, rfl, -⟩
      · exact .inl hkept
      · exact .inr ⟨fixed, hgates, hdrops, hkept⟩
    · intro post hpost
      rcases hexchanged.posts with h | h | ⟨retry, h, hempty, -⟩
      · rw [h] at hpost
        cases hpost
      · rw [h] at hpost
        rw [mem_singleton.mp hpost]
        exact hfirst
      · rw [h] at hpost
        rcases mem_pair.mp hpost with rfl | rfl
        · exact hfirst
        · exact .inl hempty
    · intro key lineage hkey
      exact hexchanged.lineage hconnection hdecided hkey

end Send

/-! ## Any sends -/

structure Turn where
  manifest : Broker.RequestManifest
  around : Surroundings

section Turns

variable (codec : Codec)

def sendTurn (adapter : Adapter) (turn : Turn) : Sent :=
  sendManifest codec adapter turn.manifest turn.around

/-- The adapter after some sends. -/
def after (adapter : Adapter) (turns : List Turn) : Adapter :=
  turns.foldl (fun adapter turn => (sendTurn codec adapter turn).adapter) adapter

/-- One of the sends, under some key, was answered with some thinking set. -/
def Minted (adapter : Adapter) (turns : List Turn) (key : LineageKey) (blocks : List Json) : Prop :=
  ∃ before turn later, turns = before ++ turn :: later ∧ lineageKey turn.manifest = key ∧
    Captures codec (after codec adapter before).connection turn.manifest turn.around
      (sendTurn codec (after codec adapter before) turn) blocks

variable {codec} {adapter : Adapter} {turn : Turn} {turns : List Turn}

theorem after_snoc : after codec adapter (turns ++ [turn]) =
    (sendTurn codec (after codec adapter turns) turn).adapter := foldl_append

theorem Minted.snoc {key : LineageKey} {blocks : List Json}
    (h : Minted codec adapter turns key blocks) :
    Minted codec adapter (turns ++ [turn]) key blocks := by
  obtain ⟨before, minting, later, rfl, hkey, hcaptures⟩ := h
  exact ⟨before, minting, later ++ [turn], by simp, hkey, hcaptures⟩

/-- Once a replayed set was refused, what stands under its key was minted by a later reply. -/
theorem minted_of_refused (hrefused : ReplayRefused turn.around (sendTurn codec adapter turn))
    {lineage : ThinkingLineage}
    (h : (after codec adapter (turn :: turns)).lineages (lineageKey turn.manifest) = some lineage) :
    Minted codec adapter (turn :: turns) (lineageKey turn.manifest) lineage.blocks := by
  induction turns using reverseRecOn generalizing lineage with
  | nil =>
    have hleaves := (sendManifest_lawful codec adapter turn.manifest turn.around).leaves _ lineage h
    rcases hleaves with ⟨-, hkept⟩ | ⟨-, hcaptures⟩
    · exact absurd hrefused (hkept rfl)
    · exact ⟨[], turn, [], rfl, rfl, hcaptures⟩
  | append_singleton turns last ih =>
    rw [← cons_append, after_snoc] at h
    have hleaves := (sendManifest_lawful codec (after codec adapter (turn :: turns))
      last.manifest last.around).leaves _ lineage h
    rcases hleaves with ⟨hbefore, -⟩ | ⟨hkey, hcaptures⟩
    · exact (ih hbefore).snoc
    · exact ⟨turn :: turns, last, [], rfl, hkey.symm, hcaptures⟩

end Turns

/-- A send posts at most twice, the second time without any replay and only where the peer refused
one, and counts that leg alone; one that posts nothing leaves the lineages, but for the set that its
replay decision dropped. After a refused replay no later send under its key replays a set but one
that a reply minted since. -/
theorem sends_lawful (codec : Codec) (adapter : Adapter) (turn : Turn) :
    Lawful codec adapter turn.manifest turn.around (sendTurn codec adapter turn) ∧
    ∀ between later, ReplayRefused turn.around (sendTurn codec adapter turn) →
      lineageKey later.manifest = lineageKey turn.manifest →
      ∀ post ∈ (sendTurn codec (after codec adapter (turn :: between)) later).posts,
        post.replay = [] ∨
          Minted codec adapter (turn :: between) (lineageKey turn.manifest) post.replay := by
  refine ⟨sendManifest_lawful .., fun between later hrefused hkey post hpost => ?_⟩
  have hlawful := sendManifest_lawful codec (after codec adapter (turn :: between))
    later.manifest later.around
  rcases hlawful.replays post hpost with hnone | ⟨lineage, hlineage, hreplay⟩
  · exact .inl hnone
  · rw [hkey] at hlineage
    rw [hreplay]
    exact .inr (minted_of_refused hrefused hlineage)

/-- A mutated manifest that the clock refuses before its post has dropped its set already. -/
theorem dropped_unposted : ¬ ∀ (codec : Codec) (adapter : Adapter)
    (manifest : Broker.RequestManifest) (around : Surroundings),
    (∃ error, (sendManifest codec adapter manifest around).outcome = .error error) →
      (sendManifest codec adapter manifest around).posts = [] →
      (sendManifest codec adapter manifest around).adapter.lineages = adapter.lineages := by
  intro h
  let adapter : Adapter := (Adapter.new "c" .modelsInfo).set (lineageKey pinned) (some ⟨"m", []⟩)
  let late : ReplyError := .before (.transport "c" .deadline)
  let sent := sendManifest ⟨fun _ => none, fun _ => some 0⟩ adapter
    { pinned with mutationReason := some "changed" }
    ⟨.ok (), .ok (), .ok [], fun _ => true, .error late, .error late, .ok (), .error late⟩
  have hsame : sent.adapter.lineages = adapter.lineages := h _ _ _ _ ⟨.leg late, rfl⟩ rfl
  have hdropped : sent.adapter.lineages =
      Function.update adapter.lineages (lineageKey pinned) none := rfl
  have hkey := congrFun (hsame.symm.trans hdropped) (lineageKey pinned)
  rw [Function.update_self, set_lineages, Function.update_self] at hkey
  cases hkey

end Rivect.Providers.Messages
