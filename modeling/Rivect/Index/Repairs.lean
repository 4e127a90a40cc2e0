import Rivect.Index.Runs

/-! # Reported changes and the newest generation

Which runs repair what the watcher reported. `Kept` is the invariant of the runs in which no
claimed batch is dropped: the newest generation reads fresh only where every batch was repaired.
-/

namespace Rivect.Index

open Lib List Option

/-- The request of a full cut: it names no narrowing, or one that the worker has to widen. -/
def ProjectRequest.full (request : ProjectRequest) : Bool :=
  request.changed.isEmpty || request.fileSetMoved || request.previousDocuments.isEmpty

/-- A run of this request derives everything that the batch reports. -/
def ProjectRequest.Covers (request : ProjectRequest) (batch : WatchBatch) : Prop :=
  request.full = true ∨
    batch.needsFullRebuild = false ∧ ∀ path ∈ batch.paths, path ∈ request.changed

/-- After a claim, a run that covers the batch was started and its answer sealed. -/
def Repaired (later : List IndexEvent) (batch : WatchBatch) : Prop :=
  ∃ before generation request after, later = before ++ .started generation request :: after ∧
    .answered generation ∈ after ∧ request.Covers batch

/-- No claimed batch is lost behind a newest generation that reads fresh. -/
def NothingLost (rt : IndexRuntime) : Prop :=
  ∀ newest, rt.generations.latest = some newest → newest.reads = .fresh →
    ∀ before batch later, rt.log = before ++ .claimed batch :: later → Repaired later batch

/-- Only the newest generation reads fresh. -/
def OnlyNewestFresh (rt : IndexRuntime) : Prop :=
  ∀ row ∈ rt.generations.rows, row.reads = .fresh → rt.generations.latest = some row

/-- A generation that reads fresh is the newest but for the reserved row of the run in flight. -/
def FreshBehindFlight (rt : IndexRuntime) : Prop :=
  ∀ row ∈ rt.generations.rows, row.reads = .fresh →
    ∀ newer ∈ rt.generations.rows, row.generation < newer.generation →
      newer.reads ≠ .fresh ∧ rt.busy = true ∧ rt.reserved = some newer.generation

/-! ## Steps that drop no batch -/

/-- The marks go through and the run that follows a claim starts. -/
structure Starts (env : Surroundings) (rt : IndexRuntime) (task : Option String) : Prop where
  markLatest : env.markLatest = true
  mark : env.mark = true
  live : IndexRuntime.taskLive env task = true
  idle : rt.busy = false
  root : env.root = true
  latest : env.latest = true
  graph : env.graph = true
  reserve : env.reserve = true

/-- What `project.init` makes of a batch does not leave out what the batch reports. -/
def KeepsBatch (rt : IndexRuntime) (batch : WatchBatch) (changed : List Path) : Prop :=
  batch.fileSetMoved = true ∨ rt.generations.latest.elim [] Generation.documents = [] ∨
    (changed = [] ∧ (batch.missed = true → batch.paths = [])) ∨
    (changed ≠ [] ∧ batch.missed = false ∧ batch.paths ≠ [] ∧
      ∀ path ∈ batch.paths, path ∈ changed)

/-- While a generation reads fresh, the seal of the next one is not refused. -/
def SealsOver (env : Surroundings) (rt : IndexRuntime) (outcome : Outcome) : Prop :=
  (∃ row ∈ rt.generations.rows, row.reads = .fresh) → env.sealing = true ∧
    ∀ graph, outcome = .ok graph → ∀ edge ∈ graph.edges, (writeEdge edge).isSome = true

/-- The step drops no batch that it claims, and leaves no fresh generation behind a refused seal. -/
def DropsNothing (rt : IndexRuntime) : IndexRuntime.Op → Prop
  | .notified _ => True
  | .lands _ => True
  | .init env task changed => ∀ batch, rt.watcher = some batch → batch.isQuiet = false →
      Starts env rt task ∧ KeepsBatch rt batch changed
  | .pump env => (∀ outcome, rt.landed = some outcome → SealsOver env rt outcome) ∧
      (rt.landed = none → rt.busy = false → ∀ batch, rt.watcher = some batch →
        batch.isQuiet = false → Starts env rt none)
  | .pumpOwed env => ∀ outcome, rt.landed = some outcome → SealsOver env rt outcome
  | .reindex env _ => ∀ batch, rt.watcher = some batch → batch.isQuiet = false →
      Starts env rt none

/-! ## Specifications of the steps -/

open IndexRuntime

variable {env : Surroundings} {rt rt' : IndexRuntime} {task : Option String} {changed : List Path}
  {fileSetMoved : Bool} {batch : WatchBatch}

/-- The request that a run started now would have. -/
def requestAt (rt : IndexRuntime) (changed : List Path) (fileSetMoved : Bool) : ProjectRequest :=
  ⟨changed, fileSetMoved, rt.generations.latest.elim [] Generation.documents⟩

/-- The runtime with the run started. -/
def started (rt : IndexRuntime) (task : Option String) (request : ProjectRequest) : IndexRuntime :=
  { rt with
    generations := rt.generations.reserve
    reserved := some rt.generations.next
    runTask := task
    flight := some request
    log := rt.log ++ [.started rt.generations.next request] }

theorem startIndexRun_ok (h : rt.startIndexRun env task changed fileSetMoved = .ok rt') :
    rt.busy = false ∧ rt' = started rt task (requestAt rt changed fileSetMoved) := by
  unfold startIndexRun prepareIndexRun require at h
  split at h
  · rw [ok_bind] at h
    split at h
    · rename_i hidle
      rw [ok_bind] at h
      split at h
      · rw [ok_bind] at h
        split at h
        · rw [ok_bind] at h
          split at h
          · rw [ok_bind] at h
            split at h
            · exact ⟨hidle, (Except.ok.inj h).symm⟩
            · cases h
          · cases h
        · cases h
      · cases h
    · cases h
  · cases h

theorem startIndexRun_of_starts (h : Starts env rt task) :
    rt.startIndexRun env task changed fileSetMoved =
      .ok (started rt task (requestAt rt changed fileSetMoved)) := by
  have hgraph : rt.generations.latest.isSome = true → env.graph = true := fun _ => h.graph
  unfold startIndexRun prepareIndexRun
  rw [require_pos h.live, ok_bind, require_pos h.idle, ok_bind, require_pos h.root, ok_bind,
    require_pos h.latest, ok_bind, require_pos hgraph, ok_bind, require_pos h.reserve]
  rfl

/-- The runtime with the batch claimed and the newest generation marked. -/
def claimed (rt : IndexRuntime) (batch : WatchBatch) : IndexRuntime :=
  { rt with
    watcher := some .empty
    log := rt.log ++ [.claimed batch]
    generations := match rt.generations.latest with
      | none => rt.generations
      | some newest => rt.generations.markIndexGenerationStale newest.generation
          (if batch.missed then .watcherMissed else .sourceChanged) }

theorem takeIndexWatchBatch_of_marks (hwatcher : rt.watcher = some batch)
    (hloud : batch.isQuiet = false) (hlatest : env.markLatest = true) (hmark : env.mark = true) :
    rt.takeIndexWatchBatch env = (claimed rt batch, .ok (some batch)) := by
  unfold takeIndexWatchBatch markWatchedGeneration claimed
  rw [hwatcher]
  simp only [hloud, Bool.false_eq_true, if_false, require_pos hlatest, ok_bind,
    require_pos hmark]
  cases rt.generations.latest <;> rfl

theorem takeIndexWatchBatch_of_quiet
    (h : ∀ batch, rt.watcher = some batch → batch.isQuiet = true) :
    ∃ watcher, rt.takeIndexWatchBatch env = ({ rt with watcher := watcher }, .ok none) := by
  unfold takeIndexWatchBatch
  match hwatcher : rt.watcher with
  | none => exact ⟨rt.watcher, rfl⟩
  | some batch =>
    dsimp only
    rw [if_pos (h batch hwatcher)]
    exact ⟨some .empty, rfl⟩

/-! ## The invariant -/

/-- A batch that is not repaired yet: by the run in flight, or else by any run that starts next. -/
def Coming (rt : IndexRuntime) (later : List IndexEvent) (batch : WatchBatch) : Prop :=
  match rt.flight with
  | some request => request.Covers batch ∧ ∃ before generation after,
      later = before ++ .started generation request :: after ∧ rt.reserved = some generation
  | none => ∀ newest, rt.generations.latest = some newest →
      newest.reads ≠ .fresh ∧ newest.documents = []

theorem Repaired.append {later : List IndexEvent} (h : Repaired later batch)
    (more : List IndexEvent) : Repaired (later ++ more) batch := by
  obtain ⟨before, generation, request, after, rfl, hanswered, hcovers⟩ := h
  exact ⟨before, generation, request, after ++ more, by simp,
    mem_append_left _ hanswered, hcovers⟩

theorem claim_snoc {log before later : List IndexEvent} {event : IndexEvent}
    (h : log ++ [event] = before ++ .claimed batch :: later) :
    (∃ later', log = before ++ .claimed batch :: later' ∧ later = later' ++ [event]) ∨
      event = .claimed batch ∧ later = [] ∧ before = log := by
  rcases eq_nil_or_concat later with rfl | ⟨later', last, rfl⟩
  · obtain ⟨rfl, hevent⟩ := append_inj' h rfl
    exact .inr ⟨(List.cons.inj hevent).1, rfl, rfl⟩
  · rw [concat_eq_append, ← cons_append, ← append_assoc] at h
    obtain ⟨hlog, hlast⟩ := append_inj' h rfl
    rw [concat_eq_append, hlast]
    exact .inl ⟨later', hlog, rfl⟩

structure Kept (rt : IndexRuntime) : Prop where
  idle : rt.flight = none → rt.reserved = none ∧ rt.landed = none
  flying : rt.flight ≠ none → ∃ head tail, rt.generations.rows = head :: tail ∧
    rt.reserved = some head.generation ∧ head.reads ≠ .fresh ∧ head.documents = []
  claims : ∀ before batch later, rt.log = before ++ .claimed batch :: later →
    Repaired later batch ∨ Coming rt later batch
  older : ∀ head tail, rt.generations.rows = head :: tail → ∀ row ∈ tail, row.reads = .fresh →
    rt.flight ≠ none ∧ row ∉ tail.tail

namespace Kept

theorem nothingLost (h : Kept rt) : NothingLost rt := by
  intro newest hlatest hfresh before batch later hlog
  rcases h.claims before batch later hlog with hrepaired | hcoming
  · exact hrepaired
  · unfold Coming at hcoming
    split at hcoming
    · rename_i request hflight
      obtain ⟨head, tail, hrows, -, hreads, -⟩ := h.flying (by rw [hflight]; simp)
      rw [Generations.latest_eq hrows] at hlatest
      cases hlatest
      exact absurd hfresh hreads
    · exact absurd hfresh (hcoming newest hlatest).1

theorem freshBehindFlight (h : Kept rt) : FreshBehindFlight rt := by
  intro row hrow hfresh newer hnewer hlt
  cases hrows : rt.generations.rows with
  | nil =>
    rw [hrows] at hrow
    cases hrow
  | cons head tail =>
    rw [hrows] at hrow hnewer
    have hle : ∀ other ∈ head :: tail, other.generation ≤ head.generation := by
      intro other hother
      rcases mem_cons.mp hother with rfl | hother
      · exact Nat.le_refl _
      · exact Nat.le_of_lt (Generations.older_lt hrows hother)
    rcases mem_cons.mp hrow with rfl | htail
    · exact absurd hlt (Nat.not_lt.mpr (hle newer hnewer))
    · obtain ⟨hflight, hsecond⟩ := h.older head tail hrows row htail hfresh
      obtain ⟨head', tail', hrows', hreserved, hreads, -⟩ := h.flying hflight
      obtain ⟨rfl, rfl⟩ := List.cons.inj (hrows.symm.trans hrows')
      have hnewest : newer = head := by
        rcases mem_cons.mp hnewer with rfl | hmem
        · rfl
        · obtain ⟨second, older, rfl⟩ := exists_cons_of_ne_nil (ne_nil_of_mem htail)
          have hrow : row = second := (mem_cons.mp htail).resolve_right hsecond
          have horder := rt.generations.newestFirst
          rw [hrows, hrow.symm] at horder
          rw [← hrow] at hmem
          rcases mem_cons.mp hmem with rfl | hmem
          · exact absurd hlt (Nat.lt_irrefl _)
          · exact absurd hlt (Nat.not_lt_of_lt ((pairwise_cons.mp
              (pairwise_cons.mp horder).2).1 newer hmem))
      rw [hnewest]
      exact ⟨hreads, isSome_iff_ne_none.mpr hflight, hreserved⟩

theorem watch (h : Kept rt) (watcher : Option WatchBatch) : Kept { rt with watcher := watcher } :=
  ⟨h.idle, h.flying, h.claims, h.older⟩

theorem idle_of_busy (h : rt.busy = false) : rt.flight = none :=
  isSome_eq_false_iff.mp h |> isNone_iff_eq_none.mp

theorem older_of_idle (h : Kept rt) (hidle : rt.flight = none) :
    ∀ row ∈ rt.generations.rows.tail, row.reads ≠ .fresh := by
  intro row hrow hfresh
  obtain ⟨head, hrows⟩ : ∃ head, rt.generations.rows = head :: rt.generations.rows.tail := by
    cases hrows : rt.generations.rows with
    | nil =>
      rw [hrows] at hrow
      cases hrow
    | cons head tail => exact ⟨head, rfl⟩
  exact (h.older head _ hrows row hrow hfresh).1 hidle

theorem notified (h : Kept rt) (notification : Notification) :
    Kept (rt.apply (.notified notification)) := h.watch _

theorem lands (h : Kept rt) (outcome : Outcome) : Kept (rt.apply (.lands outcome)) := by
  simp only [apply]
  split
  · rename_i hbusy
    have hflight : rt.flight ≠ none := by
      rw [Bool.and_eq_true] at hbusy
      exact isSome_iff_ne_none.mp hbusy.1
    exact ⟨fun hidle => absurd hidle hflight, h.flying, h.claims, h.older⟩
  · exact h

/-- A run starts, with a request that covers every claimed batch that is not repaired yet. -/
theorem of_started {request : ProjectRequest}
    (hfresh : ∀ row ∈ rt.generations.rows.tail, row.reads ≠ .fresh)
    (hclaims : ∀ before batch later, rt.log = before ++ .claimed batch :: later →
      Repaired later batch ∨ request.Covers batch) :
    Kept (started rt task request) where
  idle hflight := by cases hflight
  flying _ := ⟨Generations.reservation rt.generations.next, rt.generations.rows, rfl, rfl,
    by simp [Generations.reservation, Generation.reads], rfl⟩
  claims before batch later hlog := by
    rcases claim_snoc hlog with ⟨later', hlog', rfl⟩ | ⟨hevent, -, -⟩
    · rcases hclaims before batch later' hlog' with hrepaired | hcovers
      · exact .inl (hrepaired.append _)
      · exact .inr ⟨hcovers, later', _, [], rfl, rfl⟩
    · cases hevent
  older head tail hrows row hrow hreads := by
    obtain ⟨-, rfl⟩ := List.cons.inj hrows
    exact ⟨by simp [started], fun htail => hfresh row htail hreads⟩

/-- What is owed to the claims before an idle moment: the next request is a full one. -/
theorem covers_of_idle (h : Kept rt) (hidle : rt.flight = none) (changed : List Path)
    (fileSetMoved : Bool) (before : List IndexEvent) (batch : WatchBatch) (later : List IndexEvent)
    (hlog : rt.log = before ++ .claimed batch :: later) :
    Repaired later batch ∨ (requestAt rt changed fileSetMoved).Covers batch := by
  refine (h.claims before batch later hlog).imp_right fun hcoming => .inl ?_
  unfold Coming at hcoming
  rw [hidle] at hcoming
  unfold ProjectRequest.full requestAt
  cases hlatest : rt.generations.latest with
  | none => simp
  | some newest =>
    have hdocuments := (hcoming newest hlatest).2
    simp [hdocuments]

theorem start (h : Kept rt)
    (hstart : rt.startIndexRun env task changed fileSetMoved = .ok rt') : Kept rt' := by
  obtain ⟨hbusy, rfl⟩ := startIndexRun_ok hstart
  have hidle := idle_of_busy hbusy
  exact of_started (h.older_of_idle hidle) (h.covers_of_idle hidle changed fileSetMoved)

theorem claimed_reads (h : Kept rt) (hidle : rt.flight = none) (batch : WatchBatch) :
    ∀ row ∈ (claimed rt batch).generations.rows, row.reads ≠ .fresh := by
  intro row hrow
  unfold claimed at hrow
  cases hrows : rt.generations.rows with
  | nil =>
    have hlatest : rt.generations.latest = none := by
      rw [Generations.latest, hrows]
      rfl
    rw [hlatest] at hrow
    rw [hrows] at hrow
    cases hrow
  | cons head tail =>
    rw [Generations.latest_eq hrows] at hrow
    rw [Generations.markIndexGenerationStale_rows hrows] at hrow
    rcases mem_cons.mp hrow with rfl | hrow
    · simp [Generation.reads]
    · have holder := h.older_of_idle hidle
      rw [hrows] at holder
      exact holder row hrow

theorem claimed_documents (rt : IndexRuntime) (batch : WatchBatch) :
    (claimed rt batch).generations.latest.elim [] Generation.documents =
      rt.generations.latest.elim [] Generation.documents := by
  unfold claimed
  cases hrows : rt.generations.rows with
  | nil =>
    have hlatest : rt.generations.latest = none := by
      rw [Generations.latest, hrows]
      rfl
    simp [hlatest]
  | cons head tail =>
    have hlatest := Generations.latest_eq hrows
    simp only [hlatest]
    rw [Generations.latest_eq (Generations.markIndexGenerationStale_rows hrows)]
    rfl

theorem claim_start (h : Kept rt) (hidle : rt.flight = none) (batch : WatchBatch)
    {request : ProjectRequest}
    (hrequest : request = requestAt (claimed rt batch) changed fileSetMoved)
    (hcovers : request.Covers batch) : Kept (started (claimed rt batch) task request) := by
  refine of_started (fun row hrow => h.claimed_reads hidle batch row (mem_of_mem_tail hrow))
    fun before other later hlog => ?_
  rcases claim_snoc hlog with ⟨later', hlog', rfl⟩ | ⟨hevent, -, -⟩
  · have hbefore := h.covers_of_idle hidle changed fileSetMoved before other later' hlog'
    unfold requestAt at hbefore hrequest
    rw [claimed_documents] at hrequest
    rw [← hrequest] at hbefore
    exact hbefore.imp_left fun hrepaired => hrepaired.append _
  · obtain rfl := IndexEvent.claimed.inj hevent
    exact .inr hcovers

theorem sealed_generation_reads {generation : ℕ} {state : GenerationState} {graph : ProjectGraph}
    {edges : List EdgeRow} (row : Generation) (hrow : row.generation = generation) :
    (Generations.sealRow generation state graph edges row).reads = state ∧
      (Generations.sealRow generation state graph edges row).documents =
        graph.documents.foldl insertDocument row.documents := by
  unfold Generations.sealRow
  rw [if_pos hrow]
  exact ⟨if_pos rfl, rfl⟩

theorem of_idle (hflight : rt.flight = none) (hreserved : rt.reserved = none)
    (hlanded : rt.landed = none) {head : Generation} {tail : List Generation}
    (hrows : rt.generations.rows = head :: tail)
    (hclaims : ∀ before batch later, rt.log = before ++ .claimed batch :: later →
      Repaired later batch ∨ head.reads ≠ .fresh ∧ head.documents = [])
    (holder : ∀ row ∈ tail, row.reads ≠ .fresh) : Kept rt where
  idle _ := ⟨hreserved, hlanded⟩
  flying h := absurd hflight h
  claims before batch later hlog := by
    refine (hclaims before batch later hlog).imp_right fun hhead => ?_
    unfold Coming
    rw [hflight]
    intro newest hnewest
    rw [Generations.latest_eq hrows] at hnewest
    cases hnewest
    exact hhead
  older head' tail' hrows' row hrow hfresh := by
    obtain ⟨-, rfl⟩ := List.cons.inj (hrows.symm.trans hrows')
    exact absurd hfresh (holder row hrow)

/-- The claims before a landed answer: repaired already, or covered by the run that answered. -/
theorem claims_of_flight (h : Kept rt) (hflight : rt.flight ≠ none) {generation : ℕ}
    (hreserved : rt.reserved = some generation) (before : List IndexEvent) (batch : WatchBatch)
    (later : List IndexEvent) (hlog : rt.log = before ++ .claimed batch :: later) :
    Repaired later batch ∨ Repaired (later ++ [.answered generation]) batch := by
  refine (h.claims before batch later hlog).imp_right fun hcoming => ?_
  obtain ⟨request, hrequest⟩ := ne_none_iff_exists'.mp hflight
  unfold Coming at hcoming
  rw [hrequest] at hcoming
  obtain ⟨hcovers, first, number, after, rfl, hnumber⟩ := hcoming
  obtain rfl := mem_unique hreserved hnumber
  exact ⟨first, _, request, after ++ [.answered generation], by simp,
    mem_append_right _ (mem_singleton.mpr rfl), hcovers⟩

theorem sealAnswer (h : Kept rt) (hflight : rt.flight ≠ none) {outcome : Outcome}
    (hseals : SealsOver env rt outcome) : Kept (rt.takeAnswer.sealIndexAnswer env outcome) := by
  obtain ⟨head, tail, hrows, hreserved, hreads, hdocuments⟩ := h.flying hflight
  have hwrites : ∀ graph, cancelIndexOutcome (!taskLive env rt.runTask) outcome = .ok graph →
      outcome = .ok graph := by
    intro graph hok
    unfold cancelIndexOutcome at hok
    split at hok
    · cases hok
    · exact hok
  unfold sealIndexAnswer takeAnswer
  simp only [hreserved]
  generalize cancelIndexOutcome (!taskLive env rt.runTask) outcome = settled at hwrites ⊢
  -- A refused seal leaves the rows, so nothing may read as fresh; a written one ages those behind
  -- it.
  have hrefused (hnofresh : ∀ row ∈ rt.generations.rows, row.reads ≠ .fresh) :
      Kept { rt with flight := none, landed := none, reserved := none, runTask := none } := by
    refine of_idle rfl rfl rfl hrows (fun before batch later hlog => ?_) fun row hrow => ?_
    · exact .inr ⟨hreads, hdocuments⟩
    · exact hnofresh row (hrows ▸ mem_cons_of_mem _ hrow)
  have hbehind : ∀ tail' : List Generation,
      (∀ row ∈ tail', row.reads = .fresh → row ∈ tail.tail) → ∀ row ∈ tail', row.reads ≠ .fresh :=
    fun tail' htail' row hrow hfresh => by
      have hold := htail' row hrow hfresh
      exact (h.older head tail hrows row (mem_of_mem_tail hold) hfresh).2 hold
  have hwritten {policy : CarryPolicy} {state : GenerationState} {graph : ProjectGraph}
      (hedges : env.sealing = true → (∃ row ∈ rt.generations.rows, row.reads = .fresh) →
        ∀ edge ∈ graph.edges, (writeEdge edge).isSome = true)
      (hnone : (if env.sealing = true then
        rt.generations.sealIndexGeneration head.generation policy state graph else none) = none) :
      ∀ row ∈ rt.generations.rows, row.reads ≠ .fresh := by
    intro row hrow hfresh
    have hsealing := (hseals ⟨row, hrow, hfresh⟩).1
    have hsome := @Generations.sealIndexGeneration_isSome rt.generations
      head.generation state _ policy
      (hedges hsealing ⟨row, hrow, hfresh⟩)
    rw [if_pos hsealing] at hnone
    rw [hnone] at hsome
    cases hsome
  unfold sealIndexRun
  cases settled with
  | error cause =>
    dsimp only
    split
    · rename_i hnone
      refine hrefused (hwritten ?_ hnone)
      exact fun _ _ _ h => nomatch h
    · rename_i table cause' hsome hcause
      split at hsome
      · obtain ⟨tail', hrows', htail'⟩ := Generations.sealIndexGeneration_rows hrows hsome
        obtain ⟨hstate, hempty⟩ := sealed_generation_reads
          head rfl
        refine of_idle rfl rfl rfl hrows' (fun before batch later hlog => .inr ⟨?_, ?_⟩)
          (hbehind tail' htail')
        · rw [hstate]
          simp
        · rw [hempty, hdocuments]
          rfl
      · cases hsome
    · rename_i hok
      cases hok
  | ok graph =>
    dsimp only
    split
    · rename_i hnone
      exact hrefused (hwritten (fun _ hfresh => (hseals hfresh).2 graph (hwrites graph rfl)) hnone)
    · rename_i hcause
      cases hcause
    · rename_i table graph' hsome hok
      split at hsome
      · obtain ⟨tail', hrows', htail'⟩ := Generations.sealIndexGeneration_rows hrows hsome
        refine of_idle rfl rfl rfl hrows' (fun before batch later hlog => .inl ?_)
          (hbehind tail' htail')
        rcases claim_snoc hlog with ⟨later', hlog', rfl⟩ | ⟨hevent, -, -⟩
        · exact (h.claims_of_flight hflight hreserved before batch later' hlog').elim
            (fun hrepaired => hrepaired.append _) id
        · cases hevent
      · cases hsome

theorem flight_of_landed (h : Kept rt) {outcome : Outcome} (hlanded : rt.landed = some outcome) :
    rt.flight ≠ none := fun hidle => by
  rw [(h.idle hidle).2] at hlanded
  cases hlanded

theorem pumpOwed (h : Kept rt) (hdrops : DropsNothing rt (.pumpOwed env)) :
    Kept (rt.pumpIndexOwed env) := by
  unfold pumpIndexOwed
  split
  · rename_i outcome hlanded
    exact h.sealAnswer (h.flight_of_landed hlanded) (hdrops outcome hlanded)
  · exact h

theorem covers_repair (rt : IndexRuntime) (batch : WatchBatch) :
    (requestAt rt (repairPaths batch) batch.fileSetMoved).Covers batch := by
  unfold ProjectRequest.Covers ProjectRequest.full requestAt repairPaths
  cases hfull : batch.needsFullRebuild with
  | true => simp
  | false => exact .inr ⟨rfl, fun path hpath => by simpa using hpath⟩

theorem quiet_or_loud (rt : IndexRuntime) :
    (∀ batch, rt.watcher = some batch → batch.isQuiet = true) ∨
      ∃ batch, rt.watcher = some batch ∧ batch.isQuiet = false := by
  cases hwatcher : rt.watcher with
  | none => exact .inl fun _ h => nomatch h
  | some batch =>
    cases hquiet : batch.isQuiet with
    | true => exact .inl fun other hother => by rwa [← some.inj hother]
    | false => exact .inr ⟨batch, rfl, hquiet⟩

theorem claimed_starts (batch : WatchBatch) (h : Starts env rt task) :
    Starts env (claimed rt batch) task :=
  ⟨h.markLatest, h.mark, h.live, h.idle, h.root, h.latest, h.graph, h.reserve⟩

theorem pump (h : Kept rt) (hdrops : DropsNothing rt (.pump env)) : Kept (rt.pumpIndex env) := by
  unfold pumpIndex
  split
  · rename_i outcome hlanded
    exact h.sealAnswer (h.flight_of_landed hlanded) (hdrops.1 outcome hlanded)
  · rename_i hlanded
    split
    · exact h
    · rename_i hbusy
      have hidle := idle_of_busy (eq_false_of_ne_true hbusy)
      split
      · rcases quiet_or_loud rt with hquiet | ⟨batch, hwatcher, hloud⟩
        · obtain ⟨watcher, htake⟩ := takeIndexWatchBatch_of_quiet hquiet
          rw [htake]
          exact h.watch watcher
        · have hstarts := hdrops.2 hlanded (eq_false_of_ne_true hbusy) batch hwatcher hloud
          rw [takeIndexWatchBatch_of_marks hwatcher hloud hstarts.markLatest hstarts.mark]
          dsimp only
          rw [startIndexRun_of_starts (claimed_starts batch hstarts)]
          exact h.claim_start hidle batch rfl (covers_repair _ batch)
      · exact h

theorem covers_init (hkeeps : KeepsBatch rt batch changed) :
    (requestAt (claimed rt batch) (if changed.isEmpty then batch.paths else changed)
      batch.fileSetMoved).Covers batch := by
  unfold ProjectRequest.Covers ProjectRequest.full requestAt
  rw [claimed_documents]
  rcases hkeeps with hmoved | hdocuments | ⟨rfl, hmissed⟩ | ⟨hchanged, hmissed, hpaths, hall⟩
  · simp [hmoved]
  · simp [hdocuments]
  · cases hpaths : batch.paths with
    | nil => simp
    | cons path paths =>
      cases hmoved : batch.fileSetMoved with
      | true => simp
      | false =>
        have hnot : batch.missed = false := eq_false_of_ne_true fun h => by
          rw [hmissed h] at hpaths
          cases hpaths
        exact .inr ⟨by simp [WatchBatch.needsFullRebuild, hnot, hmoved, hpaths], by simp⟩
  · cases hmoved : batch.fileSetMoved with
    | true => simp
    | false =>
      refine .inr ⟨by simp [WatchBatch.needsFullRebuild, hmissed, hmoved, hpaths], ?_⟩
      rw [if_neg (by simpa using hchanged)]
      exact hall

theorem init (h : Kept rt) (hdrops : DropsNothing rt (.init env task changed)) :
    Kept (rt.projectInit env task changed).1 := by
  unfold projectInit
  rcases quiet_or_loud rt with hquiet | ⟨batch, hwatcher, hloud⟩
  · obtain ⟨watcher, htake⟩ := takeIndexWatchBatch_of_quiet hquiet
    rw [htake]
    dsimp only
    split
    · rename_i hstart
      exact (h.watch watcher).start hstart
    · exact h.watch watcher
  · obtain ⟨hstarts, hkeeps⟩ := hdrops batch hwatcher hloud
    rw [takeIndexWatchBatch_of_marks hwatcher hloud hstarts.markLatest hstarts.mark]
    dsimp only
    rw [startIndexRun_of_starts (claimed_starts batch hstarts)]
    exact h.claim_start (idle_of_busy hstarts.idle) batch rfl (covers_init hkeeps)

theorem reindex (h : Kept rt) {outcome : Outcome}
    (hdrops : DropsNothing rt (.reindex env outcome)) : Kept (rt.reindexFromWatch env outcome) := by
  unfold reindexFromWatch
  rcases quiet_or_loud rt with hquiet | ⟨batch, hwatcher, hloud⟩
  · obtain ⟨watcher, htake⟩ := takeIndexWatchBatch_of_quiet hquiet
    rw [htake]
    exact h.watch watcher
  · have hstarts := hdrops batch hwatcher hloud
    have hidle := idle_of_busy hstarts.idle
    rw [takeIndexWatchBatch_of_marks hwatcher hloud hstarts.markLatest hstarts.mark]
    dsimp only
    rw [startIndexRun_of_starts (claimed_starts batch hstarts)]
    refine (h.claim_start hidle batch rfl (covers_repair _ batch)).sealAnswer
      (by simp [started]) fun ⟨row, hrow, hfresh⟩ => ?_
    rcases mem_cons.mp hrow with rfl | hrow
    · simp [Generations.reservation, Generation.reads] at hfresh
    · exact absurd hfresh (h.claimed_reads hidle batch row hrow)

end Kept

/-! ## Runs -/

/-- Every step of the run drops nothing. -/
def DropsNothingOn (rt : IndexRuntime) : List Op → Prop
  | [] => True
  | op :: ops => DropsNothing rt op ∧ DropsNothingOn (rt.apply op) ops

theorem kept_apply (op : Op) (h : Kept rt) (hdrops : DropsNothing rt op) : Kept (rt.apply op) := by
  cases op with
  | notified notification => exact h.notified notification
  | init env task changed => exact h.init hdrops
  | lands outcome => exact h.lands outcome
  | pump env => exact h.pump hdrops
  | pumpOwed env => exact h.pumpOwed hdrops
  | reindex env outcome => exact h.reindex hdrops

theorem kept_run (ops : List Op) :
    ∀ rt, Kept rt → DropsNothingOn rt ops → Kept (rt.run ops) := by
  induction ops with
  | nil => exact fun _ h _ => h
  | cons op ops ih => exact fun rt h hdrops => ih _ (kept_apply op h hdrops.1) hdrops.2

theorem kept_opened {generations : Generations} (h : OnlyNewestFresh (opened generations)) :
    Kept (opened generations) where
  idle _ := ⟨rfl, rfl⟩
  flying h := absurd rfl h
  claims before batch later hlog := by
    cases before <;> cases hlog
  older head tail hrows row hrow hfresh := by
    have hnewest := h row (hrows ▸ mem_cons_of_mem _ hrow) hfresh
    rw [Generations.latest_eq hrows] at hnewest
    have hlt := Generations.older_lt hrows hrow
    rw [some.inj hnewest] at hlt
    exact absurd hlt (Nat.lt_irrefl _)

/-- In every run that drops no batch it claims, whatever the watcher reports, the requests ask, the
runs answer and the store refuses: a newest generation that reads fresh has lost nothing, and a
fresh generation is the newest but for the reserved row of the run in flight. -/
theorem index_runs_lose_nothing (generations : Generations)
    (hopened : OnlyNewestFresh (opened generations)) (ops : List Op)
    (hdrops : DropsNothingOn (opened generations) ops) :
    NothingLost ((opened generations).run ops) ∧ FreshBehindFlight ((opened generations).run ops) :=
  have hkept := kept_run ops _ (kept_opened hopened) hdrops
  ⟨hkept.nothingLost, hkept.freshBehindFlight⟩

/-- A request that claims a batch and is refused, with no run in flight, leaves no generation that
reads fresh: the mark stays behind. -/
theorem marked_of_refused_init (generations : Generations)
    (hopened : OnlyNewestFresh (opened generations)) (ops : List Op)
    (hdrops : DropsNothingOn (opened generations) ops)
    (hidle : ((opened generations).run ops).flight = none)
    (hwatcher : ((opened generations).run ops).watcher = some batch)
    (hloud : batch.isQuiet = false) (hlatest : env.markLatest = true) (hmark : env.mark = true)
    {refusal : IndexRefusal}
    (hrefused : (((opened generations).run ops).projectInit env task changed).2 = .error refusal) :
    ∀ row ∈ (((opened generations).run ops).projectInit env task changed).1.generations.rows,
      row.reads ≠ .fresh := by
  have hkept := kept_run ops _ (kept_opened hopened) hdrops
  generalize (opened generations).run ops = rt at *
  unfold projectInit at hrefused ⊢
  rw [takeIndexWatchBatch_of_marks hwatcher hloud hlatest hmark] at hrefused ⊢
  dsimp only at hrefused ⊢
  split at hrefused
  · cases hrefused
  · exact hkept.claimed_reads hidle batch

/-- What a step finds where nothing fails. -/
def allWell : Surroundings := ⟨true, true, true, true, true, true, true, true, fun _ => true⟩

def cutGraph : ProjectGraph := ⟨[], .complete, [], [], [["a.rs"]]⟩

/-- A file changes, its batch starts a repair, and the repair answers. -/
theorem index_runs_lose_nothing_repair :
    let ops := [Op.init allWell none [], .lands (.ok cutGraph), .pump allWell,
      .notified (.event false .modified [⟨some ["a.rs"], false⟩]), .pump allWell,
      .lands (.ok cutGraph), .pump allWell]
    NothingLost ((opened ⟨[], .nil⟩).run ops) ∧
      FreshBehindFlight ((opened ⟨[], .nil⟩).run ops) := by
  intro ops
  refine index_runs_lose_nothing ⟨[], .nil⟩ (fun _ h => nomatch h) ops ?_
  have hseals (rt : IndexRuntime) (outcome : Outcome)
      (hlanded : some outcome = some (.ok cutGraph)) : SealsOver allWell rt outcome := fun _ =>
    ⟨rfl, fun graph hgraph edge hedge => by
      rw [some.inj hlanded] at hgraph
      cases hgraph
      cases hedge⟩
  have hstarts (rt : IndexRuntime) (hidle : rt.busy = false) : Starts allWell rt none :=
    ⟨rfl, rfl, rfl, hidle, rfl, rfl, rfl, rfl⟩
  refine ⟨fun _ h => ?_, trivial, ⟨fun _ h => hseals _ _ h.symm, fun h => ?_⟩, trivial,
    ⟨fun _ h => ?_, fun _ hidle _ _ _ => hstarts _ hidle⟩, trivial,
    ⟨fun _ h => hseals _ _ h.symm, fun h => ?_⟩, trivial⟩
  all_goals cases h

/-- A request that is refused while a run is in flight drops the batch it claimed, and the run in
flight reads fresh over it; while the run was in flight the generation before it read fresh. -/
theorem batch_lost_in_flight :
    let before := [Op.init allWell none [], .lands (.ok cutGraph), .pump allWell,
      .init allWell none []]
    let after := [Op.notified (.event false .modified [⟨some ["a.rs"], false⟩]),
      .init allWell none [], .lands (.ok cutGraph), .pump allWell]
    ¬ NothingLost ((opened ⟨[], .nil⟩).run (before ++ after)) ∧
      ¬ OnlyNewestFresh ((opened ⟨[], .nil⟩).run before) := by
  intro before after
  constructor
  · intro hnothing
    have hlog : ((opened ⟨[], .nil⟩).run (before ++ after)).log =
        [.started 1 ⟨[], false, []⟩, .answered 1, .started 2 ⟨[], false, [["a.rs"]]⟩] ++
          .claimed ⟨[["a.rs"]], false, false⟩ :: [.answered 2] := by decide
    obtain ⟨first, generation, request, after, hlater, hanswered, -⟩ :=
      hnothing _ rfl (by decide) _ _ _ hlog
    have hlength := congrArg List.length hlater
    have hpos := length_pos_of_mem hanswered
    simp at hlength
    omega
  · intro honly
    have hrow := honly
      ⟨1, .fresh, .complete, [], true, [], [["a.rs"]]⟩ (by decide) (by decide)
    exact absurd hrow (by decide)

end Rivect.Index
