import Rivect.TaskStore.Listing

/-! # Pages of one snapshot

A reader follows the cursor from the first page to the last while writers call the store. The
pages show one state exactly when no write between them changes the list unseen by the
generation.
-/

namespace Rivect

open Lib List

namespace TaskStore

variable {s s' : TaskStore} {sessionId : SessionId} {α : Type} {item : Item α}

/-! ## One page -/

/-- What a page that is served says of the state it was read in. -/
structure Served (s : TaskStore) (item : Item α) (sessionId : SessionId) (limit : ℕ)
    (cursor : Option (ℕ × ℕ)) (page : Page α) : Prop where
  generation : ∀ c ∈ cursor, c.1 = s.sessionGeneration sessionId
  items : page.items = ((s.listing item sessionId).drop (cursor.elim 0 Prod.snd)).take limit
  next : page.nextCursor =
    if limit < ((s.listing item sessionId).drop (cursor.elim 0 Prod.snd)).length then
      some (s.sessionGeneration sessionId, cursor.elim 0 Prod.snd + limit)
    else none

theorem sessionPage_served {limit : ℕ} {cursor : Option (ℕ × ℕ)} {page : Page α}
    (h : s.sessionPage item sessionId limit cursor = .ok page) :
    Served s item sessionId limit cursor page := by
  have hw : Within Fails (Served s item sessionId limit cursor)
      (s.sessionPage item sessionId limit cursor) := by
    apply Within.bind (P := fun context => (∀ c ∈ cursor, c.1 = s.sessionGeneration sessionId) ∧
      context = (s.sessionGeneration sessionId, cursor.elim 0 Prod.snd))
    · apply Within.guard
      intro hgeneration
      apply Within.skip
      intro _
      exact ⟨fun c hc => hgeneration c.1 (Option.mem_map_of_mem _ hc), rfl⟩
    · rintro ⟨generation, offset⟩ ⟨hgeneration, hcontext⟩
      obtain ⟨rfl, rfl⟩ := Prod.mk.inj hcontext
      apply Within.bind (P := fun next => next = cursor.elim 0 Prod.snd + limit)
      · apply Within.skip
        intro _
        rfl
      · rintro next rfl
        refine ⟨hgeneration, ?_, ?_⟩
        · simp only [listing, ← map_drop, ← map_take, take_take]
          rw [Nat.min_eq_left (Nat.le_succ _)]
        · have hlen : (limit < (((s.sessionRows sessionId).drop (cursor.elim 0 Prod.snd)).take
              (limit + 1)).length) ↔
              limit < ((s.listing item sessionId).drop (cursor.elim 0 Prod.snd)).length := by
            simp only [listing, length_take, length_drop, length_map]
            omega
          exact if_congr hlen rfl rfl
  exact hw.of_ok h

end TaskStore

namespace Database

variable {codec : Codec} {db : Database} {sessionId : SessionId} {α : Type}
  {item : TaskStore.Item α}

/-! ## A walk through the pages -/

inductive Leaf where
  | call (call : Call)
  | page (limit : ℕ)

/-- The pages from a cursor to the end, none of them refused, and the calls between them. -/
inductive Walk (codec : Codec) (item : TaskStore.Item α) (sessionId : SessionId) :
    Database → Option (ℕ × ℕ) → List Leaf → List α → Prop
  | last {db : Database} {cursor : Option (ℕ × ℕ)} {limit : ℕ} {page : Page α} :
      db.tables.sessionPage item sessionId limit cursor = .ok page → page.nextCursor = none →
      Walk codec item sessionId db cursor [.page limit] page.items
  | more {db : Database} {cursor : Option (ℕ × ℕ)} {limit : ℕ} {page : Page α}
      {next : ℕ × ℕ} {rest : List Leaf} {items : List α} :
      db.tables.sessionPage item sessionId limit cursor = .ok page →
      page.nextCursor = some next → Walk codec item sessionId db (some next) rest items →
      Walk codec item sessionId db cursor (.page limit :: rest) (page.items ++ items)
  | call {db : Database} {cursor : Option (ℕ × ℕ)} {call : Call} {rest : List Leaf}
      {items : List α} :
      Walk codec item sessionId (db.perform codec call).1 cursor rest items →
      Walk codec item sessionId db cursor (.call call :: rest) items

/-- Every call of the walk meets the condition in the state it comes to. -/
def EachCall (codec : Codec) (P : Database → Call → Prop) : Database → List Leaf → Prop
  | _, [] => True
  | db, .page _ :: rest => EachCall codec P db rest
  | db, .call call :: rest => P db call ∧ EachCall codec P (db.perform codec call).1 rest

/-- The call leaves the list alone. -/
def Unlisted (codec : Codec) (item : TaskStore.Item α) (sessionId : SessionId) (db : Database)
    (call : Call) : Prop :=
  (db.perform codec call).1.tables.listing item sessionId = db.tables.listing item sessionId

/-- The call meets the condition on it in the tables it comes to. -/
def Stamps (sessionId : SessionId) (db : Database) : Call → Prop
  | .tables op => TaskStore.Stamps db.tables sessionId op
  | _ => True

theorem perform_grows (db : Database) (call : Call) :
    TaskStore.Evolves db.tables (db.perform codec call).1.tables := by
  cases call with
  | tables op => exact TaskStore.perform_evolves db.tables op
  | ledger op => exact .refl db.tables
  | forceCompaction sessionId taskId checkpointId =>
    obtain ⟨events, hgrow, hframe⟩ := forceCompaction_frame codec db sessionId taskId
      checkpointId
    change TaskStore.Evolves _ (db.forceCompaction codec sessionId taskId checkpointId).1.tables
    rw [hframe]
    exact .of_events rfl rfl rfl hgrow

/-- A stamped call leaves the list alone or raises the generation. -/
theorem perform_stamped (hrows : TaskStore.Rows db.tables) {call : Call}
    (h : Stamps sessionId db call) : Unlisted codec item sessionId db call ∨
      db.tables.sessionGeneration sessionId <
        (db.perform codec call).1.tables.sessionGeneration sessionId := by
  cases call with
  | tables op => exact TaskStore.stamps_listing hrows h
  | ledger op => exact .inl rfl
  | forceCompaction session taskId checkpointId =>
    left
    obtain ⟨events, -, hframe⟩ := forceCompaction_frame codec db session taskId checkpointId
    change (db.forceCompaction codec session taskId checkpointId).1.tables.listing _ _ = _
    rw [hframe]
    rfl

/-- The last page checks the cursor, so the generation has not passed it before. -/
theorem Walk.generation_le {cursor : Option (ℕ × ℕ)} {leaves : List Leaf} {items : List α}
    (h : Walk codec item sessionId db cursor leaves items) :
    ∀ c ∈ cursor, db.tables.sessionGeneration sessionId ≤ c.1 := by
  induction h with
  | last hpage => exact fun c hc => ((TaskStore.sessionPage_served hpage).generation c hc).ge
  | more hpage => exact fun c hc => ((TaskStore.sessionPage_served hpage).generation c hc).ge
  | call _ ih =>
    exact fun c hc => (TaskStore.generation_mono (perform_grows _ _)).trans (ih c hc)

theorem page_append {s : TaskStore} {limit : ℕ} {cursor : Option (ℕ × ℕ)} {page : Page α}
    (h : TaskStore.Served s item sessionId limit cursor page) :
    page.nextCursor = none ∧
        page.items = (s.listing item sessionId).drop (cursor.elim 0 Prod.snd) ∨
      ∃ next, page.nextCursor = some (s.sessionGeneration sessionId, next) ∧
        page.items ++ (s.listing item sessionId).drop next =
          (s.listing item sessionId).drop (cursor.elim 0 Prod.snd) := by
  have hnext := h.next
  split at hnext
  · refine .inr ⟨_, hnext, ?_⟩
    rw [h.items, ← drop_drop, take_append_drop]
  · next hle =>
    refine .inl ⟨hnext, ?_⟩
    rw [h.items, take_of_length_le (Nat.le_of_not_lt hle)]

/-- The rest of a walk reads the rest of the list, if every change of the list is stamped. -/
theorem Walk.reads_rest {cursor : Option (ℕ × ℕ)} {leaves : List Leaf} {items : List α}
    (h : Walk codec item sessionId db cursor leaves items)
    (hcursor : ∀ c ∈ cursor, c.1 ≤ db.tables.sessionGeneration sessionId)
    (hpages : cursor = none → ∃ limit rest, leaves = .page limit :: rest)
    (hrows : TaskStore.Rows db.tables)
    (hcalls : EachCall codec (Stamps sessionId) db leaves) :
    items = (db.tables.listing item sessionId).drop (cursor.elim 0 Prod.snd) ∧
      EachCall codec (Unlisted codec item sessionId) db leaves := by
  induction h with
  | last hpage hnone =>
    rcases page_append (TaskStore.sessionPage_served hpage) with ⟨-, hitems⟩ | ⟨next, hnext, -⟩
    · exact ⟨hitems, trivial⟩
    · rw [hnone] at hnext
      cases hnext
  | @more db _ _ _ next rest items hpage hnext' hrest ih =>
    rcases page_append (TaskStore.sessionPage_served hpage) with ⟨hnone, -⟩ | ⟨offset, hnext, hitems⟩
    · rw [hnone] at hnext'
      cases hnext'
    · obtain rfl := Option.mem_unique hnext' hnext
      obtain ⟨hrest, hunlisted⟩ := ih (by simp) (by simp) hrows hcalls
      exact ⟨by rw [hrest]; exact hitems, hunlisted⟩
  | @call db cursor call rest items hrest ih =>
    obtain ⟨hcall, hcalls⟩ := hcalls
    obtain ⟨c, rfl⟩ : ∃ c, cursor = some c := by
      cases cursor with
      | none =>
        obtain ⟨_, _, hpage⟩ := hpages rfl
        cases hpage
      | some c => exact ⟨c, rfl⟩
    have hle := hcursor c rfl
    have hbound := hrest.generation_le c rfl
    have hunlisted : Unlisted codec item sessionId db call :=
      (perform_stamped hrows hcall).resolve_right (by omega)
    obtain ⟨hitems, hrest'⟩ := ih
      (fun c' hc' => by
        obtain rfl := Option.some.inj hc'
        exact hle.trans (TaskStore.generation_mono (perform_grows db call)))
      (by simp) (hrows.evolves (perform_grows db call)) hcalls
    exact ⟨by rw [hitems, hunlisted], hunlisted, hrest'⟩

theorem rows_of_run {tasks : List String} {calls : List Call}
    (h : Run (Performs codec) (fresh tasks) calls db) : TaskStore.Rows db.tables := by
  apply h.invariant (I := fun db => TaskStore.Rows db.tables)
  · rintro db call _ hrows rfl
    exact hrows.evolves (perform_grows db call)
  · exact ⟨.nil, fun t => by simp [fresh, TaskStore.fresh]⟩

/-- From any reached state: the list has every task of the session once. If every call between
the pages is stamped in the state it comes to, the walk shows that list and no call changes it. -/
theorem page_walk {tasks : List String} {calls : List Call}
    (h : Run (Performs codec) (fresh tasks) calls db) {limit : ℕ} {rest : List Leaf}
    {items : List α} (hwalk : Walk codec item sessionId db none (.page limit :: rest) items) :
    TaskStore.ListsOnce db.tables sessionId ∧
      (EachCall codec (Stamps sessionId) db (.page limit :: rest) →
        items = db.tables.listing item sessionId ∧
          EachCall codec (Unlisted codec item sessionId) db (.page limit :: rest)) :=
  ⟨(rows_of_run h).lists sessionId, fun hstamps =>
    hwalk.reads_rest (by simp) (fun _ => ⟨_, _, rfl⟩) (rows_of_run h) hstamps⟩

/-! ## Two tasks below the session's greatest revision -/

def creates (taskId : String) : Call :=
  .tables (.createTask ⟨taskId⟩ (fun _ => "criterion") taskId
    ⟨⟨"session"⟩, "operator", "goal", [], []⟩)

def steers (taskId : String) (revision : ℕ) : Call :=
  .tables (.steerTask ⟨"session"⟩ ⟨taskId⟩ revision revision "shorter")

/-- The third task is at revision 3, the others at revision 1. -/
def three : List Call :=
  [creates "a", creates "b", creates "c", steers "c" 1, steers "c" 2]

def walked : List Leaf :=
  [.page 1, .call (steers "a" 1), .call (steers "b" 1), .page 1, .page 1]

/-- The first task before its steer beside the second one after its own. -/
theorem pages_of_no_state :
    ∃ items, Walk hexCodec TaskStore.statusItem ⟨"session"⟩ (after hexCodec [] three) none walked
        items ∧
      ∀ calls ∈ [[], [steers "a" 1], [steers "a" 1, steers "b" 1]],
        items ≠ (after hexCodec [] (three ++ calls)).tables.listing TaskStore.statusItem
          ⟨"session"⟩ := by
  refine ⟨_, .more rfl rfl (.call (.call (.more rfl rfl (.last rfl rfl)))), ?_⟩
  decide

def attempted : List Leaf :=
  [.page 2, .call (.tables (.planAttempt "x" ⟨"a"⟩ "read" "read")),
    .call (.tables (.setAttemptState "x" .unknown none)), .call (steers "c" 1), .page 2]

/-- An attempt of a running task and the stale steer of the last one leave the list alone. -/
theorem page_walk_attempt :
    ∃ items, TaskStore.ListsOnce (after hexCodec [] three).tables ⟨"session"⟩ ∧
      items = (after hexCodec [] three).tables.listing TaskStore.statusItem ⟨"session"⟩ ∧
      EachCall hexCodec (Unlisted hexCodec TaskStore.statusItem ⟨"session"⟩)
        (after hexCodec [] three) attempted := by
  have hrun : Run (Performs hexCodec) (fresh []) three (after hexCodec [] three) :=
    Run.of_foldl (fun (db : Database) (call : Call) => (db.perform hexCodec call).1) (fresh []) three
  obtain ⟨items, hwalk⟩ : ∃ items, Walk hexCodec TaskStore.statusItem ⟨"session"⟩
      (after hexCodec [] three) none attempted items :=
    ⟨_, .more rfl rfl (.call (.call (.call (.last rfl rfl))))⟩
  obtain ⟨honce, hshown⟩ := page_walk hrun hwalk
  refine ⟨items, honce, hshown ⟨.inr ?_, .inr ?_, .inl ?_, trivial⟩⟩
  · exact ⟨nofun, nofun, nofun, nofun⟩
  · refine ⟨nofun, nofun, nofun, ?_⟩
    rintro t row ⟨hrow, -⟩ ⟨a, ha, -, rfl, -⟩
    obtain rfl := mem_singleton.mp ha
    obtain rfl := Option.some.inj hrow
    exact ⟨nofun, rfl⟩
  · exact ⟨id, ⟨"c"⟩, _, rfl, ⟨rfl, rfl⟩, rfl, rfl⟩

end Database

end Rivect
