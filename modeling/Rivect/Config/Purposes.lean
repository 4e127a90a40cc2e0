import Rivect.Config.Assign

/-! # Moving purpose rows

How a cutover moves the rows of `models.purposes` from one name to another in the retained document,
after `rebind_purpose` of `src/config.rs`. A document is the table at its root.
-/

namespace Rivect.Config

open Lib List Option

abbrev Table := List (String × Item)

namespace Item

/-- The item with the entries of its table replaced. -/
def withEntries : Item → Table → Item
  | .inline _, entries => .inline entries
  | .table _, entries => .table entries
  | item, _ => item

def modifyEntries (f : Table → Table) (item : Item) : Item :=
  match item.asTableLike with
  | some entries => item.withEntries (f entries)
  | none => item

end Item

/-- The table under a key, rewritten in place. -/
def modifyTable (field : String) (f : Table → Table) (entries : Table) : Table :=
  entries.map fun e => if e.1 = field then (e.1, e.2.modifyEntries f) else e

def tableAt (entries : Table) (field : String) : Option Table :=
  (entry entries field).bind Item.asTableLike

def purposesOf (document : Table) : Option Table :=
  (tableAt document "models").bind fun models => tableAt models "purposes"

/-- The rows once the source's row has moved; a target that is there keeps its own row. -/
def moveRow (source target : String) (rows : Table) : Table :=
  if (entry rows target).isSome then rows.filter (·.1 ≠ source)
  else
    match entry rows source with
    | none => rows
    | some binding => rows.filter (·.1 ≠ source) ++ [(target, binding)]

def movePurposeTable (document : Table) (source target : String) : Table :=
  modifyTable "models" (modifyTable "purposes" (moveRow source target)) document

def purposeKey (name : String) : String := "models.purposes." ++ name

/-- Two rows under one name must bind alike. -/
def mergePurposes (name : String) (moved : PurposeDef) : Option Item → Except ConfigError Unit
  | none => .ok ()
  | some held => do
    let held ← purposeDef (purposeKey name) name held
    require (held = moved) (.resolve (purposeKey name) .conflictingPurposeDefinitions)

/-- The document after one move, where it binds the source. -/
def rebindPurpose (document : Table) (source target : String) :
    Except ConfigError (Option Table) :=
  match purposesOf document with
  | none => .ok none
  | some rows =>
    match entry rows source with
    | none => .ok none
    | some row => do
      let binding ← purposeDef (purposeKey source) source row
      mergePurposes target binding (entry rows target)
      .ok (some (if source ≠ target then movePurposeTable document source target else document))

/-- The moves that a copy of the document goes through, and the copy they leave. -/
def provenMoves (document : Table) :
    List (String × String) → Except ConfigError (List (String × String))
  | [] => .ok []
  | move :: rest => do
    let moved ← rebindPurpose document move.1 move.2
    match moved with
    | none => provenMoves document rest
    | some document => do
      let later ← provenMoves document rest
      .ok (move :: later)

/-- The moves applied to the document itself. -/
def applyMoves (document : Table) : List (String × String) → Except ConfigError Table
  | [] => .ok document
  | move :: rest => do
    let moved ← rebindPurpose document move.1 move.2
    applyMoves (moved.getD document) rest

/-! ## One move -/

theorem entry_map (f : String × Item → String × Item) (hf : ∀ e, (f e).1 = e.1)
    (entries : Table) (field : String) :
    entry (entries.map f) field = (entries.find? (·.1 = field)).map fun e => (f e).2 := by
  unfold entry
  rw [find?_map, Option.map_map]
  congr 1
  apply congrArg (fun p => List.find? p entries)
  funext e
  simp [hf]

theorem tableAt_modifyTable (field : String) (f : Table → Table) (entries : Table) :
    tableAt (modifyTable field f entries) field = (tableAt entries field).map f := by
  unfold tableAt modifyTable
  rw [entry_map _ (fun e => by split <;> rfl)]
  unfold entry
  cases hfind : entries.find? (·.1 = field) with
  | none => rfl
  | some e =>
    have hkey : e.1 = field := by simpa using find?_some hfind
    simp only [map_some, bind_some, hkey, if_true]
    cases e.2 <;> rfl

theorem purposesOf_move (document : Table) (source target : String) :
    purposesOf (movePurposeTable document source target) =
      (purposesOf document).map (moveRow source target) := by
  unfold purposesOf movePurposeTable
  rw [tableAt_modifyTable]
  cases tableAt document "models" with
  | none => rfl
  | some models =>
    simp only [map_some, bind_some]
    rw [tableAt_modifyTable]

theorem entry_filter (rows : Table) (source name : String) :
    entry (rows.filter (·.1 ≠ source)) name = if name = source then none else entry rows name := by
  unfold entry
  induction rows with
  | nil => simp
  | cons e rows ih =>
    by_cases hsource : e.1 = source
    · rw [filter_cons_of_neg (by simpa using hsource), ih]
      by_cases hname : name = source
      · rw [if_pos hname, if_pos hname]
      · have hne : ¬ e.1 = name := fun h => hname (h.symm.trans hsource)
        simp [hname, hne]
    · rw [filter_cons_of_pos (by simpa using hsource)]
      by_cases hname : e.1 = name
      · have hne : ¬ name = source := fun h => hsource (hname.trans h)
        simp [hname, hne]
      · simp only [find?_cons, hname, decide_false]
        exact ih

theorem entry_append (rows : Table) (target name : String) (binding : Item) :
    entry (rows ++ [(target, binding)]) name =
      (entry rows name).or (if target = name then some binding else none) := by
  unfold entry
  rw [find?_append]
  cases rows.find? (·.1 = name) with
  | some e => rfl
  | none =>
    by_cases h : target = name <;> simp [h]

theorem entry_moveRow {rows : Table} {source target : String} {binding : Item}
    (hsource : entry rows source = some binding) (hne : source ≠ target) (name : String) :
    entry (moveRow source target rows) name =
      if name = source then none
      else if name = target then some ((entry rows target).getD binding) else entry rows name := by
  unfold moveRow
  cases htarget : entry rows target with
  | some held =>
    rw [isSome_some, if_pos rfl, entry_filter]
    by_cases hname : name = source
    · rw [if_pos hname, if_pos hname]
    · rw [if_neg hname, if_neg hname]
      by_cases hto : name = target
      · rw [if_pos hto, hto, htarget]
        rfl
      · rw [if_neg hto]
  | none =>
    simp only [isSome_none, Bool.false_eq_true, if_false, hsource]
    rw [entry_append, entry_filter]
    by_cases hname : name = source
    · have hto : ¬ target = name := fun h => hne (hname.symm.trans h.symm)
      simp [hname, Ne.symm hne]
    · by_cases hto : name = target
      · simp [hto, htarget, Ne.symm hne]
      · simp [hname, hto, Ne.symm hto]

/-! ## The binding of a row -/

/-- Two computations answer alike, whatever they refuse with. -/
def AnswersAlike {α : Type} (x y : Except ConfigError α) : Prop :=
  ∀ a, x = .ok a ↔ y = .ok a

theorem AnswersAlike.bind {α β : Type} {x y : Except ConfigError α}
    {f g : α → Except ConfigError β} (h : AnswersAlike x y) (hf : ∀ a, AnswersAlike (f a) (g a)) :
    AnswersAlike (x >>= f) (y >>= g) := by
  intro b
  cases hx : x with
  | ok a =>
    rw [(h a).mp hx]
    exact hf a b
  | error e =>
    cases hy : y with
    | ok a =>
      rw [(h a).mpr hy] at hx
      cases hx
    | error e' => simp

theorem AnswersAlike.refl {α : Type} (x : Except ConfigError α) : AnswersAlike x x :=
  fun _ => Iff.rfl

theorem AnswersAlike.refused {α : Type} (e e' : ConfigError) :
    AnswersAlike (.error e : Except ConfigError α) (.error e') := by
  intro a
  simp

theorem AnswersAlike.found {α : Type} (o : Option α) (e e' : ConfigError) :
    AnswersAlike (found o e) (found o e') := by
  cases o with
  | none => exact .refused e e'
  | some a => exact .refl _

theorem AnswersAlike.require (c : Prop) [Decidable c] (e e' : ConfigError) :
    AnswersAlike (require c e) (require c e') := by
  by_cases h : c
  · rw [require_pos h, require_pos h]
    exact .refl _
  · rw [require_neg h, require_neg h]
    exact .refused e e'

theorem AnswersAlike.mapM {α β : Type} {f g : α → Except ConfigError β}
    (h : ∀ a, AnswersAlike (f a) (g a)) (l : List α) : AnswersAlike (l.mapM f) (l.mapM g) := by
  induction l with
  | nil => exact .refl _
  | cons a l ih =>
    rw [mapM_cons, mapM_cons]
    exact (h a).bind fun _ => ih.bind fun _ => .refl _

theorem AnswersAlike.foldlM {α β : Type} {f g : β → α → Except ConfigError β}
    (h : ∀ b a, AnswersAlike (f b a) (g b a)) (l : List α) (b : β) :
    AnswersAlike (l.foldlM f b) (l.foldlM g b) := by
  induction l generalizing b with
  | nil => exact .refl _
  | cons a l ih =>
    rw [foldlM_cons, foldlM_cons]
    exact (h b a).bind ih

theorem AnswersAlike.forM {α : Type} {f g : α → Except ConfigError PUnit}
    (h : ∀ a, AnswersAlike (f a) (g a)) (l : List α) : AnswersAlike (l.forM f) (l.forM g) := by
  induction l with
  | nil => exact .refl _
  | cons a l ih => exact (h a).bind fun _ => ih

theorem nameArray_alike (value : Item) (key key' : String) (notArray entryNotString : ConfigIssue) :
    AnswersAlike (nameArray value key notArray entryNotString)
      (nameArray value key' notArray entryNotString) :=
  (AnswersAlike.found _ _ _).bind fun items => .mapM (fun _ => .found _ _ _) items

section

variable (item : Item) (key key' : String)
include item key key'

theorem tableMode_alike {α : Type}
    {f g : Table → String → Except ConfigError α}
    (h : ∀ entries mode, AnswersAlike (f entries mode) (g entries mode)) :
    AnswersAlike (tableLike key item >>= fun entries => tomlMode entries key >>= f entries)
      (tableLike key' item >>= fun entries => tomlMode entries key' >>= g entries) :=
  (AnswersAlike.found _ _ _).bind fun _ => (AnswersAlike.found _ _ _).bind fun _ => h _ _

theorem modelAssign_alike :
    AnswersAlike (modelAssign item key) (modelAssign item key') := by
  refine tableMode_alike item key key' ?_
  intro entries mode
  split
  · exact .refl _
  · split
    · exact .refl _
    · exact (nameArray_alike _ _ _ _ _).bind fun _ => .refl _
  · exact (AnswersAlike.found _ _ _).bind fun _ => (AnswersAlike.found _ _ _).bind fun _ => .refl _
  · exact .refused _ _

theorem effortAssign_alike :
    AnswersAlike (effortAssign item key) (effortAssign item key') := by
  refine tableMode_alike item key key' ?_
  intro entries mode
  split
  · exact .refl _
  · exact .refl _
  · exact (AnswersAlike.found _ _ _).bind fun _ => (AnswersAlike.found _ _ _).bind fun _ => .refl _
  · exact .refused _ _

theorem chainEntry_alike :
    AnswersAlike (chainEntry key item) (chainEntry key' item) := by
  refine (AnswersAlike.found _ _ _).bind fun fields => ?_
  refine (AnswersAlike.forM (fun _ => .require _ _ _) fields).bind fun _ => ?_
  have hrest : AnswersAlike
      (found ((entry fields "connection").bind Item.asStr)
        (.schema (key ++ ".chain.connection") .fixedChainEntryMissingConnection) >>= fun connection =>
        found ((entry fields "model_id").bind Item.asStr)
          (.schema (key ++ ".chain.model_id") .fixedChainEntryMissingModelId) >>= fun modelId =>
        .ok (⟨connection, modelId⟩ : FixedModel))
      (found ((entry fields "connection").bind Item.asStr)
        (.schema (key' ++ ".chain.connection") .fixedChainEntryMissingConnection) >>= fun connection =>
        found ((entry fields "model_id").bind Item.asStr)
          (.schema (key' ++ ".chain.model_id") .fixedChainEntryMissingModelId) >>= fun modelId =>
        .ok (⟨connection, modelId⟩ : FixedModel)) :=
    (AnswersAlike.found _ _ _).bind fun _ => (AnswersAlike.found _ _ _).bind fun _ => .refl _
  cases entry fields "mode" with
  | none => exact hrest
  | some value =>
    exact (AnswersAlike.found _ _ _).bind fun _ => (AnswersAlike.require _ _ _).bind fun _ => hrest

theorem fallbackAssign_alike :
    AnswersAlike (fallbackAssign item key) (fallbackAssign item key') := by
  refine tableMode_alike item key key' ?_
  intro entries mode
  split
  · split
    · exact .refl _
    · refine (AnswersAlike.found _ _ _).bind fun items => ?_
      exact (AnswersAlike.mapM (fun item => chainEntry_alike item key key') items).bind
        fun _ => .refl _
  · exact .refl _
  · exact .refl _
  · exact .refused _ _

end

theorem purposeField_alike (key key' : String) (row : PurposeDef) (field : String × Item) :
    AnswersAlike (purposeField key row field) (purposeField key' row field) := by
  unfold purposeField
  split
  · exact (AnswersAlike.found _ _ _).bind fun _ => .refl _
  · exact (modelAssign_alike _ _ _).bind fun _ => .refl _
  · exact (effortAssign_alike _ _ _).bind fun _ => .refl _
  · exact (fallbackAssign_alike _ _ _).bind fun _ => .refl _
  · exact (nameArray_alike _ _ _ _ _).bind fun _ => .refl _
  · exact (nameArray_alike _ _ _ _ _).bind fun _ => .refl _
  · exact .refused _ _

/-- What a row binds does not depend on the name it is read under. -/
theorem purposeDef_alike (key key' name name' : String) (row : Item) :
    AnswersAlike (purposeDef key name row) (purposeDef key' name' row) :=
  (AnswersAlike.found _ _ _).bind fun fields => .foldlM (purposeField_alike key key') fields _

/-- Two rows that bind alike: they are one row, or they read as one definition. -/
def SameBinding (row row' : Item) : Prop :=
  row = row' ∨ ∃ binding, ∀ key name,
    purposeDef key name row = .ok binding ∧ purposeDef key name row' = .ok binding

theorem SameBinding.refl (row : Item) : SameBinding row row := .inl rfl

theorem SameBinding.trans {a b c : Item} (h : SameBinding a b) (h' : SameBinding b c) :
    SameBinding a c := by
  rcases h with rfl | ⟨binding, hab⟩
  · exact h'
  · rcases h' with rfl | ⟨binding', hbc⟩
    · exact .inr ⟨binding, hab⟩
    · have hsame := (hab "" "").2.symm.trans (hbc "" "").1
      cases hsame
      exact .inr ⟨binding, fun key name => ⟨(hab key name).1, (hbc key name).2⟩⟩

/-! ## A list of moves -/

/-- The rows of a document; one without the table has none. -/
def rowsOf (document : Table) : Table := (purposesOf document).getD []

def redirect (move : String × String) (name : String) : String :=
  if name = move.1 then move.2 else name

/-- Where a name arrives that follows the moves in order. -/
def follow (moves : List (String × String)) (name : String) : String :=
  moves.foldl (fun name move => redirect move name) name

/-- Every row is carried to the name its own leads to, and every name has a row that led there. -/
structure Carries (f : String → String) (rows rows' : Table) : Prop where
  found : ∀ name row, entry rows name = some row →
    ∃ row', entry rows' (f name) = some row' ∧ SameBinding row row'
  origin : ∀ name row', entry rows' name = some row' →
    ∃ source row, entry rows source = some row ∧ f source = name

theorem Carries.refl (rows : Table) : Carries id rows rows :=
  ⟨fun _ row hrow => ⟨row, hrow, .refl row⟩, fun name row hrow => ⟨name, row, hrow, rfl⟩⟩

theorem Carries.trans {f g : String → String} {a b c : Table} (h : Carries f a b)
    (h' : Carries g b c) : Carries (g ∘ f) a c := by
  refine ⟨?_, ?_⟩
  · intro name row hrow
    obtain ⟨row1, hrow1, hsame⟩ := h.found name row hrow
    obtain ⟨row2, hrow2, hsame'⟩ := h'.found _ row1 hrow1
    exact ⟨row2, hrow2, hsame.trans hsame'⟩
  · intro name row2 hrow2
    obtain ⟨middle, row1, hrow1, hg⟩ := h'.origin name row2 hrow2
    obtain ⟨source, row, hrow, hf⟩ := h.origin middle row1 hrow1
    exact ⟨source, row, hrow, (congrArg g hf).trans hg⟩

theorem mergePurposes_within (name : String) (moved : PurposeDef) (held : Option Item) :
    Within Fails (fun _ => ∀ row ∈ held, ∃ key,
        purposeDef key name row = .ok moved) (mergePurposes name moved held) := by
  cases held with
  | none => exact fun row hrow => by cases hrow
  | some row =>
    apply Within.bind (Within.of_forall fun _ => id)
    intro binding hbinding
    refine (Within.require fun _ => trivial).imp ?_
    rintro _ rfl _ ⟨rfl⟩
    exact ⟨_, hbinding⟩

theorem carries_moveRow {rows : Table} {source target : String} {row : Item}
    (hsource : entry rows source = some row) (hne : source ≠ target)
    (hheld : ∀ held ∈ entry rows target, SameBinding row held) :
    Carries (redirect (source, target)) rows (moveRow source target rows) := by
  have hentry := entry_moveRow hsource hne
  have hlands : entry (moveRow source target rows) target =
      some ((entry rows target).getD row) := by
    rw [hentry, if_neg (Ne.symm hne), if_pos rfl]
  have hbinds : SameBinding row ((entry rows target).getD row) := by
    cases htarget : entry rows target with
    | none => exact .refl row
    | some held => exact hheld held htarget
  refine ⟨?_, ?_⟩
  · intro name item hitem
    unfold redirect
    by_cases hname : name = source
    · rw [if_pos hname, hlands]
      rw [hname, hsource] at hitem
      cases hitem
      exact ⟨_, rfl, hbinds⟩
    · rw [if_neg hname, hentry, if_neg hname]
      by_cases hto : name = target
      · rw [if_pos hto, ← hto, hitem]
        exact ⟨item, rfl, .refl item⟩
      · rw [if_neg hto]
        exact ⟨item, hitem, .refl item⟩
  · intro name item hitem
    rw [hentry] at hitem
    unfold redirect
    by_cases hname : name = source
    · rw [if_pos hname] at hitem
      cases hitem
    · rw [if_neg hname] at hitem
      by_cases hto : name = target
      · exact ⟨source, row, hsource, by rw [if_pos rfl, hto]⟩
      · rw [if_neg hto] at hitem
        exact ⟨name, item, hitem, if_neg hname⟩

theorem rebindPurpose_within (document : Table) (source target : String) :
    Within Fails
      (fun moved => Carries (redirect (source, target)) (rowsOf document)
        (rowsOf (moved.getD document)))
      (rebindPurpose document source target) := by
  have habsent : ∀ {rows : Table}, entry rows source = none →
      Carries (redirect (source, target)) rows rows := by
    intro rows hnone
    have hstay : ∀ name row, entry rows name = some row → redirect (source, target) name = name := by
      intro name row hrow
      unfold redirect
      rw [if_neg]
      rintro rfl
      rw [hnone] at hrow
      cases hrow
    refine ⟨?_, ?_⟩
    · intro name row hrow
      rw [hstay name row hrow]
      exact ⟨row, hrow, .refl row⟩
    · exact fun name row hrow => ⟨name, row, hrow, hstay name row hrow⟩
  unfold rebindPurpose rowsOf
  cases hpurposes : purposesOf document with
  | none =>
    change Carries _ _ ((purposesOf document).getD [])
    rw [hpurposes]
    exact habsent rfl
  | some rows =>
    cases hsource : entry rows source with
    | none =>
      simp only [hsource, Within.ok_iff, getD_none, hpurposes, getD_some]
      exact habsent hsource
    | some row =>
      simp only [hsource]
      apply Within.bind (Within.of_forall fun _ => id)
      intro binding hbinding
      apply Within.bind (mergePurposes_within target binding (entry rows target))
      intro _ hmerge
      have hheld : ∀ held ∈ entry rows target, SameBinding row held := by
        intro held hheld
        obtain ⟨key, hheld⟩ := hmerge held hheld
        refine .inr ⟨binding, fun key' name => ⟨?_, ?_⟩⟩
        · exact (purposeDef_alike _ _ _ _ row binding).mp hbinding
        · exact (purposeDef_alike _ _ _ _ held binding).mp hheld
      rw [Within.ok_iff, getD_some]
      by_cases hne : source = target
      · subst hne
        have hid : redirect (source, source) = id := by
          funext name
          unfold redirect
          split
          · rename_i hname
            exact hname.symm
          · rfl
        rw [if_neg (not_not.mpr rfl), getD_some, hpurposes, getD_some, hid]
        exact .refl _
      · rw [if_pos hne, getD_some, purposesOf_move, hpurposes, map_some,
          getD_some]
        exact carries_moveRow hsource hne hheld

theorem applyMoves_within (document : Table) (moves : List (String × String)) :
    Within Fails
      (fun document' => Carries (follow moves) (rowsOf document) (rowsOf document'))
      (applyMoves document moves) := by
  induction moves generalizing document with
  | nil => exact .refl _
  | cons move rest ih =>
    apply Within.bind (rebindPurpose_within document move.1 move.2)
    intro moved hmoved
    exact (ih (moved.getD document)).imp fun _ hrest => hmoved.trans hrest

/-- The moves that the copy went through are all the document needs. -/
theorem applyMoves_of_proven {document : Table} {moves kept : List (String × String)}
    (h : provenMoves document moves = .ok kept) :
    ∃ document', applyMoves document kept = .ok document' ∧
      applyMoves document moves = .ok document' := by
  induction moves generalizing document kept with
  | nil =>
    cases h
    exact ⟨document, rfl, rfl⟩
  | cons move rest ih =>
    unfold provenMoves at h
    cases hmoved : rebindPurpose document move.1 move.2 with
    | error e =>
      rw [hmoved] at h
      cases h
    | ok moved =>
      rw [hmoved, ok_bind] at h
      cases moved with
      | none =>
        obtain ⟨document', hkept, hall⟩ := ih h
        refine ⟨document', hkept, ?_⟩
        unfold applyMoves
        rw [hmoved]
        exact hall
      | some next =>
        dsimp only at h
        cases hlater : provenMoves next rest with
        | error e =>
          rw [hlater] at h
          cases h
        | ok later =>
          rw [hlater] at h
          cases h
          obtain ⟨document', hkept, hall⟩ := ih hlater
          refine ⟨document', ?_, ?_⟩ <;>
          · unfold applyMoves
            rw [hmoved]
            assumption

/-! ## Rules that do not chain -/

theorem follow_of_notMem {moves : List (String × String)} {name : String}
    (h : ∀ move ∈ moves, move.1 ≠ name) : follow moves name = name := by
  induction moves with
  | nil => rfl
  | cons move rest ih =>
    have hstay : redirect move name = name := if_neg (Ne.symm (h move mem_cons_self))
    change follow rest (redirect move name) = name
    rw [hstay]
    exact ih fun later hlater => h later (mem_cons_of_mem _ hlater)

/-- A name goes where its own move leads, when no move starts where another ends. -/
theorem follow_of_mem {moves : List (String × String)}
    (hflat : ∀ move ∈ moves, ∀ later ∈ moves, later.1 ≠ move.2)
    (hsame : ∀ move ∈ moves, ∀ later ∈ moves, move.1 = later.1 → move.2 = later.2)
    {move : String × String} (hmove : move ∈ moves) : follow moves move.1 = move.2 := by
  induction moves with
  | nil => cases hmove
  | cons first rest ih =>
    change follow rest (redirect first move.1) = move.2
    unfold redirect
    by_cases hsource : move.1 = first.1
    · rw [if_pos hsource, hsame move hmove first mem_cons_self hsource]
      apply follow_of_notMem
      intro later hlater
      exact hflat first mem_cons_self later (mem_cons_of_mem _ hlater)
    · rw [if_neg hsource]
      have hrest : move ∈ rest := by
        rcases mem_cons.mp hmove with rfl | hrest
        · exact absurd rfl hsource
        · exact hrest
      refine ih ?_ ?_ hrest
      · intro m hm later hlater
        exact hflat m (mem_cons_of_mem _ hm) later (mem_cons_of_mem _ hlater)
      · intro m hm later hlater
        exact hsame m (mem_cons_of_mem _ hm) later (mem_cons_of_mem _ hlater)

theorem provenMoves_of_unbound {document : Table} {moves : List (String × String)}
    (h : ∀ move ∈ moves, entry (rowsOf document) move.1 = none) :
    provenMoves document moves = .ok [] := by
  induction moves with
  | nil => rfl
  | cons move rest ih =>
    have hstay : rebindPurpose document move.1 move.2 = .ok none := by
      have hnone := h move mem_cons_self
      unfold rowsOf at hnone
      unfold rebindPurpose
      cases hrows : purposesOf document with
      | none => rfl
      | some rows =>
        rw [hrows, getD_some] at hnone
        simp only [hnone]
    unfold provenMoves
    rw [hstay, ok_bind]
    exact ih fun later hlater => h later (mem_cons_of_mem _ hlater)

/-! ## A document of one row -/

/-- The document that binds one purpose, and nothing to it. -/
def alone (name : String) : Table :=
  [("models", .table [("purposes", .table [(name, .table [])])])]

theorem rowsOf_alone (name : String) : rowsOf (alone name) = [(name, .table [])] := rfl

theorem entry_alone (name other : String) :
    entry (rowsOf (alone name)) other = if name = other then some (.table []) else none := by
  rw [rowsOf_alone]
  unfold entry
  by_cases h : name = other <;> simp [h]

theorem rebindPurpose_alone (name source target : String) :
    rebindPurpose (alone name) source target =
      .ok (if source = name then some (alone target) else none) := by
  have hpurposes : purposesOf (alone name) = some [(name, .table [])] := rfl
  have hbinds : ∀ key other, purposeDef key other (.table []) =
      .ok ⟨none, none, none, none, none, none⟩ := fun _ _ => rfl
  unfold rebindPurpose
  rw [hpurposes]
  by_cases hsource : source = name
  · subst hsource
    have hentry : entry [(source, .table [])] source = some (.table []) := by simp [entry]
    simp only [hentry, hbinds, ok_bind, if_true]
    by_cases htarget : source = target
    · subst htarget
      simp [hentry, mergePurposes, hbinds]
    · have hfree : entry [(source, .table [])] target = none := by simp [entry, htarget]
      have hmove : movePurposeTable (alone source) source target = alone target := by
        simp [movePurposeTable, alone, modifyTable, Item.modifyEntries, Item.asTableLike,
          Item.withEntries, moveRow, entry, htarget]
      simp [hfree, mergePurposes, htarget, hmove]
  · have hentry : entry [(name, Item.table [])] source = none := by
      simp [entry, Ne.symm hsource]
    simp [hentry, hsource]

theorem provenMoves_alone (name : String) (moves : List (String × String)) :
    ∃ kept, provenMoves (alone name) moves = .ok kept := by
  induction moves generalizing name with
  | nil => exact ⟨[], rfl⟩
  | cons move rest ih =>
    unfold provenMoves
    rw [rebindPurpose_alone, ok_bind]
    by_cases hsource : move.1 = name
    · obtain ⟨kept, hkept⟩ := ih move.2
      exact ⟨move :: kept, by simp [hsource, hkept]⟩
    · obtain ⟨kept, hkept⟩ := ih name
      exact ⟨kept, by simp [hsource, hkept]⟩

theorem applyMoves_alone (name : String) (moves : List (String × String)) :
    applyMoves (alone name) moves = .ok (alone (follow moves name)) := by
  induction moves generalizing name with
  | nil => rfl
  | cons move rest ih =>
    unfold applyMoves
    rw [rebindPurpose_alone, ok_bind]
    change _ = Except.ok (alone (follow rest (redirect move name)))
    unfold redirect
    by_cases hsource : move.1 = name
    · rw [if_pos hsource, if_pos hsource.symm, getD_some]
      exact ih move.2
    · rw [if_neg hsource, if_neg (Ne.symm hsource), getD_none]
      exact ih name

theorem alone_injective : Function.Injective alone := by
  intro name other h
  have hrows := congrArg rowsOf h
  rw [rowsOf_alone, rowsOf_alone] at hrows
  injection hrows with hrow
  exact congrArg Prod.fst hrow

end Rivect.Config
