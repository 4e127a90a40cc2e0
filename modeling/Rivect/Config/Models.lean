import Mathlib.Data.List.Sort
import Rivect.Base.Identity
import Rivect.Config.Assign

/-! # The models section

What a document of `src/config.rs` says of models, the base layer beneath the user's, and the
assignment that one purpose resolves to. The sections no purpose reads are left out.
-/

namespace Rivect.Config

open Lib List

/-- A map by name, in the order of the names. -/
abbrev Named (α : Type) := List (String × α)

namespace Named

variable {α : Type}

def get (rows : Named α) (name : String) : Option α := (rows.find? (·.1 = name)).map Prod.snd

def insert (rows : Named α) (name : String) (value : α) : Named α :=
  (rows.filter (·.1 ≠ name)).takeWhile (·.1 < name) ++ (name, value) ::
    (rows.filter (·.1 ≠ name)).dropWhile (·.1 < name)

/-- The rows of a map over those of another. -/
def overlaid (rows base : Named α) : Named α :=
  rows.foldl (fun composed row => composed.insert row.1 row.2) base

theorem get_insert (rows : Named α) (name other : String) (value : α) :
    (rows.insert name value).get other = if name = other then some value else rows.get other := by
  unfold get insert
  rw [find?_append, find?_cons]
  by_cases hname : name = other
  · subst hname
    have hnone : ((rows.filter (·.1 ≠ name)).takeWhile (·.1 < name)).find? (·.1 = name) = none := by
      refine find?_eq_none.mpr fun row hrow => ?_
      have := (mem_filter.mp ((takeWhile_sublist _).subset hrow)).2
      simpa using this
    rw [hnone, Option.none_or, decide_eq_true rfl, if_pos rfl]
    rfl
  · have hrest : (rows.filter (·.1 ≠ name)).find? (·.1 = other) = rows.find? (·.1 = other) := by
      rw [find?_filter]
      congr 1
      funext row
      by_cases hrow : row.1 = other
      · simp [hrow, Ne.symm hname]
      · simp [hrow]
    simp only [hname, decide_false, if_false]
    rw [← find?_append, takeWhile_append_dropWhile, hrest]

theorem get_over (rows base : Named α) (hkeys : (rows.map Prod.fst).Nodup) (name : String) :
    (rows.overlaid base).get name = (rows.get name).or (base.get name) := by
  unfold overlaid
  induction rows generalizing base with
  | nil => rfl
  | cons row rows ih =>
    obtain ⟨hnew, hkeys⟩ := nodup_cons.mp hkeys
    rw [foldl_cons, ih _ hkeys, get_insert]
    by_cases hname : row.1 = name
    · have hnone : get rows name = none := by
        unfold get
        rw [find?_eq_none.mpr]
        · rfl
        · intro other hother
          have : other.1 ≠ row.1 := fun h => hnew (h ▸ mem_map_of_mem hother)
          simpa [← hname] using this
      rw [hnone, if_pos hname]
      simp [get, hname]
    · rw [if_neg hname]
      simp [get, hname]

end Named

structure Defaults where
  model : ModelAssign
  effort : EffortAssign
  fallback : FallbackAssign
deriving DecidableEq

structure GroupDef where
  model : ModelAssign
deriving DecidableEq

structure Models where
  defaults : Option Defaults
  groups : Named GroupDef
  purposes : Named PurposeDef
deriving DecidableEq

/-! ## The schema of the section -/

def MODELS_KEYS : List String := ["defaults", "groups", "purposes"]

def MODEL_SLOT_KEYS : List String := ["model", "effort", "fallback"]

def GROUP_KEYS : List String := ["model"]

def pick (table : Named Item) (field : String) : Except ConfigError Item :=
  found (entry table field) (.schema field (.required field))

def defaultsDef (item : Item) : Except ConfigError Defaults := do
  let defaults ← tableLike "models.defaults" item
  defaults.forM fun field => require (field.1 ∈ MODEL_SLOT_KEYS)
    (.schema ("models.defaults." ++ field.1) (.unknownKey field.1 MODEL_SLOT_KEYS))
  let model ← pick defaults "model"
  let model ← modelAssign model "models.defaults.model"
  let effort ← pick defaults "effort"
  let effort ← effortAssign effort "models.defaults.effort"
  let fallback ← pick defaults "fallback"
  let fallback ← fallbackAssign fallback "models.defaults.fallback"
  return ⟨model, effort, fallback⟩

def groupDef (name : String) (item : Item) : Except ConfigError GroupDef := do
  let group ← tableLike name item
  group.forM fun field => require (field.1 ∈ GROUP_KEYS)
    (.schema ("models.groups." ++ name ++ "." ++ field.1) (.unknownKey field.1 GROUP_KEYS))
  let model ← pick group "model"
  let model ← modelAssign model ("models.groups." ++ name ++ ".model")
  return ⟨model⟩

/-- One table of a models section. -/
def modelsField (models : Models) (field : String × Item) : Except ConfigError Models :=
  match field.1 with
  | "defaults" => do
    let defaults ← defaultsDef field.2
    return { models with defaults := some defaults }
  | "groups" => do
    let groups ← tableLike "models.groups" field.2
    let groups ← groups.foldlM (fun (rows : Named GroupDef) row => do
      let group ← groupDef row.1 row.2
      return rows.insert row.1 group) models.groups
    return { models with groups := groups }
  | "purposes" => do
    let purposes ← tableLike "models.purposes" field.2
    let purposes ← purposes.foldlM (fun (rows : Named PurposeDef) row => do
      let purpose ← purposeDef ("models.purposes." ++ row.1) row.1 row.2
      return rows.insert row.1 purpose) models.purposes
    return { models with purposes := purposes }
  | other => .error (.schema "models" (.unknownKey other MODELS_KEYS))

def modelsTable (table : Named Item) : Except ConfigError Models :=
  table.foldlM modelsField ⟨none, [], []⟩

/-! ## References -/

def modelReferenceNames : ModelAssign → List String
  | .fixed model => [model.connection]
  | .auto (some pool) => pool
  | _ => []

def checkModelRefs (connections : List String) (model : ModelAssign) (key : String) :
    Except ConfigError PUnit :=
  (modelReferenceNames model).forM fun name => require (name ∈ connections)
    (.schema key (.unknownConnectionReference name))

def checkChainRefs (connections : List String) (fallback : FallbackAssign) (key : String) :
    Except ConfigError PUnit :=
  match fallback with
  | .auto chain => chain.forM fun step => require (step.connection ∈ connections)
      (.schema key (.unknownConnectionReference step.connection))
  | _ => .ok ()

def checkPurposeRefs (connections : List String) (groups : Named GroupDef)
    (row : String × PurposeDef) : Except ConfigError PUnit := do
  let key := "models.purposes." ++ row.1
  row.2.group.toList.forM fun group => require ((groups.get group).isSome = true)
    (.schema (key ++ ".group") (.unknownGroupReference group))
  row.2.model.toList.forM fun model => checkModelRefs connections model (key ++ ".model")
  row.2.fallback.toList.forM fun fallback =>
    checkChainRefs connections fallback (key ++ ".fallback.chain")

def checkModelReferences (connections : List String) (models : Models) :
    Except ConfigError PUnit := do
  models.defaults.toList.forM fun defaults => do
    checkModelRefs connections defaults.model "models.defaults.model"
    checkChainRefs connections defaults.fallback "models.defaults.fallback.chain"
  models.groups.forM fun group =>
    checkModelRefs connections group.2.model ("models.groups." ++ group.1 ++ ".model")
  models.purposes.forM (checkPurposeRefs connections models.groups)

/-! ## The layers -/

/-- What a document says of connections, by name, and of models. -/
structure Assignments where
  connections : List String
  models : Models
deriving DecidableEq

def modelsOf (document : Named Item) : Except ConfigError Models :=
  match entry document "models" with
  | none => .ok ⟨none, [], []⟩
  | some item => do
    let table ← tableLike "models" item
    modelsTable table

def connectionsOf (document : Named Item) : Except ConfigError (List String) :=
  match entry document "connections" with
  | none => .ok []
  | some item => do
    let table ← tableLike "connections" item
    return table.map Prod.fst

/-- The user's document. -/
def validatedDocument (document : Named Item) : Except ConfigError Assignments := do
  let connections ← connectionsOf document
  let models ← modelsOf document
  require (connections ≠ []) (.schema "connections" .missingConnections)
  require (models.defaults.isSome = true)
    (.schema "models.defaults" (.required "models.defaults"))
  checkModelReferences connections models
  return ⟨connections, models⟩

/-- The base document; it may not name an id of the user's namespace. -/
def validatedBase (document : Named Item) : Except ConfigError Models := do
  let models ← modelsOf document
  models.purposes.forM fun row => require (Base.claimsPersonalNamespace row.1 = false)
    (.schema ("models.purposes." ++ row.1) (.personalNamespaceClaimed row.1))
  return models

structure EffectiveConfig where
  base : Models
  parsed : Option Assignments
deriving DecidableEq

/-- A slot the user defers takes the base's value; a fallback is never deferred. -/
def composeDefaults : Option Defaults → Option Defaults → Option Defaults
  | base, none => base
  | none, some user => some user
  | some base, some user => some
      { model := if user.model = .inherit then base.model else user.model
        effort := if user.effort = .inherit then base.effort else user.effort
        fallback := user.fallback }

def composeModels (base user : Models) : Models :=
  { defaults := composeDefaults base.defaults user.defaults
    groups := user.groups.overlaid base.groups
    purposes := user.purposes.overlaid base.purposes }

namespace EffectiveConfig

/-- The user's document, or the empty one. -/
def retained (effective : EffectiveConfig) : Assignments :=
  effective.parsed.getD ⟨[], ⟨none, [], []⟩⟩

def composed (effective : EffectiveConfig) : Assignments :=
  ⟨effective.retained.connections, composeModels effective.base effective.retained.models⟩

end EffectiveConfig

def resolveEffectiveOn (base : Named Item) (user : Option (Named Item)) :
    Except ConfigError EffectiveConfig := do
  let parsed ← user.mapM validatedDocument
  let layer ← validatedBase base
  let effective : EffectiveConfig := ⟨layer, parsed⟩
  checkModelReferences effective.composed.connections effective.composed.models
  return effective

/-! ## The assignment of a purpose -/

structure ResolvedPurpose where
  model : ModelAssign
  modelSource : String
  effort : EffortAssign
  effortSource : String
  fallback : FallbackAssign
  fallbackSource : String
deriving DecidableEq

namespace Models

def resolveModel (models : Models) (defaults : Defaults) (purpose : String)
    (row : Option PurposeDef) : Except ConfigError (ModelAssign × String) :=
  match row.bind PurposeDef.model with
  | some (.auto pool) => .ok (.auto pool, "models.purposes." ++ purpose)
  | some (.fixed model) => .ok (.fixed model, "models.purposes." ++ purpose)
  | _ =>
    match row.bind PurposeDef.group with
    | some group => do
      let row ← found (models.groups.get group)
        (.resolve ("models.purposes." ++ purpose ++ ".group") (.unknownGroupReference group))
      return (row.model, "models.groups." ++ group)
    | none => .ok (defaults.model, "models.defaults")

def resolveEffort (defaults : Defaults) (purpose : String) (row : Option PurposeDef) :
    EffortAssign × String :=
  match row.bind PurposeDef.effort with
  | some .auto => (.auto, "models.purposes." ++ purpose)
  | some (.fixed value) => (.fixed value, "models.purposes." ++ purpose)
  | _ => (defaults.effort, "models.defaults")

def resolveFallback (defaults : Defaults) (purpose : String) (row : Option PurposeDef) :
    FallbackAssign × String :=
  match row.bind PurposeDef.fallback with
  | some fallback => (fallback, "models.purposes." ++ purpose)
  | none => (defaults.fallback, "models.defaults")

def resolvePurpose (models : Models) (purpose : String) : Except ConfigError ResolvedPurpose := do
  let defaults ← found models.defaults
    (.resolve "models.defaults" (.required "models.defaults"))
  let row := models.purposes.get purpose
  let model ← models.resolveModel defaults purpose row
  let effort := resolveEffort defaults purpose row
  let fallback := resolveFallback defaults purpose row
  return ⟨model.1, model.2, effort.1, effort.2, fallback.1, fallback.2⟩

end Models

end Rivect.Config
