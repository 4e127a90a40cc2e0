import Rivect.Config.Toml

/-! # The purpose schema

How `src/config.rs` reads the rows of `models.purposes`: the model, effort and fallback slots and
the name lists of one row.
-/

namespace Rivect.Config

open Lib

inductive EffortLevel where
  | minimal
  | low
  | medium
  | high
  | xhigh
deriving DecidableEq

def EffortLevel.parse : String → Option EffortLevel
  | "minimal" => some .minimal
  | "low" => some .low
  | "medium" => some .medium
  | "high" => some .high
  | "xhigh" => some .xhigh
  | _ => none

structure FixedModel where
  connection : String
  modelId : String
deriving DecidableEq

inductive ModelAssign where
  | inherit
  | auto (pool : Option (List String))
  | fixed (model : FixedModel)
deriving DecidableEq

inductive EffortAssign where
  | inherit
  | auto
  | fixed (value : EffortLevel)
deriving DecidableEq

inductive FallbackAssign where
  | auto (chain : List FixedModel)
  | manual
  | off
deriving DecidableEq

structure PurposeDef where
  group : Option String
  model : Option ModelAssign
  effort : Option EffortAssign
  fallback : Option FallbackAssign
  pool : Option (List String)
  eligible : Option (List String)
deriving DecidableEq

def PURPOSE_KEYS : List String := ["group", "model", "effort", "fallback", "pool", "eligible"]

def CHAIN_ENTRY_KEYS : List String := ["mode", "connection", "model_id"]

def tableLike (key : String) (item : Item) : Except ConfigError (List (String × Item)) :=
  found item.asTableLike (.schema key (.expectedTable key))

def nameArray (value : Item) (key : String) (notArray entryNotString : ConfigIssue) :
    Except ConfigError (List String) := do
  let items ← found value.asArray (.schema key notArray)
  items.mapM fun item => found item.asStr (.schema key entryNotString)

def tomlMode (table : List (String × Item)) (key : String) : Except ConfigError String :=
  found ((entry table "mode").bind Item.asStr) (.schema (key ++ ".mode") (.required "mode"))

def modelAssign (item : Item) (key : String) : Except ConfigError ModelAssign := do
  let table ← tableLike key item
  let mode ← tomlMode table key
  match mode with
  | "inherit" => .ok .inherit
  | "auto" =>
    match entry table "pool" with
    | none => .ok (.auto none)
    | some value => do
      let pool ← nameArray value (key ++ ".pool") .poolNotArray .poolEntryNotString
      .ok (.auto (some pool))
  | "fixed" => do
    let connection ← found ((entry table "connection").bind Item.asStr)
      (.schema (key ++ ".connection") .fixedModelMissingConnection)
    let modelId ← found ((entry table "model_id").bind Item.asStr)
      (.schema (key ++ ".model_id") .fixedModelMissingId)
    .ok (.fixed ⟨connection, modelId⟩)
  | other => .error (.schema (key ++ ".mode") (.unsupportedModelMode other))

def effortAssign (item : Item) (key : String) : Except ConfigError EffortAssign := do
  let table ← tableLike key item
  let mode ← tomlMode table key
  match mode with
  | "inherit" => .ok .inherit
  | "auto" => .ok .auto
  | "fixed" => do
    let raw ← found ((entry table "value").bind Item.asStr)
      (.schema (key ++ ".value") .fixedEffortMissingValue)
    let value ← found (EffortLevel.parse raw)
      (.schema (key ++ ".value") (.unsupportedEffortValue raw))
    .ok (.fixed value)
  | other => .error (.schema (key ++ ".mode") (.unsupportedEffortMode other))

/-- One entry of a fallback chain: its keys are strict, unlike those of the other slots. -/
def chainEntry (key : String) (item : Item) : Except ConfigError FixedModel := do
  let fields ← found item.asInlineTable (.schema (key ++ ".chain") .chainEntryNotTable)
  fields.forM fun field => require (field.1 ∈ CHAIN_ENTRY_KEYS)
    (.schema (key ++ ".chain." ++ field.1) (.unknownKey field.1 CHAIN_ENTRY_KEYS))
  match entry fields "mode" with
  | none => .ok ()
  | some value => do
    let mode ← found value.asStr (.schema (key ++ ".chain.mode") (.expectedString "mode"))
    require (mode = "fixed") (.schema (key ++ ".chain.mode") (.unsupportedModelMode mode))
  let connection ← found ((entry fields "connection").bind Item.asStr)
    (.schema (key ++ ".chain.connection") .fixedChainEntryMissingConnection)
  let modelId ← found ((entry fields "model_id").bind Item.asStr)
    (.schema (key ++ ".chain.model_id") .fixedChainEntryMissingModelId)
  .ok ⟨connection, modelId⟩

def fallbackAssign (item : Item) (key : String) : Except ConfigError FallbackAssign := do
  let table ← tableLike key item
  let mode ← tomlMode table key
  match mode with
  | "auto" =>
    match entry table "chain" with
    | none => .ok (.auto [])
    | some value => do
      let items ← found value.asArray (.schema (key ++ ".chain") .chainNotArray)
      let chain ← items.mapM (chainEntry key)
      .ok (.auto chain)
  | "manual" => .ok .manual
  | "off" => .ok .off
  | other => .error (.schema (key ++ ".mode") (.unsupportedFallbackMode other))

/-- One field of a purpose row. -/
def purposeField (key : String) (row : PurposeDef) (field : String × Item) :
    Except ConfigError PurposeDef :=
  match field.1 with
  | "group" => do
    let group ← found field.2.asStr (.schema (key ++ ".group") .groupReferenceNotString)
    .ok { row with group := some group }
  | "model" => do
    let model ← modelAssign field.2 (key ++ ".model")
    .ok { row with model := some model }
  | "effort" => do
    let effort ← effortAssign field.2 (key ++ ".effort")
    .ok { row with effort := some effort }
  | "fallback" => do
    let fallback ← fallbackAssign field.2 (key ++ ".fallback")
    .ok { row with fallback := some fallback }
  | "pool" => do
    let pool ← nameArray field.2 (key ++ ".pool") .poolNotArray .poolEntryNotString
    .ok { row with pool := some pool }
  | "eligible" => do
    let eligible ← nameArray field.2 (key ++ ".eligible") .eligibleNotArray
      .eligibleEntryNotString
    .ok { row with eligible := some eligible }
  | other => .error (.schema (key ++ "." ++ other) (.unknownKey other PURPOSE_KEYS))

/-- One row of `models.purposes`. -/
def purposeDef (key name : String) (row : Item) : Except ConfigError PurposeDef := do
  let fields ← tableLike name row
  fields.foldlM (purposeField key) ⟨none, none, none, none, none, none⟩

end Rivect.Config
