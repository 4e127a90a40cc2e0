import Rivect.Config.Models

/-! # Falling through

The layers of a purpose's slots, innermost first, and when the assignment a purpose resolves to is
what the innermost layer states.
-/

namespace Rivect.Config

open Lib List Option
open Within (of_forall trivially)

/-! ## Answers -/

section Answers

variable {α : Type} {stated : α → Bool} {layers outer : List (String × α)} {value : α}
  {source : String}

/-- The innermost value that is stated, under the name of its layer; where none is, a value that
states nothing. -/
def Answers (stated : α → Bool) (layers : List (String × α)) (value : α) (source : String) :
    Prop :=
  match layers.find? (fun layer => stated layer.2) with
  | some layer => layer = (source, value)
  | none => stated value = false

theorem answers_cons (h : stated value = true) :
    Answers stated ((source, value) :: layers) value source := by
  have hfind : List.find? (fun layer => stated layer.2) ((source, value) :: layers) =
      some (source, value) := find?_cons_of_pos h
  unfold Answers
  rw [hfind]

theorem answers_append (h : ∀ layer ∈ layers, stated layer.2 = false) :
    Answers stated (layers ++ outer) value source ↔ Answers stated outer value source := by
  have hnone : layers.find? (fun layer => stated layer.2) = none :=
    find?_eq_none.mpr fun layer hlayer => by simp [h layer hlayer]
  unfold Answers
  rw [find?_append, hnone, none_or]

theorem answers_unstated (h : stated value = false) :
    Answers stated layers value source ↔ ∀ layer ∈ layers, stated layer.2 = false := by
  unfold Answers
  cases hfind : layers.find? (fun layer => stated layer.2) with
  | none => simpa [h] using hfind
  | some layer =>
    have hstated := find?_some hfind
    constructor
    · rintro rfl
      rw [h] at hstated
      cases hstated
    · intro hall
      rw [hall layer (mem_of_find?_eq_some hfind)] at hstated
      cases hstated

end Answers

/-! ## Documents that are accepted -/

namespace Named

variable {α : Type}

/-- Every name stands once. -/
def Keyed (rows : Named α) : Prop := (rows.map Prod.fst).Nodup

theorem Keyed.insert {rows : Named α} (h : rows.Keyed) (name : String) (value : α) :
    (rows.insert name value).Keyed := by
  have hperm : (rows.insert name value).Perm ((name, value) :: rows.filter (·.1 ≠ name)) := by
    refine perm_middle.trans ?_
    rw [takeWhile_append_dropWhile]
  unfold Keyed
  rw [(hperm.map Prod.fst).nodup_iff, map_cons, nodup_cons]
  refine ⟨?_, h.sublist (filter_sublist.map Prod.fst)⟩
  intro hmem
  obtain ⟨row, hrow, hname⟩ := mem_map.mp hmem
  exact absurd hname (by simpa using (mem_filter.mp hrow).2)

theorem keyed_nil : Keyed ([] : Named α) := nodup_nil

theorem mem_of_get {rows : Named α} {name : String} {value : α}
    (h : rows.get name = some value) : (name, value) ∈ rows := by
  obtain ⟨row, hfind, rfl⟩ := map_eq_some_iff.mp h
  have hname : row.1 = name := by simpa using find?_some hfind
  exact hname ▸ mem_of_find?_eq_some hfind

end Named

theorem keyed_rows {α : Type} {read : String × Item → Except ConfigError α}
    (table : Named Item) (rows : Named α) (h : rows.Keyed) :
    Within Fails Named.Keyed (table.foldlM (fun (rows : Named α) row => do
      let value ← read row
      return rows.insert row.1 value) rows) := by
  refine Within.foldlM (fun _ => Named.Keyed) (fun _ row rows _ hrows => ?_) h
  refine Within.bind (of_forall fun _ _ => trivial) fun value _ => ?_
  exact hrows.insert row.1 value

/-- The maps of a section. -/
def Models.Keyed (models : Models) : Prop := models.groups.Keyed ∧ models.purposes.Keyed

theorem modelsField_keyed (models : Models) (field : String × Item) (h : models.Keyed) :
    Within Fails Models.Keyed (modelsField models field) := by
  unfold modelsField
  split
  · exact Within.bind trivially fun _ _ => h
  · refine Within.bind trivially fun groups _ => ?_
    exact Within.bind (keyed_rows groups models.groups h.1) fun _ hrows => ⟨hrows, h.2⟩
  · refine Within.bind trivially fun purposes _ => ?_
    refine Within.bind (keyed_rows purposes models.purposes h.2) fun _ hrows => ⟨h.1, hrows⟩
  · trivial

theorem modelsOf_keyed (document : Named Item) :
    Within Fails Models.Keyed (modelsOf document) := by
  unfold modelsOf
  split
  · exact ⟨Named.keyed_nil, Named.keyed_nil⟩
  · refine Within.bind trivially fun table _ => ?_
    exact Within.foldlM (fun _ => Models.Keyed)
      (fun _ field models _ h => modelsField_keyed models field h)
      ⟨Named.keyed_nil, Named.keyed_nil⟩

theorem group_of_checked {connections : List String} {models : Models}
    (h : checkModelReferences connections models = .ok ()) {purpose group : String}
    {row : PurposeDef} (hrow : models.purposes.get purpose = some row)
    (hgroup : row.group = some group) : ∃ held, models.groups.get group = some held := by
  have hrows : Within Fails
      (fun _ => ∀ row ∈ models.purposes, ∀ group ∈ row.2.group.toList,
        (models.groups.get group).isSome = true) (checkModelReferences connections models) := by
    refine Within.bind trivially fun _ _ => ?_
    refine Within.bind trivially fun _ _ => ?_
    refine Within.forM fun row _ => ?_
    refine Within.bind (Within.forM fun group _ => Within.require fun _ => trivial)
      fun _ hgroups => ?_
    exact of_forall fun _ _ => hgroups
  have hheld := hrows.of_ok h _ (Named.mem_of_get hrow) group (by simp [hgroup])
  exact isSome_iff_exists.mp hheld

/-! ## Layers -/

def ModelAssign.stated (model : ModelAssign) : Bool := model ≠ .inherit

def EffortAssign.stated (effort : EffortAssign) : Bool := effort ≠ .inherit

namespace EffectiveConfig

variable (effective : EffectiveConfig) (purpose : String)

/-- The user's document of the models. -/
def user : Models := effective.retained.models

/-- The user's row of a purpose, or the base's. -/
def rowOf : Option PurposeDef :=
  (effective.user.purposes.get purpose).or (effective.base.purposes.get purpose)

def groupOf (group : String) : Option GroupDef :=
  (effective.user.groups.get group).or (effective.base.groups.get group)

def rowLayer {α : Type} (slot : PurposeDef → Option α) : List (String × α) :=
  ((effective.rowOf purpose).bind slot).toList.map fun value =>
    ("models.purposes." ++ purpose, value)

/-- The group that the row binds, where it binds one. -/
def groupLayer : List (String × ModelAssign) :=
  ((effective.rowOf purpose).bind PurposeDef.group).toList.flatMap fun group =>
    (effective.groupOf group).toList.map fun held => ("models.groups." ++ group, held.model)

/-- The user's defaults, then the base's. -/
def defaultLayers {α : Type} (slot : Defaults → α) : List (String × α) :=
  (effective.user.defaults.toList ++ effective.base.defaults.toList).map fun defaults =>
    ("models.defaults", slot defaults)

/-- Each slot of what a purpose resolves to is what its innermost layer states, and only where no
layer has defaults does a purpose not resolve. -/
def FallsThrough : Prop :=
  match effective.composed.models.resolvePurpose purpose with
  | .ok resolved =>
    Answers ModelAssign.stated
      (effective.rowLayer purpose PurposeDef.model ++ effective.groupLayer purpose ++
        effective.defaultLayers Defaults.model) resolved.model resolved.modelSource ∧
    Answers EffortAssign.stated
      (effective.rowLayer purpose PurposeDef.effort ++ effective.defaultLayers Defaults.effort)
      resolved.effort resolved.effortSource ∧
    Answers (fun _ => true)
      (effective.rowLayer purpose PurposeDef.fallback ++ effective.defaultLayers Defaults.fallback)
      resolved.fallback resolved.fallbackSource
  | .error _ => effective.user.defaults = none ∧ effective.base.defaults = none

/-- The purpose's row leaves its model to a group that defers, though defaults state one. -/
def GroupDefers : Prop :=
  ∃ row group held, effective.rowOf purpose = some row ∧
    (∀ model, row.model = some model → model = .inherit) ∧
    row.group = some group ∧ effective.groupOf group = some held ∧ held.model = .inherit ∧
    ∃ layer ∈ effective.defaultLayers Defaults.model, layer.2 ≠ .inherit

variable {effective purpose}

/-! ## The composed defaults -/

theorem answers_defaults {α : Type} {stated : α → Bool} {slot : Defaults → α}
    (hmerge : ∀ base user composed, composeDefaults (some base) (some user) = some composed →
      slot composed = if stated (slot user) = true then slot user else slot base)
    {defaults : Defaults} (h : effective.composed.models.defaults = some defaults) :
    Answers stated (effective.defaultLayers slot) (slot defaults) "models.defaults" := by
  have hcomposed : composeDefaults effective.base.defaults effective.user.defaults =
      some defaults := h
  unfold defaultLayers
  cases huser : effective.user.defaults with
  | none =>
    rw [huser] at hcomposed
    have hbase : effective.base.defaults = some defaults := by
      rwa [composeDefaults] at hcomposed
    rw [hbase]
    unfold Answers
    cases hstated : stated (slot defaults) <;> simp [hstated]
  | some user =>
    cases hbase : effective.base.defaults with
    | none =>
      rw [huser, hbase] at hcomposed
      obtain rfl := some.inj hcomposed
      unfold Answers
      cases hstated : stated (slot user) <;> simp [hstated]
    | some base =>
      rw [huser, hbase] at hcomposed
      have hslot := hmerge base user defaults hcomposed
      unfold Answers
      cases hstated : stated (slot user) with
      | true => simp [hstated, hslot]
      | false =>
        rw [hstated, if_neg Bool.false_ne_true] at hslot
        cases hbaseStated : stated (slot base) <;> simp [hstated, hbaseStated, hslot]

theorem answers_default_model {defaults : Defaults}
    (h : effective.composed.models.defaults = some defaults) :
    Answers ModelAssign.stated (effective.defaultLayers Defaults.model) defaults.model
      "models.defaults" := by
  refine answers_defaults (fun base user composed hcomposed => ?_) h
  obtain rfl := some.inj hcomposed
  by_cases hinherit : user.model = .inherit <;> simp [ModelAssign.stated, hinherit]

theorem answers_default_effort {defaults : Defaults}
    (h : effective.composed.models.defaults = some defaults) :
    Answers EffortAssign.stated (effective.defaultLayers Defaults.effort) defaults.effort
      "models.defaults" := by
  refine answers_defaults (fun base user composed hcomposed => ?_) h
  obtain rfl := some.inj hcomposed
  by_cases hinherit : user.effort = .inherit <;> simp [EffortAssign.stated, hinherit]

theorem answers_default_fallback {defaults : Defaults}
    (h : effective.composed.models.defaults = some defaults) :
    Answers (fun _ => true) (effective.defaultLayers Defaults.fallback) defaults.fallback
      "models.defaults" := by
  refine answers_defaults (fun base user composed hcomposed => ?_) h
  obtain rfl := some.inj hcomposed
  exact (if_pos rfl).symm

/-! ## The composed rows -/

/-- What the acceptance of two documents gives. -/
structure Accepted (effective : EffectiveConfig) : Prop where
  keyed : effective.user.Keyed
  checked : checkModelReferences effective.composed.connections effective.composed.models = .ok ()

theorem user_keyed {user : Option (Named Item)} {parsed : Option Assignments} {base : Models}
    (h : user.mapM validatedDocument = .ok parsed) :
    EffectiveConfig.user ⟨base, parsed⟩ |>.Keyed := by
  cases user with
  | none =>
    obtain rfl : none = parsed := Except.ok.inj h
    exact ⟨Named.keyed_nil, Named.keyed_nil⟩
  | some document =>
    obtain ⟨assignments, hread, h⟩ := bind_eq_ok h
    obtain rfl : some assignments = parsed := Except.ok.inj h
    have hkeyed : Within Fails (fun (read : Assignments) => read.models.Keyed)
        (validatedDocument document) := by
      refine Within.bind trivially fun _ _ => ?_
      refine Within.bind (modelsOf_keyed document) fun models hmodels => ?_
      exact of_forall fun read hread => by
        obtain ⟨_, _, hread⟩ := bind_eq_ok hread
        obtain ⟨_, _, hread⟩ := bind_eq_ok hread
        obtain ⟨_, _, hread⟩ := bind_eq_ok hread
        exact Except.ok.inj hread ▸ hmodels
    exact hkeyed.of_ok hread

theorem accepted {base : Named Item} {user : Option (Named Item)}
    (h : resolveEffectiveOn base user = .ok effective) : effective.Accepted := by
  obtain ⟨parsed, hparsed, h⟩ := bind_eq_ok h
  obtain ⟨layer, _, h⟩ := bind_eq_ok h
  obtain ⟨_, hchecked, h⟩ := bind_eq_ok h
  obtain rfl := Except.ok.inj h
  exact ⟨user_keyed hparsed, hchecked⟩

namespace Accepted

variable (h : effective.Accepted)
include h

theorem row (purpose : String) :
    effective.composed.models.purposes.get purpose = effective.rowOf purpose :=
  Named.get_over _ _ h.keyed.2 purpose

theorem group (group : String) :
    effective.composed.models.groups.get group = effective.groupOf group :=
  Named.get_over _ _ h.keyed.1 group

theorem group_of_row {row : PurposeDef} {group : String}
    (hrow : effective.rowOf purpose = some row) (hgroup : row.group = some group) :
    ∃ held, effective.groupOf group = some held := by
  rw [← h.row] at hrow
  rw [← h.group]
  exact group_of_checked h.checked hrow hgroup

end Accepted

/-! ## What a purpose resolves to -/

theorem mem_rowLayer {α : Type} {slot : PurposeDef → Option α} {layer : String × α}
    (hlayer : layer ∈ effective.rowLayer purpose slot) :
    ∃ row, effective.rowOf purpose = some row ∧ slot row = some layer.2 := by
  obtain ⟨value, hvalue, rfl⟩ := mem_map.mp hlayer
  exact bind_eq_some_iff.mp (mem_toList.mp hvalue)

theorem resolveModel_own {models : Models} {defaults : Defaults} {row : Option PurposeDef}
    {model : ModelAssign} (hmodel : row.bind PurposeDef.model = some model)
    (hstates : model ≠ .inherit) :
    models.resolveModel defaults purpose row = .ok (model, "models.purposes." ++ purpose) := by
  unfold Models.resolveModel
  cases model with
  | inherit => exact absurd rfl hstates
  | auto pool => rw [hmodel]
  | fixed model => rw [hmodel]

theorem resolveModel_outer {models : Models} {defaults : Defaults} {row : Option PurposeDef}
    (hunstated : ∀ model, row.bind PurposeDef.model = some model → model = .inherit) :
    models.resolveModel defaults purpose row =
      match row.bind PurposeDef.group with
      | some group => do
        let held ← found (models.groups.get group)
          (.resolve ("models.purposes." ++ purpose ++ ".group") (.unknownGroupReference group))
        return (held.model, "models.groups." ++ group)
      | none => .ok (defaults.model, "models.defaults") := by
  unfold Models.resolveModel
  split
  · rename_i hmodel
    cases hunstated _ hmodel
  · rename_i hmodel
    cases hunstated _ hmodel
  · rfl

/-- Beneath a row that states no model, a group's own answer is right unless it defers to defaults
that state one. -/
theorem answers_group {row : PurposeDef} {group : String} {held : GroupDef}
    (hrow : effective.rowOf purpose = some row)
    (hunstated : ∀ model, row.model = some model → model = .inherit)
    (hgroup : row.group = some group) (hheld : effective.groupOf group = some held) :
    Answers ModelAssign.stated
        (effective.groupLayer purpose ++ effective.defaultLayers Defaults.model) held.model
        ("models.groups." ++ group) ↔ ¬ effective.GroupDefers purpose := by
  have hlayer : effective.groupLayer purpose = [("models.groups." ++ group, held.model)] := by
    unfold groupLayer
    rw [hrow, bind_some, hgroup]
    simp [hheld]
  rw [hlayer, singleton_append]
  by_cases hinherit : held.model = .inherit
  · have hstated : held.model.stated = false := by
      rw [hinherit]
      rfl
    rw [answers_unstated hstated]
    constructor
    · rintro hall ⟨_, _, _, _, _, _, _, _, layer, hmem, hstates⟩
      have := hall layer (mem_cons_of_mem _ hmem)
      simp [ModelAssign.stated, hstates] at this
    · intro hdefers layer hmem
      rcases mem_cons.mp hmem with rfl | hmem
      · exact hstated
      · by_contra hstates
        refine hdefers ⟨row, group, held, hrow, hunstated, hgroup, hheld, hinherit, layer, hmem, ?_⟩
        simpa [ModelAssign.stated] using hstates
  · refine iff_of_true (answers_cons (by simp [ModelAssign.stated, hinherit])) ?_
    rintro ⟨other, _, deferring, hother, _, hbinds, hholds, hdefers, _⟩
    obtain rfl := some.inj (hrow ▸ hother)
    obtain rfl := some.inj (hgroup ▸ hbinds)
    obtain rfl := some.inj (hheld ▸ hholds)
    exact hinherit hdefers

theorem resolveModel_answers (h : effective.Accepted) {defaults : Defaults}
    (hdefaults : effective.composed.models.defaults = some defaults) :
    ∃ answer, effective.composed.models.resolveModel defaults purpose
        (effective.rowOf purpose) = .ok answer ∧
      (Answers ModelAssign.stated
        (effective.rowLayer purpose PurposeDef.model ++ effective.groupLayer purpose ++
          effective.defaultLayers Defaults.model) answer.1 answer.2 ↔
        ¬ effective.GroupDefers purpose) := by
  by_cases hown : ∃ model, (effective.rowOf purpose).bind PurposeDef.model = some model ∧
      model ≠ .inherit
  · obtain ⟨model, hmodel, hstates⟩ := hown
    refine ⟨_, resolveModel_own hmodel hstates, iff_of_true ?_ ?_⟩
    · unfold rowLayer
      rw [hmodel, toList_some]
      exact answers_cons (by simp [ModelAssign.stated, hstates])
    · rintro ⟨row, _, _, hrow, hunstated, _⟩
      rw [hrow, bind_some] at hmodel
      exact hstates (hunstated model hmodel)
  · have hunstated : ∀ model, (effective.rowOf purpose).bind PurposeDef.model = some model →
        model = .inherit := by
      intro model hmodel
      by_contra hstates
      exact hown ⟨model, hmodel, hstates⟩
    have hlayers : ∀ layer ∈ effective.rowLayer purpose PurposeDef.model,
        layer.2.stated = false := by
      intro layer hlayer
      obtain ⟨row, hrow, hslot⟩ := mem_rowLayer hlayer
      rw [hunstated layer.2 (by rw [hrow]; exact hslot)]
      rfl
    simp only [resolveModel_outer hunstated, append_assoc, answers_append hlayers]
    cases hbound : (effective.rowOf purpose).bind PurposeDef.group with
    | none =>
      refine ⟨_, rfl, iff_of_true ?_ ?_⟩
      · unfold groupLayer
        rw [hbound]
        exact answers_default_model hdefaults
      · rintro ⟨row, group, _, hrow, _, hgroup, _⟩
        rw [hrow, bind_some, hgroup] at hbound
        cases hbound
    | some group =>
      obtain ⟨row, hrow, hgroup⟩ := bind_eq_some_iff.mp hbound
      obtain ⟨held, hheld⟩ := h.group_of_row hrow hgroup
      have hown : ∀ model, row.model = some model → model = .inherit := fun model hmodel =>
        hunstated model (by rw [hrow]; exact hmodel)
      refine ⟨(held.model, "models.groups." ++ group), ?_,
        answers_group hrow hown hgroup hheld⟩
      simp only [h.group, hheld]
      rfl

theorem effort_answers {defaults : Defaults}
    (hdefaults : effective.composed.models.defaults = some defaults) :
    Answers EffortAssign.stated
      (effective.rowLayer purpose PurposeDef.effort ++ effective.defaultLayers Defaults.effort)
      (Models.resolveEffort defaults purpose (effective.rowOf purpose)).1
      (Models.resolveEffort defaults purpose (effective.rowOf purpose)).2 := by
  unfold Models.resolveEffort
  split
  · rename_i hslot
    unfold rowLayer
    rw [hslot]
    exact answers_cons rfl
  · rename_i value hslot
    unfold rowLayer
    rw [hslot]
    exact answers_cons rfl
  · rename_i hauto hfixed
    refine (answers_append fun layer hlayer => ?_).mpr (answers_default_effort hdefaults)
    obtain ⟨row, hrow, hslot⟩ := mem_rowLayer hlayer
    have hslot : (effective.rowOf purpose).bind PurposeDef.effort = some layer.2 := by
      rw [hrow]
      exact hslot
    cases heffort : layer.2 with
    | inherit => rfl
    | auto => exact absurd (heffort ▸ hslot) hauto
    | fixed value => exact absurd (heffort ▸ hslot) (hfixed value)

theorem fallback_answers {defaults : Defaults}
    (hdefaults : effective.composed.models.defaults = some defaults) :
    Answers (fun _ => true)
      (effective.rowLayer purpose PurposeDef.fallback ++ effective.defaultLayers Defaults.fallback)
      (Models.resolveFallback defaults purpose (effective.rowOf purpose)).1
      (Models.resolveFallback defaults purpose (effective.rowOf purpose)).2 := by
  unfold Models.resolveFallback
  split
  · rename_i fallback hslot
    unfold rowLayer
    rw [hslot]
    exact answers_cons rfl
  · rename_i hslot
    unfold rowLayer
    rw [hslot]
    exact answers_default_fallback hdefaults

end EffectiveConfig

/-! ## Main result -/

/-- A purpose falls through its layers exactly where no bound group defers to defaults that state
a model. -/
theorem fallsThrough_iff {base : Named Item} {user : Option (Named Item)}
    {effective : EffectiveConfig} (h : resolveEffectiveOn base user = .ok effective)
    (purpose : String) :
    effective.FallsThrough purpose ↔ ¬ effective.GroupDefers purpose := by
  have haccepted := EffectiveConfig.accepted h
  unfold EffectiveConfig.FallsThrough Models.resolvePurpose
  rw [haccepted.row]
  cases hdefaults : effective.composed.models.defaults with
  | none =>
    have hnone : effective.user.defaults = none ∧ effective.base.defaults = none := by
      have hcomposed : composeDefaults effective.base.defaults effective.user.defaults = none :=
        hdefaults
      cases huser : effective.user.defaults with
      | some user =>
        rw [huser] at hcomposed
        cases hbase : effective.base.defaults <;> rw [hbase] at hcomposed <;> cases hcomposed
      | none =>
        rw [huser] at hcomposed
        exact ⟨rfl, by rwa [composeDefaults] at hcomposed⟩
    refine iff_of_true hnone ?_
    rintro ⟨_, _, _, _, _, _, _, _, layer, hlayer, _⟩
    unfold EffectiveConfig.defaultLayers at hlayer
    rw [hnone.1, hnone.2] at hlayer
    cases hlayer
  | some defaults =>
    obtain ⟨answer, hanswer, hiff⟩ :=
      @EffectiveConfig.resolveModel_answers effective purpose haccepted defaults hdefaults
    simp only [found_some, ok_bind, hanswer]
    constructor
    · rintro ⟨hmodel, -, -⟩
      exact hiff.mp hmodel
    · intro hdefers
      exact ⟨hiff.mpr hdefers, EffectiveConfig.effort_answers hdefaults,
        EffectiveConfig.fallback_answers hdefaults⟩

/-- A user's document that states one model and binds a purpose to a group of one model slot. -/
def boundDocument (group : Item) : Named Item :=
  [("config_version", .int 1),
    ("connections", .table [("home", .table [("kind", .str "local"),
      ("endpoint", .str "http://127.0.0.1:8080/v1")])]),
    ("models", .table
      [("defaults", .table
          [("model", .inline [("mode", .str "fixed"), ("connection", .str "home"),
              ("model_id", .str "large")]),
            ("effort", .inline [("mode", .str "auto")]),
            ("fallback", .inline [("mode", .str "off")])]),
        ("groups", .table [("shared", .table [("model", group)])]),
        ("purposes", .table [("review", .table [("group", .str "shared")])])])]

def boundModels (group : ModelAssign) : Models :=
  { defaults := some ⟨.fixed ⟨"home", "large"⟩, .auto, .off⟩
    groups := [("shared", ⟨group⟩)]
    purposes := [("review", ⟨some "shared", none, none, none, none, none⟩)] }

def boundConfig (group : ModelAssign) : EffectiveConfig :=
  ⟨⟨none, [], []⟩, some ⟨["home"], boundModels group⟩⟩

theorem resolve_bound_auto :
    resolveEffectiveOn [] (some (boundDocument (.inline [("mode", .str "auto")]))) =
      .ok (boundConfig (.auto none)) := by
  rfl

theorem fallsThrough_iff_auto :
    (boundConfig (.auto none)).FallsThrough "review" ↔
      ¬ (boundConfig (.auto none)).GroupDefers "review" :=
  fallsThrough_iff resolve_bound_auto "review"

/-- A group that defers is answered with itself, though the defaults beneath it state a model. -/
theorem group_inherit_stays :
    ∃ base user effective purpose, resolveEffectiveOn base user = .ok effective ∧
      ¬ effective.FallsThrough purpose := by
  refine ⟨[], some (boundDocument (.inline [("mode", .str "inherit")])), boundConfig .inherit,
    "review", rfl, ?_⟩
  rintro ⟨hmodel, -, -⟩
  have hanswer : ("models.defaults", ModelAssign.fixed ⟨"home", "large"⟩) =
      ("models.groups.shared", ModelAssign.inherit) := hmodel
  cases congrArg Prod.snd hanswer

end Rivect.Config
