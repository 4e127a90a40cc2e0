import Rivect.Lib.Chain

/-! # Placing items behind what they depend on

`arranged` passes over the items again and again and places each whose dependencies are all placed.
It ends in an order of all of them, or at a pass that places nothing.
-/

namespace Rivect.Lib

open List

variable {α κ : Type} [DecidableEq κ] (key : α → κ) (deps : α → List κ)

/-- The item is not placed yet and all it depends on is. -/
def Ready (order : List κ) (item : α) : Prop := key item ∉ order ∧ ∀ d ∈ deps item, d ∈ order

instance (order : List κ) (item : α) : Decidable (Ready key deps order item) :=
  inferInstanceAs (Decidable (_ ∧ _))

def place (order : List κ) (item : α) : List κ :=
  if Ready key deps order item then order ++ [key item] else order

def pass (items : List α) (order : List κ) : List κ := items.foldl (place key deps) order

/-- The items that are not placed. -/
def left (items : List α) (order : List κ) : List α := items.filter fun item => key item ∉ order

section Growth

variable {key deps} {items : List α} {order : List κ} {item : α}

theorem prefix_place : order <+: place key deps order item := by
  unfold place
  split
  · exact prefix_append _ _
  · exact prefix_rfl

theorem prefix_pass (items : List α) (order : List κ) : order <+: pass key deps items order := by
  induction items generalizing order with
  | nil => exact prefix_rfl
  | cons item items ih => exact prefix_place.trans (ih _)

/-- A pass that does not lengthen the order found no item ready. -/
theorem not_ready_of_length (h : (pass key deps items order).length = order.length) :
    ∀ item ∈ items, ¬ Ready key deps order item := by
  induction items generalizing order with
  | nil => exact fun _ hitem => absurd hitem not_mem_nil
  | cons first items ih =>
    have hfirst : place key deps order first <+: pass key deps (first :: items) order :=
      prefix_pass items _
    have hplaced : order = place key deps order first :=
      prefix_place.eq_of_length_le (h ▸ hfirst.length_le)
    intro item hitem
    rcases mem_cons.mp hitem with rfl | hitem
    · intro hready
      rw [place, if_pos hready] at hplaced
      have hlength := congrArg List.length hplaced
      simp at hlength
    · refine ih ?_ item hitem
      rw [pass, foldl_cons, ← hplaced] at h
      exact h

/-- A pass that lengthens the order places an item that was not placed. -/
theorem exists_placed (h : (pass key deps items order).length ≠ order.length) :
    ∃ item ∈ items, key item ∉ order ∧ key item ∈ pass key deps items order := by
  induction items generalizing order with
  | nil => exact absurd rfl h
  | cons first items ih =>
    by_cases hready : Ready key deps order first
    · have hplaced : key first ∈ place key deps order first := by
        rw [place, if_pos hready]
        exact mem_append_right _ mem_cons_self
      exact ⟨first, mem_cons_self, hready.1, (prefix_pass items _).subset hplaced⟩
    · have hpass : pass key deps (first :: items) order = pass key deps items order := by
        rw [pass, foldl_cons, place, if_neg hready]
        rfl
      rw [hpass] at h ⊢
      obtain ⟨item, hitem, hplaced⟩ := ih h
      exact ⟨item, mem_cons_of_mem _ hitem, hplaced⟩

/-- A pass that lengthens the order leaves fewer items. -/
theorem left_pass_lt (h : (pass key deps items order).length ≠ order.length) :
    (left key items (pass key deps items order)).length < (left key items order).length := by
  obtain ⟨item, hitem, hnew, hplaced⟩ := exists_placed h
  have hsub : (left key items (pass key deps items order)).Sublist (left key items order) := by
    refine monotone_filter_right items fun other hother => ?_
    simp only [decide_eq_true_eq] at hother ⊢
    exact fun hmem => hother ((prefix_pass items order).subset hmem)
  refine Nat.lt_of_le_of_ne hsub.length_le fun hlength => ?_
  have hheld : item ∈ left key items order := mem_filter.mpr ⟨hitem, by simpa using hnew⟩
  rw [← hsub.eq_of_length hlength] at hheld
  simp [left, hplaced] at hheld

end Growth

/-- Passes until everything is placed, or until a pass places nothing: then the first item that is
not placed is answered. -/
def arranged (items : List α) (order : List κ) : Except α (List κ) :=
  match items.find? fun item => key item ∉ order with
  | none => .ok order
  | some stuck =>
    if _ : (pass key deps items order).length = order.length then .error stuck
    else arranged items (pass key deps items order)
termination_by (left key items order).length
decreasing_by
  rename_i h
  exact left_pass_lt h

/-! ## Orders -/

/-- `a` names an item that depends on `b`. -/
def DependsOn (items : List α) (a b : κ) : Prop := ∃ item ∈ items, key item = a ∧ b ∈ deps item

/-- Every key of the order is an item's, once, behind all that the item depends on. -/
structure Placed (items : List α) (order : List κ) : Prop where
  nodup : order.Nodup
  behind : ∀ before k after, order = before ++ k :: after →
    ∃ item ∈ items, key item = k ∧ ∀ d ∈ deps item, d ∈ before

/-- Where no item is ready and `stuck` is left. -/
structure Stuck (items : List α) (order : List κ) (stuck : α) : Prop where
  held : stuck ∈ items
  left : key stuck ∉ order
  none_ready : ∀ item ∈ items, ¬ Ready key deps order item

/-- What keeps an item from being placed. -/
def awaited (items : List α) (order : List κ) (k : κ) : Option κ :=
  (items.find? fun item => key item = k ∧ k ∉ order).bind fun item =>
    (deps item).find? fun d => d ∉ order

variable {key deps} {items : List α} {order : List κ}

omit [DecidableEq κ] in
theorem Placed.nil (items : List α) : Placed key deps items ([] : List κ) :=
  ⟨nodup_nil, fun before _ _ h => absurd h.symm (by simp)⟩

theorem Placed.place (h : Placed key deps items order) {item : α} (hitem : item ∈ items) :
    Placed key deps items (place key deps order item) := by
  unfold Lib.place
  split
  · rename_i hready
    refine ⟨?_, fun before k after hsplit => ?_⟩
    · exact nodup_append.mpr ⟨h.nodup, nodup_singleton _, fun a ha b hb hab =>
        hready.1 (mem_singleton.mp hb ▸ hab ▸ ha)⟩
    · rcases eq_nil_or_concat after with rfl | ⟨after, last, rfl⟩
      · obtain ⟨hbefore, hk⟩ := append_inj' hsplit rfl
        injection hk with hk
        exact ⟨item, hitem, hk, hbefore ▸ hready.2⟩
      · rw [concat_eq_append, ← cons_append, ← append_assoc] at hsplit
        exact h.behind before k after (append_inj' hsplit rfl).1
  · exact h

theorem Placed.pass (h : Placed key deps items order) :
    Placed key deps items (pass key deps items order) := by
  have hloop : ∀ some : List α, (∀ item ∈ some, item ∈ items) → ∀ order,
      Placed key deps items order → Placed key deps items (Lib.pass key deps some order) := by
    intro some hsome
    induction some with
    | nil => exact fun _ h => h
    | cons item some ih =>
      intro order h
      obtain ⟨hitem, hsome⟩ := forall_mem_cons.mp hsome
      exact ih hsome _ (h.place hitem)
  exact hloop items (fun _ hitem => hitem) order h

theorem arranged_ok {final : List κ} (h : Placed key deps items order)
    (hfinal : arranged key deps items order = .ok final) :
    Placed key deps items final ∧ ∀ item ∈ items, key item ∈ final := by
  fun_induction arranged key deps items order with
  | case1 order hnone =>
    injection hfinal with hfinal
    subst hfinal
    exact ⟨h, fun item hitem => by simpa using find?_eq_none.mp hnone item hitem⟩
  | case2 order stuck _ _ => cases hfinal
  | case3 order stuck _ _ ih => exact ih h.pass hfinal

theorem arranged_error {stuck : α} (h : arranged key deps items order = .error stuck) :
    ∃ final, Stuck key deps items final stuck := by
  fun_induction arranged key deps items order with
  | case1 order hnone => cases h
  | case2 order found hfound hlength =>
    injection h with h
    subst h
    refine ⟨order, mem_of_find?_eq_some hfound, ?_, not_ready_of_length hlength⟩
    simpa using find?_some hfound
  | case3 order found _ _ ih => exact ih h

theorem dependsOn_of_awaited {a b : κ} (h : awaited key deps items order a = some b) :
    DependsOn key deps items a b := by
  obtain ⟨item, hitem, hb⟩ := Option.bind_eq_some_iff.mp h
  have hkey : key item = a ∧ a ∉ order := by simpa using find?_some hitem
  exact ⟨item, mem_of_find?_eq_some hitem, hkey.1, mem_of_find?_eq_some hb⟩

/-- Where no item is ready, each that is left awaits another that is left. -/
theorem Stuck.awaits {stuck : α} (h : Stuck key deps items order stuck)
    (hknown : ∀ item ∈ items, ∀ d ∈ deps item, d ∈ items.map key) {a : κ}
    (ha : a ∈ items.map key) (hleft : a ∉ order) :
    ∃ b, awaited key deps items order a = some b ∧ b ∈ items.map key ∧ b ∉ order := by
  cases hfind : items.find? fun item => key item = a ∧ a ∉ order with
  | none =>
    obtain ⟨item, hitem, hkey⟩ := mem_map.mp ha
    exact absurd (find?_eq_none.mp hfind item hitem) (by simp [hkey, hleft])
  | some item =>
    have hitem := mem_of_find?_eq_some hfind
    have hkey : key item = a ∧ a ∉ order := by simpa using find?_some hfind
    have hready : ¬ ∀ d ∈ deps item, d ∈ order := fun hall =>
      h.none_ready item hitem ⟨hkey.1 ▸ hleft, hall⟩
    cases hdep : (deps item).find? fun d => d ∉ order with
    | none => exact absurd (fun d hd => by simpa using find?_eq_none.mp hdep d hd) hready
    | some b =>
      refine ⟨b, ?_, hknown item hitem b (mem_of_find?_eq_some hdep), ?_⟩
      · rw [awaited, hfind, Option.bind_some, hdep]
      · simpa using find?_some hdep

/-- A stuck item depends on a cycle or is on one. -/
theorem Stuck.cycle {stuck : α} (h : Stuck key deps items order stuck)
    (hknown : ∀ item ∈ items, ∀ d ∈ deps item, d ∈ items.map key) :
    ∃ c, Relation.ReflTransGen (DependsOn key deps items) (key stuck) c ∧
      Relation.TransGen (DependsOn key deps items) c c := by
  have hchain : ∀ n a, a ∈ items.map key → a ∉ order →
      (link (awaited key deps items order) n a).isSome := by
    intro n
    induction n with
    | zero => exact fun _ _ _ => rfl
    | succ n ih =>
      intro a ha hleft
      obtain ⟨b, hb, hmem, hleft⟩ := h.awaits hknown ha hleft
      rw [link, hb, Option.bind_some]
      exact ih b hmem hleft
  have hkeys : ∀ a b, awaited key deps items order a = some b → a ∈ items.map key := by
    intro a b hab
    obtain ⟨item, hitem, rfl, _⟩ := dependsOn_of_awaited hab
    exact mem_map_of_mem hitem
  obtain ⟨i, j, c, hij, -, hi, hj⟩ := exists_repeat hkeys
    (hchain _ (key stuck) (mem_map_of_mem h.held) h.left)
  have hback : link (awaited key deps items order) (j - i) c = some c := by
    rw [show j = i + (j - i) by omega, link_add, hi] at hj
    exact hj
  have hdepends : ∀ a b, Follows (awaited key deps items order) a b →
      DependsOn key deps items a b := fun _ _ => dependsOn_of_awaited
  refine ⟨c, ?_, ?_⟩
  · exact Relation.ReflTransGen.mono hdepends _ _ (follows_iff_link.mpr ⟨i, hi⟩)
  · exact Relation.TransGen.mono hdepends _ _ (transGen_of_link (by omega) hback)

section

variable (hkeys : (items.map key).Nodup) (h : Placed key deps items order) (hall : ∀ item ∈ items, key item ∈ order)
include hkeys h hall

theorem Placed.lt {a b : κ} (hab : DependsOn key deps items a b) :
    order.idxOf b < order.idxOf a := by
  obtain ⟨item, hitem, rfl, hb⟩ := hab
  obtain ⟨before, after, hsplit⟩ := append_of_mem (hall item hitem)
  obtain ⟨held, hheld, hkey, hdeps⟩ := h.behind before _ after hsplit
  rw [inj_on_of_nodup_map hkeys hheld hitem hkey] at hdeps
  have hbefore := hdeps b hb
  have hnot : key item ∉ before := by
    intro hmem
    have hnodup := h.nodup
    rw [hsplit] at hnodup
    exact (nodup_append.mp hnodup).2.2 _ hmem _ mem_cons_self rfl
  rw [hsplit, idxOf_append_of_mem hbefore, idxOf_append_of_notMem hnot,
    idxOf_cons_self, Nat.add_zero]
  exact idxOf_lt_length_of_mem hbefore

/-- What is placed as a whole has no cycle. -/
theorem Placed.acyclic (a : κ) :
    ¬ Relation.TransGen (DependsOn key deps items) a a := by
  intro hcycle
  have hlt : ∀ b, Relation.TransGen (DependsOn key deps items) a b →
      order.idxOf b < order.idxOf a := by
    intro b hb
    induction hb with
    | single hab => exact h.lt hkeys hall hab
    | tail _ hbc ih => exact (h.lt hkeys hall hbc).trans ih
  exact Nat.lt_irrefl _ (hlt a hcycle)

end

omit [DecidableEq κ] in
theorem Placed.perm (hkeys : (items.map key).Nodup) (h : Placed key deps items order)
    (hall : ∀ item ∈ items, key item ∈ order) : order.Perm (items.map key) := by
  refine (perm_ext_iff_of_nodup h.nodup hkeys).mpr fun k => ?_
  constructor
  · intro hk
    obtain ⟨before, after, hsplit⟩ := append_of_mem hk
    obtain ⟨item, hitem, rfl, -⟩ := h.behind before k after hsplit
    exact mem_map_of_mem hitem
  · intro hk
    obtain ⟨item, hitem, rfl⟩ := mem_map.mp hk
    exact hall item hitem

end Rivect.Lib
