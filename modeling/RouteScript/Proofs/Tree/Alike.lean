import RouteScript.Proofs.Tree.Unranged
/-!
# Likeness

Items are alike by their kinds, their roles and what they carry; where they were read has no part
in it, so dropping ranges on either side changes no answer. An item that a tree holds is alike
itself: its fields have one name each, and a name finds its own field.
-/
namespace RouteScript

namespace Label

theorem agrees_self (l : Label) : l.agrees l = true := by
  cases h : l.role <;> simp [agrees, h]

@[simp] theorem unranged_agrees (l m : Label) : l.unranged.agrees m = l.agrees m := rfl

@[simp] theorem agrees_unranged (l m : Label) : l.agrees m.unranged = l.agrees m := rfl

end Label

namespace Item

/-! ## Ranges have no part in it -/

@[simp] theorem length_unrangedFields (fields : List (String × Item)) :
    (unrangedFields fields).length = fields.length := by
  rw [unrangedFields_eq_map, List.length_map]

mutual

theorem unranged_alike : ∀ x y : Item, x.unranged.alike y = x.alike y
  | .bare _, y => by cases y <;> simp [unranged, alike]
  | .leaf _ _, y => by cases y <;> simp [unranged, alike]
  | .list _ xs, y => by cases y <;> simp [unranged, alike, unranged_alikeAll xs]
  | .record _ fields, y => by
    cases y <;> simp [unranged, alike, unranged_alikeFields fields]

theorem unranged_alikeAll : ∀ xs ys : List Item, alikeAll (unrangedAll xs) ys = alikeAll xs ys
  | [], _ => rfl
  | x :: xs, [] => by simp [unrangedAll, alikeAll]
  | x :: xs, y :: ys => by
    simp [unrangedAll, alikeAll, unranged_alike x y, unranged_alikeAll xs ys]

theorem unranged_alikeFields : ∀ fields others : List (String × Item),
    alikeFields (unrangedFields fields) others = alikeFields fields others
  | [], _ => rfl
  | (name, x) :: fields, others => by
    rw [unrangedFields, alikeFields, alikeFields, unranged_alikeFields fields]
    cases others.lookup name with
    | none => rfl
    | some y => simp only [unranged_alike x y]

end

theorem lookup_unrangedFields (name : String) (fields : List (String × Item)) :
    (unrangedFields fields).lookup name = (fields.lookup name).map unranged := by
  induction fields with
  | nil => rfl
  | cons e fields ih =>
    rw [unrangedFields, List.lookup_cons, List.lookup_cons]
    split
    · rfl
    · exact ih

mutual

theorem alike_unranged : ∀ x y : Item, x.alike y.unranged = x.alike y
  | .bare _, y => by cases y <;> simp [unranged, alike]
  | .leaf _ _, y => by cases y <;> simp [unranged, alike]
  | .list _ xs, y => by cases y <;> simp [unranged, alike, alikeAll_unranged xs]
  | .record _ fields, y => by
    cases y <;> simp [unranged, alike, alikeFields_unranged fields]

theorem alikeAll_unranged : ∀ xs ys : List Item, alikeAll xs (unrangedAll ys) = alikeAll xs ys
  | [], [] => rfl
  | [], y :: ys => by simp [unrangedAll, alikeAll]
  | x :: xs, [] => rfl
  | x :: xs, y :: ys => by
    simp [unrangedAll, alikeAll, alike_unranged x y, alikeAll_unranged xs ys]

theorem alikeFields_unranged : ∀ fields others : List (String × Item),
    alikeFields fields (unrangedFields others) = alikeFields fields others
  | [], _ => rfl
  | (name, x) :: fields, others => by
    rw [alikeFields, alikeFields, alikeFields_unranged fields, lookup_unrangedFields]
    cases others.lookup name with
    | none => rfl
    | some y => simp only [Option.map_some, alike_unranged x y]

end

/-! ## Items are alike themselves -/

theorem alikeAll_self : ∀ {xs : List Item}, (∀ x ∈ xs, x.alike x = true) → alikeAll xs xs = true
  | [], _ => rfl
  | x :: xs, h => by
    have hx := h x List.mem_cons_self
    have hxs := alikeAll_self fun y hy => h y (List.mem_cons_of_mem x hy)
    simp [alikeAll, hx, hxs]

theorem alikeFields_of_lookup {others : List (String × Item)} : ∀ {fields : List (String × Item)},
    (∀ e ∈ fields, ∃ y, others.lookup e.1 = some y ∧ e.2.alike y = true) →
      alikeFields fields others = true
  | [], _ => rfl
  | (name, x) :: fields, h => by
    obtain ⟨y, hy, hxy⟩ := h (name, x) List.mem_cons_self
    have hfields := alikeFields_of_lookup fun e he => h e (List.mem_cons_of_mem _ he)
    simp [alikeFields, hy, hxy, hfields]

end Item

/-- In rising order of the names, each name finds its own value. -/
theorem lookup_of_sorted {α : Type} {entries : List (String × α)}
    (h : entries.Pairwise (·.1 < ·.1)) {e : String × α} (he : e ∈ entries) :
    entries.lookup e.1 = some e.2 := by
  induction entries with
  | nil => cases he
  | cons d entries ih =>
    obtain ⟨hd, hrest⟩ := List.pairwise_cons.1 h
    rw [List.lookup_cons]
    rcases List.mem_cons.1 he with rfl | he
    · simp
    · have hne : (e.1 == d.1) = false := beq_eq_false_iff_ne.2 fun heq =>
        String.lt_irrefl d.1 (heq ▸ hd e he)
      rw [hne]
      exact ih hrest he

namespace Tree

theorem alike_itemWithin (t : Tree) : ∀ (bound : Nat) (id : NodeId),
    (t.itemWithin bound id).alike (t.itemWithin bound id) = true
  | 0, id => by simp [itemWithin, Item.alike, Label.agrees_self]
  | bound + 1, id => by
    rw [itemWithin]
    cases (t.node id).payload with
    | nothing => simp [Item.alike, Label.agrees_self]
    | scalar v => simp [Item.alike, Label.agrees_self]
    | children ids =>
      have hall : Item.alikeAll (ids.map (t.itemWithin bound))
          (ids.map (t.itemWithin bound)) = true := by
        refine Item.alikeAll_self fun x hx => ?_
        obtain ⟨c, -, rfl⟩ := List.mem_map.1 hx
        exact alike_itemWithin t bound c
      simp [Item.alike, Label.agrees_self, hall]
    | named ids =>
      have hsorted : (ids.entries.map fun e => (e.1, t.itemWithin bound e.2)).Pairwise
          (·.1 < ·.1) := List.pairwise_map.2 ids.sorted
      have hall : Item.alikeFields (ids.entries.map fun e => (e.1, t.itemWithin bound e.2))
          (ids.entries.map fun e => (e.1, t.itemWithin bound e.2)) = true := by
        refine Item.alikeFields_of_lookup fun e he => ⟨e.2, lookup_of_sorted hsorted he, ?_⟩
        obtain ⟨d, -, rfl⟩ := List.mem_map.1 he
        exact alike_itemWithin t bound d.2
      simp [Item.alike, Label.agrees_self, hall]

/-- Every tree is alike itself. -/
theorem alike_self (t : Tree) : t.alike t = true := by
  rw [alike, rootItem?]
  cases t.root with
  | none => rfl
  | some root => exact alike_itemWithin t t.size root

@[simp] theorem clearRanges_alike (t u : Tree) : t.clearRanges.alike u = t.alike u := by
  rw [alike, alike, rootItem?_clearRanges]
  cases t.rootItem? with
  | none => rfl
  | some x =>
    cases u.rootItem? with
    | none => rfl
    | some y => exact x.unranged_alike y

@[simp] theorem alike_clearRanges (t u : Tree) : t.alike u.clearRanges = t.alike u := by
  rw [alike, alike, rootItem?_clearRanges]
  cases t.rootItem? with
  | none => cases u.rootItem? <;> rfl
  | some x =>
    cases u.rootItem? with
    | none => rfl
    | some y => exact x.alike_unranged y

end Tree
end RouteScript
