import RouteScript.Proofs.Tree.Grow
/-!
# Items without ranges

Dropping the ranges of a tree drops them from the items of its nodes and changes nothing else
(`item_clearRanges`); what is left of an item does not tell where in the source it was read.
-/
namespace RouteScript

/-- The label without its range. -/
def Label.unranged (l : Label) : Label := { l with range := none }

mutual

/-- The item without any range. -/
def Item.unranged : Item → Item
  | .bare l => .bare l.unranged
  | .leaf l v => .leaf l.unranged v
  | .list l xs => .list l.unranged (unrangedAll xs)
  | .record l fields => .record l.unranged (unrangedFields fields)

/-- Several items without any range. -/
def Item.unrangedAll : List Item → List Item
  | [] => []
  | x :: xs => x.unranged :: unrangedAll xs

/-- Several fields without any range. -/
def Item.unrangedFields : List (String × Item) → List (String × Item)
  | [] => []
  | (name, x) :: fields => (name, x.unranged) :: unrangedFields fields

end

namespace Item

variable {x : Item}

theorem unrangedAll_eq_map : ∀ xs : List Item, unrangedAll xs = xs.map unranged
  | [] => rfl
  | x :: xs => by rw [unrangedAll, unrangedAll_eq_map xs, List.map_cons]

theorem unrangedFields_eq_map : ∀ fields : List (String × Item),
    unrangedFields fields = fields.map fun e => (e.1, e.2.unranged)
  | [] => rfl
  | (_, x) :: fields => by rw [unrangedFields, unrangedFields_eq_map fields, List.map_cons]

@[simp] theorem label_unranged (x : Item) : x.unranged.label = x.label.unranged := by
  cases x <;> rfl

theorem unranged_list (l : Label) (xs : List Item) :
    (list l xs).unranged = list l.unranged (xs.map unranged) := by
  rw [unranged, unrangedAll_eq_map]

theorem unranged_build (l : Label) (f : NodeId → Item) (p : Payload) :
    (build l f p).unranged = build l.unranged (fun c => (f c).unranged) p := by
  cases p with
  | nothing => rfl
  | scalar _ => rfl
  | children ids =>
    rw [build, unranged_list, List.map_map]
    rfl
  | named m =>
    rw [build, unranged, unrangedFields_eq_map, List.map_map]
    rfl

theorem unranged_bundle (l : Label) (xs : List Item) :
    (bundle l xs).unranged = bundle l.unranged (xs.map unranged) := by
  cases xs with
  | nil => rfl
  | cons x xs => exact unranged_list l (x :: xs)

theorem unranged_withLabel (l : Label) (x : Item) :
    (x.withLabel l).unranged = x.unranged.withLabel l.unranged := by
  cases x <;> rfl

mutual

theorem parts_unranged : ∀ x : Item, x.unranged.parts = x.parts.map unranged
  | .bare _ => rfl
  | .leaf _ _ => rfl
  | .list l xs => by
    rw [unranged, parts, partsAll_unranged xs, parts, List.map_cons, unranged]
  | .record l fields => by
    rw [unranged, parts, partsFields_unranged fields, parts, List.map_cons, unranged]

theorem partsAll_unranged : ∀ xs : List Item,
    partsAll (unrangedAll xs) = (partsAll xs).map unranged
  | [] => rfl
  | x :: xs => by
    rw [unrangedAll, partsAll, parts_unranged x, partsAll_unranged xs, partsAll, List.map_append]

theorem partsFields_unranged : ∀ fields : List (String × Item),
    partsFields (unrangedFields fields) = (partsFields fields).map unranged
  | [] => rfl
  | (_, x) :: fields => by
    rw [unrangedFields, partsFields, parts_unranged x, partsFields_unranged fields, partsFields,
      List.map_append]

end

/-! ## Items without mistakes -/

/-- No part of the item is a mistake. -/
def Clean (x : Item) : Prop := ∀ y ∈ x.parts, y.label.kind ≠ .error

theorem clean_unranged : x.unranged.Clean ↔ x.Clean := by
  rw [Clean, parts_unranged, List.forall_mem_map]
  simp only [label_unranged]
  rfl

@[simp] theorem clean_bare {l : Label} : (bare l).Clean ↔ l.kind ≠ .error := by
  simp [Clean, parts, label]

@[simp] theorem clean_leaf {l : Label} {v : Scalar} : (leaf l v).Clean ↔ l.kind ≠ .error := by
  simp [Clean, parts, label]

@[simp] theorem clean_list {l : Label} {xs : List Item} :
    (list l xs).Clean ↔ l.kind ≠ .error ∧ ∀ x ∈ xs, x.Clean := by
  simp only [Clean, parts, List.forall_mem_cons, mem_partsAll]
  exact and_congr_right fun _ => ⟨fun h x hx y hy => h y ⟨x, hx, hy⟩,
    fun h y ⟨x, hx, hy⟩ => h x hx y hy⟩

@[simp] theorem clean_bundle {l : Label} {xs : List Item} :
    (bundle l xs).Clean ↔ l.kind ≠ .error ∧ ∀ x ∈ xs, x.Clean := by
  cases xs with
  | nil => rw [bundle, clean_bare]; simp
  | cons x xs => exact clean_list

end Item

namespace Tree

variable {t : Tree}

theorem itemWithin_clearRanges (t : Tree) : ∀ (bound : Nat) (id : NodeId),
    t.clearRanges.itemWithin bound id = (t.itemWithin bound id).unranged
  | 0, id => by
    rw [itemWithin, itemWithin, node_clearRanges]
    rfl
  | bound + 1, id => by
    rw [itemWithin_succ, itemWithin_succ, Item.unranged_build, node_clearRanges]
    exact Item.build_congr fun c _ => itemWithin_clearRanges t bound c

theorem item_clearRanges (t : Tree) (id : NodeId) :
    t.clearRanges.item id = (t.item id).unranged := by
  have hsize : t.clearRanges.size = t.size := Array.size_map
  rw [item, item, hsize, itemWithin_clearRanges]

theorem rootItem?_clearRanges (t : Tree) :
    t.clearRanges.rootItem? = t.rootItem?.map Item.unranged := by
  rw [rootItem?, rootItem?, Option.map_map]
  exact Option.map_congr fun id _ => item_clearRanges t id

end Tree
end RouteScript
