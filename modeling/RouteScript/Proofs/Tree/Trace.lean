import RouteScript.Proofs.Tree.Grow
/-!
# Traces

What a walk shows of a tree from its root on: of each node its kind, how deep it lies, its role and
its value, and of a mistake its range as well. The trace of an item is the same without a store
(`map_mark_preorder`), so that what two parses show can be compared by their items.
-/
namespace RouteScript

/-- What a walk shows of a node. -/
structure Visit where
  kind : NodeKind
  depth : UInt32
  role : Option String
  value : Option Scalar
  deriving DecidableEq

/-- What is told of a mistake. -/
structure Report where
  message : Option String
  range : Option ByteRange
  deriving DecidableEq

namespace Tree

/-- What the walk from the root shows, node by node. -/
def walk (t : Tree) : List Visit :=
  t.reachable.map fun id =>
    ⟨t.kind id, (t.node id).depth, (t.node id).role, (t.node id).scalar?⟩

/-- What is told of the mistakes of a tree, in the order in which they are listed. -/
def reports (t : Tree) : List Report :=
  t.errors.map fun id => ⟨(t.node id).message?, (t.node id).range⟩

end Tree

/-! ## Traces of items -/

/-- What is shown of a node, and the range if it is a mistake. -/
structure Mark where
  visit : Visit
  range : Option ByteRange

/-- What is told of a node if it is a mistake. -/
def Mark.report? (m : Mark) : Option Report :=
  if m.visit.kind = .error then
    match m.visit.value with
    | some (.text s) => some ⟨some s, m.range⟩
    | _ => some ⟨none, m.range⟩
  else none

/-- What is shown of a node with the label and the value at a depth. -/
def Label.mark (l : Label) (depth : UInt32) (value : Option Scalar) : Mark :=
  ⟨⟨l.kind, depth, l.role, value⟩, if l.kind = .error then l.range else none⟩

/-- The value of a payload that is one. -/
def Payload.scalar? : Payload → Option Scalar
  | .scalar value => some value
  | _ => none

mutual

/-- What is shown of an item at a depth and of all items below it, each before its children. -/
def Item.trace (depth : UInt32) : Item → List Mark
  | .bare l => [l.mark depth none]
  | .leaf l v => [l.mark depth (some v)]
  | .list l xs => l.mark depth none :: traceAll (depth + 1) xs
  | .record l fields => l.mark depth none :: traceFields (depth + 1) fields

/-- What is shown of several items. -/
def Item.traceAll (depth : UInt32) : List Item → List Mark
  | [] => []
  | x :: xs => x.trace depth ++ traceAll depth xs

/-- What is shown of several fields. -/
def Item.traceFields (depth : UInt32) : List (String × Item) → List Mark
  | [] => []
  | (_, x) :: fields => x.trace depth ++ traceFields depth fields

end

namespace Item

variable {x : Item} {xs ys : List Item} {l m : Label} {depth : UInt32}

theorem traceAll_eq_flatMap (depth : UInt32) : ∀ xs : List Item,
    traceAll depth xs = xs.flatMap (trace depth)
  | [] => rfl
  | x :: xs => by rw [traceAll, traceAll_eq_flatMap depth xs, List.flatMap_cons]

theorem traceFields_eq_flatMap (depth : UInt32) : ∀ fields : List (String × Item),
    traceFields depth fields = fields.flatMap fun e => e.2.trace depth
  | [] => rfl
  | (_, x) :: fields => by
    rw [traceFields, traceFields_eq_flatMap depth fields, List.flatMap_cons]

@[simp] theorem traceAll_append (depth : UInt32) (xs ys : List Item) :
    traceAll depth (xs ++ ys) = traceAll depth xs ++ traceAll depth ys := by
  simp only [traceAll_eq_flatMap, List.flatMap_append]

theorem trace_bundle (l : Label) (xs : List Item) (depth : UInt32) :
    (bundle l xs).trace depth = l.mark depth none :: traceAll (depth + 1) xs := by
  cases xs <;> rfl

theorem trace_build (l : Label) (f : NodeId → Item) (p : Payload) (depth : UInt32) :
    (build l f p).trace depth =
      l.mark depth p.scalar? :: p.ids.flatMap fun c => (f c).trace (depth + 1) := by
  cases p with
  | nothing => rfl
  | scalar _ => rfl
  | children ids =>
    rw [build, trace, traceAll_eq_flatMap, List.flatMap_map]
    rfl
  | named names =>
    rw [build, trace, traceFields_eq_flatMap, List.flatMap_map, Payload.ids, NameMap.values,
      List.flatMap_map]
    rfl

/-- Only of a mistake the range is shown. -/
theorem mark_congr (hk : l.kind = m.kind) (hr : l.role = m.role) (hne : m.kind ≠ .error)
    (value : Option Scalar) : l.mark depth value = m.mark depth value := by
  simp only [Label.mark, hk, hr, if_neg hne]

end Item

/-! ## Traces of trees -/

namespace Tree

variable {t : Tree} {id : NodeId}

/-- What is shown of a node of a tree. -/
def mark (t : Tree) (id : NodeId) : Mark :=
  (t.node id).label.mark (t.depth id) (t.node id).payload.scalar?

theorem map_mark_preorder (hs : t.Sound) (hid : id < t.size) :
    (t.preorder id).map t.mark = (t.item id).trace (t.depth id) := by
  refine hs.induction
    (motive := fun y => (t.preorder y).map t.mark = (t.item y).trace (t.depth y))
    (fun y hy ih => ?_) hid
  rw [preorder_eq hs hy, item_eq hs y, Item.trace_build, List.map_cons, List.map_flatMap]
  refine congrArg _ (List.flatMap_congr fun c hc => ?_)
  rw [ih c hc, hs.counted c y ((hs.linked y c).1 hc)]

theorem visit_mark (t : Tree) (id : NodeId) : (t.mark id).visit =
    ⟨t.kind id, (t.node id).depth, (t.node id).role, (t.node id).scalar?⟩ :=
  rfl

/-- A node is listed as a mistake exactly if its mark tells of one. -/
theorem report?_mark (t : Tree) (id : NodeId) : (t.mark id).report? =
    if (t.node id).isError then some ⟨(t.node id).message?, (t.node id).range⟩ else none := by
  rw [Mark.report?, visit_mark]
  by_cases h : (t.node id).kind = .error
  · have hrange : (t.mark id).range = (t.node id).range := if_pos h
    simp only [h, if_true, Node.isError, decide_true, Node.message?, Node.scalar?, Node.text?,
      hrange]
    cases (t.node id).payload with
    | scalar v => cases v <;> rfl
    | _ => rfl
  · simp [h, Node.isError]

variable {root : NodeId}

/-- What a walk shows is the trace of the item of the root. -/
theorem walk_eq (hs : t.Sound) (hroot : t.root = some root) (hlt : root < t.size)
    (hdepth : t.depth root = 0) : t.walk = ((t.item root).trace 0).map (·.visit) := by
  rw [← hdepth, ← map_mark_preorder hs hlt, List.map_map, walk, reachable, hroot]
  simp only
  rw [subtree_eq_preorder hs hlt]
  exact List.map_congr_left fun id _ => (visit_mark t id).symm

/-- The mistakes that are listed are those of the trace. -/
theorem reports_eq (hs : t.Sound) (hroot : t.root = some root) (hlt : root < t.size)
    (hdepth : t.depth root = 0) : t.reports = ((t.item root).trace 0).filterMap Mark.report? := by
  rw [← hdepth, ← map_mark_preorder hs hlt, List.filterMap_map, reports, errors, reachable, hroot]
  simp only
  rw [subtree_eq_preorder hs hlt, ← List.filterMap_eq_map, List.filterMap_filter]
  exact List.filterMap_congr fun id _ => (report?_mark t id).symm

end Tree
end RouteScript
