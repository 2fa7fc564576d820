import RouteScript.Proofs.Tree.Edits
/-!
# Edits do not look at ranges

Every edit of a tree comes to the same whether the ranges are dropped before it or after it, and so
does every question that an edit asks first. Edits that only set ranges leave no trace once these
are dropped.
-/
namespace RouteScript

/-- The node without its range. -/
def Node.unranged (n : Node) : Node := { n with range := none }

@[simp] theorem Node.kind_unranged (n : Node) : n.unranged.kind = n.kind := rfl

@[simp] theorem Node.payload_unranged (n : Node) : n.unranged.payload = n.payload := rfl

@[simp] theorem Node.parent_unranged (n : Node) : n.unranged.parent = n.parent := rfl

@[simp] theorem Node.depth_unranged (n : Node) : n.unranged.depth = n.depth := rfl

@[simp] theorem Node.isEmpty_unranged (n : Node) : n.unranged.isEmpty = n.isEmpty := rfl

namespace Tree

variable {t : Tree} {f g : Node → Node} {id p c root : NodeId}

@[simp] theorem root_clearRanges (t : Tree) : t.clearRanges.root = t.root := rfl

@[simp] theorem size_clearRanges (t : Tree) : t.clearRanges.size = t.size := Array.size_map

@[simp] theorem node_cleared (t : Tree) (id : NodeId) :
    t.clearRanges.node id = (t.node id).unranged :=
  node_clearRanges t id

/-! ## Nodes -/

theorem clearRanges_push (t : Tree) (n : Node) :
    (t.push n).2.clearRanges = (t.clearRanges.push n.unranged).2 := by
  simp only [push, clearRanges, Array.map_push, Node.unranged]

/-- Changing a node so that nothing but its range depends on its range. -/
theorem clearRanges_modify (h : ∀ n : Node, (f n).unranged = g n.unranged) (t : Tree)
    (id : NodeId) : (t.modify id f).clearRanges = t.clearRanges.modify id g := by
  have hnodes : (t.nodes.modify id f).map Node.unranged =
      (t.nodes.map Node.unranged).modify id g := by
    refine Array.ext_getElem? fun i => ?_
    simp only [Array.getElem?_map, Array.getElem?_modify]
    split
    · cases t.nodes[i]? with
      | none => rfl
      | some n => exact congrArg some (h n)
    · rfl
  exact congrArg (Tree.mk · t.root) hnodes

/-- Setting a range leaves no trace. -/
theorem clearRanges_setRange (change : Node → Option ByteRange) (t : Tree) (id : NodeId) :
    (t.modify id fun n => { n with range := change n }).clearRanges = t.clearRanges := by
  rw [clearRanges_modify (f := fun n => { n with range := change n }) (g := fun n => n)
    fun _ => rfl]
  have hkept : t.clearRanges.nodes.modify id (fun n : Node => n) = t.clearRanges.nodes :=
    Array.ext_getElem? fun i => by rw [Array.getElem?_modify]; split <;> simp
  exact congrArg (Tree.mk · t.root) hkept

theorem clearRanges_setRole (t : Tree) (id : NodeId) (role : String) :
    (t.setRole id role).clearRanges = t.clearRanges.setRole id role :=
  clearRanges_modify (g := fun n => { n with role := some role }) (fun _ => rfl) t id

/-! ## Stamps -/

theorem clearRanges_place (t : Tree) (id parent : NodeId) (depth : UInt32) :
    (t.place id parent depth).clearRanges = t.clearRanges.place id parent depth :=
  clearRanges_modify (g := fun n => { n with parent := some parent, depth := depth })
    (fun _ => rfl) t id

theorem clearRanges_placeAll (parent : NodeId) (depth : UInt32) (ids : List NodeId) : ∀ t : Tree,
    (ids.foldl (fun t c => t.place c parent depth) t).clearRanges =
      ids.foldl (fun t c => t.place c parent depth) t.clearRanges := by
  induction ids with
  | nil => intro t; rfl
  | cons c ids ih => intro t; rw [List.foldl_cons, ih, clearRanges_place, List.foldl_cons]

theorem clearRanges_stampWithin : ∀ (bound : Nat) (t : Tree) (id : NodeId),
    (stampWithin bound t id).clearRanges = stampWithin bound t.clearRanges id
  | 0, _, _ => rfl
  | bound + 1, t, id => by
    simp only [stampWithin, node_cleared, Node.payload_unranged, Node.depth_unranged]
    rw [← clearRanges_placeAll]
    generalize (t.node id).payload.ids.foldl _ t = placed
    induction (t.node id).payload.ids with
    | nil => rfl
    | cons c ids ih => rw [List.foldr_cons, clearRanges_stampWithin bound, ih, List.foldr_cons]

theorem clearRanges_stampBelow (t : Tree) (id : NodeId) :
    (t.stampBelow id).clearRanges = t.clearRanges.stampBelow id := by
  rw [stampBelow, clearRanges_stampWithin, stampBelow, size_clearRanges]

theorem clearRanges_stamp (t : Tree) : t.stamp.clearRanges = t.clearRanges.stamp := by
  rw [stamp, stamp, root_clearRanges]
  cases t.root with
  | none => rfl
  | some root =>
    simp only
    rw [clearRanges_stampBelow,
      clearRanges_modify (g := fun n => { n with parent := none, depth := 0 }) fun _ => rfl]

/-! ## Links -/

theorem clearRanges_unlink (t : Tree) (id : NodeId) :
    (t.unlink id).clearRanges = t.clearRanges.unlink id := by
  rw [unlink, unlink, node_cleared, Node.parent_unranged]
  cases (t.node id).parent with
  | none => rfl
  | some parent =>
    have hfreed : ((t.modify id fun n => { n with parent := none }).modify parent fun n =>
          { n with payload := n.payload.erase id }).clearRanges =
        (t.clearRanges.modify id fun n => { n with parent := none }).modify parent fun n =>
          { n with payload := n.payload.erase id } := by
      rw [clearRanges_modify (g := fun n => { n with payload := n.payload.erase id }) fun _ => rfl,
        clearRanges_modify (g := fun n => { n with parent := none }) fun _ => rfl]
    simp only
    rw [← hfreed, root_clearRanges]
    split <;> rfl

theorem clearRanges_hangLast (t : Tree) (parent child : NodeId) :
    (t.hangLast parent child).clearRanges = t.clearRanges.hangLast parent child := by
  have hlinked : ((t.unlink child).modify parent fun n =>
        { n with payload := .children (n.payload.ordered ++ [child]) }).clearRanges =
      (t.clearRanges.unlink child).modify parent fun n =>
        { n with payload := .children (n.payload.ordered ++ [child]) } := by
    rw [clearRanges_modify (g := fun n =>
      { n with payload := .children (n.payload.ordered ++ [child]) }) fun _ => rfl,
      clearRanges_unlink]
  rw [hangLast, hangLast, ← hlinked, settleUnder, settleUnder, clearRanges_stampBelow,
    clearRanges_place, node_cleared]
  rfl

theorem clearRanges_setRoot (t : Tree) (id : NodeId) :
    (t.setRoot id).clearRanges = t.clearRanges.setRoot id := by
  rw [setRoot, setRoot, clearRanges_stamp, ← clearRanges_unlink]
  rfl

/-! ## Refusals -/

theorem lineageWithin_clearRanges (t : Tree) : ∀ (bound : Nat) (id : NodeId),
    t.clearRanges.lineageWithin bound id = t.lineageWithin bound id
  | 0, _ => rfl
  | bound + 1, id => by
    rw [lineageWithin, lineageWithin, node_cleared, Node.parent_unranged]
    cases (t.node id).parent with
    | none => rfl
    | some parent => exact congrArg (id :: ·) (lineageWithin_clearRanges t bound parent)

theorem refusalAs?_clearRanges (t : Tree) (shape : Shape) (parent child : NodeId) :
    t.clearRanges.refusalAs? shape parent child = t.refusalAs? shape parent child := by
  simp only [refusalAs?, refusal?, isWithin, lineage, size_clearRanges, lineageWithin_clearRanges,
    node_cleared, Node.kind_unranged, Node.payload_unranged, Node.isEmpty_unranged]
  rfl

theorem attachAll_clearRanges (parent : NodeId) : ∀ (ids : List NodeId) (t : Tree),
    t.clearRanges.attachAll parent ids =
      ((t.attachAll parent ids).1.clearRanges, (t.attachAll parent ids).2)
  | [], _ => rfl
  | c :: ids, t => by
    rw [attachAll, attachAll, refusalAs?_clearRanges]
    cases t.refusalAs? .children parent c with
    | some e => rfl
    | none =>
      simp only
      rw [← clearRanges_hangLast, attachAll_clearRanges parent ids]

theorem children_clearRanges (t : Tree) (id : NodeId) :
    t.clearRanges.children id = t.children id := by
  rw [children, children, node_cleared, Node.payload_unranged]

theorem moveChildren_clearRanges (t : Tree) (target source : NodeId) :
    t.clearRanges.moveChildren target source =
      ((t.moveChildren target source).1.clearRanges, (t.moveChildren target source).2) := by
  rw [moveChildren, children_clearRanges, attachAll_clearRanges]
  rfl

end Tree
end RouteScript
