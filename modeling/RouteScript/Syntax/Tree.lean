import RouteScript.Syntax.TreeError
/-!
# Trees

A tree is a store of nodes and the index of its root, if it has one. Nodes are added to the store
and never taken out of it; what belongs to the tree is what can be reached from the root. Links
run both ways: down through payloads, up through `parent`.

Every walk is bounded by the number of nodes in the store. A chain of nodes without a repetition
is no longer than that, so on payloads and parents without a cycle no walk is cut short.
-/
namespace RouteScript

/-- A store of nodes with a root among them. -/
structure Tree where
  nodes : Array Node
  root : Option NodeId
  deriving DecidableEq, Inhabited

namespace Tree

/-- The tree with nothing in its store. -/
def empty : Tree := ⟨#[], none⟩

/-- The number of nodes in the store, whether or not they hang in the tree. -/
def size (t : Tree) : Nat := t.nodes.size

/-- The node of an index; an index beyond the store answers like an empty node. -/
def node (t : Tree) (id : NodeId) : Node := (t.nodes[id]?).getD (.ofKind .empty)

/-- The tree with one node changed. -/
def modify (t : Tree) (id : NodeId) (f : Node → Node) : Tree :=
  { t with nodes := t.nodes.modify id f }

/-- The store with a node added, and the index of that node. -/
def push (t : Tree) (n : Node) : NodeId × Tree := (t.size, { t with nodes := t.nodes.push n })

/-- The kind of a node. -/
abbrev kind (t : Tree) (id : NodeId) : NodeKind := (t.node id).kind

/-- The ordered children of a node, none for the other shapes. -/
abbrev children (t : Tree) (id : NodeId) : List NodeId := (t.node id).payload.ordered

/-- All children of a node in the order of its payload. -/
abbrev childIds (t : Tree) (id : NodeId) : List NodeId := (t.node id).payload.ids

theorem node_eq_of_lt {t : Tree} {id : NodeId} (h : id < t.size) : t.node id = t.nodes[id] := by
  simp [node, Array.getElem?_eq_getElem h]

theorem node_push (t : Tree) (n : Node) (id : NodeId) :
    (t.push n).2.node id = if id = t.size then n else t.node id := by
  unfold node
  rw [show (t.push n).2.nodes = t.nodes.push n from rfl, Array.getElem?_push]
  by_cases h : id = t.nodes.size
  · rw [if_pos h, if_pos (show id = t.size from h), Option.getD_some]
  · rw [if_neg h, if_neg (show ¬ id = t.size from h)]

theorem node_modify {t : Tree} {id : NodeId} (h : id < t.size) (f : Node → Node) (x : NodeId) :
    (t.modify id f).node x = if x = id then f (t.node id) else t.node x := by
  simp only [modify, node, Array.getElem?_modify, eq_comm (a := x)]
  split
  · rename_i hx
    subst hx
    simp [Array.getElem?_eq_getElem h]
  · rfl

@[simp] theorem size_modify (t : Tree) (id : NodeId) (f : Node → Node) :
    (t.modify id f).size = t.size := by
  simp [modify, size]

@[simp] theorem size_push (t : Tree) (n : Node) : (t.push n).2.size = t.size + 1 := by
  simp [push, size]

/-! ## Children one by one -/

/-- The ordered child at an index. A node that carries nothing has no children; a node that
carries something else has none to be asked for. -/
def childAt (t : Tree) (id : NodeId) (index : Nat) : Except TreeError NodeId :=
  let n := t.node id
  match n.payload with
  | .children ids =>
    match ids[index]? with
    | some child => .ok child
    | none => .error (.noChildAt n.kind index ids.length)
  | .nothing => .error (.noChildAt n.kind index 0)
  | payload => .error (.wrongShape n.kind .children payload.shape)

/-- The child of a name. -/
def childNamed (t : Tree) (id : NodeId) (name : String) : Except TreeError NodeId :=
  let n := t.node id
  match n.payload with
  | .named ids =>
    match ids.get? name with
    | some child => .ok child
    | none => .error (.noChildNamed n.kind name)
  | .nothing => .error (.noChildNamed n.kind name)
  | payload => .error (.wrongShape n.kind .named payload.shape)

/-- The first ordered child that has the role. -/
def childWithRole? (t : Tree) (id : NodeId) (role : String) : Option NodeId :=
  (t.children id).find? fun child => (t.node child).role = some role

end Tree
end RouteScript
