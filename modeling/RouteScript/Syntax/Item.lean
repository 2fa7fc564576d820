import RouteScript.Syntax.Tree
/-!
# Items: trees as nested values

An item is a node together with everything below it, as one value: no store, no indices, no
parents and no depths. What is printed of a tree, and what it means for two trees to be alike,
depends on the items of their nodes alone.
-/
namespace RouteScript

/-- What an item is, apart from what it carries. -/
structure Label where
  kind : NodeKind
  role : Option String
  range : Option ByteRange
  deriving DecidableEq, Inhabited

/-- The label of a node. -/
def Node.label (n : Node) : Label := ⟨n.kind, n.role, n.range⟩

/-- A node and everything below it, by what it carries. -/
inductive Item where
  | bare (label : Label)
  | leaf (label : Label) (value : Scalar)
  | list (label : Label) (items : List Item)
  | record (label : Label) (fields : List (String × Item))

namespace Item

/-- What an item is. -/
def label : Item → Label
  | .bare l | .leaf l _ | .list l _ | .record l _ => l

/-- The value of a leaf. -/
def scalar? : Item → Option Scalar
  | .leaf _ value => some value
  | _ => none

end Item

/-- The item of a node, down to `bound` levels. -/
def Tree.itemWithin (t : Tree) : Nat → NodeId → Item
  | 0, id => .bare (t.node id).label
  | bound + 1, id =>
    let n := t.node id
    match n.payload with
    | .nothing => .bare n.label
    | .scalar value => .leaf n.label value
    | .children ids => .list n.label (ids.map (t.itemWithin bound))
    | .named ids => .record n.label (ids.entries.map fun e => (e.1, t.itemWithin bound e.2))

/-- The item of a node. -/
def Tree.item (t : Tree) (id : NodeId) : Item := t.itemWithin t.size id

/-- The item of the root. -/
def Tree.rootItem? (t : Tree) : Option Item := t.root.map t.item

/-! ## Likeness -/

/-- Two labels agree if they are of one kind and no two roles stand against each other. A label
without a role goes with any, and ranges do not matter. -/
def Label.agrees (l m : Label) : Bool :=
  l.kind = m.kind &&
    match l.role, m.role with
    | some r, some s => r = s
    | _, _ => true

mutual

/-- Two items are alike if their labels agree and they carry the same, item by item. -/
def Item.alike : Item → Item → Bool
  | .bare l, .bare m => l.agrees m
  | .leaf l v, .leaf m w => l.agrees m && v = w
  | .list l xs, .list m ys => l.agrees m && alikeAll xs ys
  | .record l xs, .record m ys => l.agrees m && xs.length = ys.length && alikeFields xs ys
  | _, _ => false

/-- Whether two lists of items are as long as each other and alike place by place. -/
def Item.alikeAll : List Item → List Item → Bool
  | [], [] => true
  | x :: xs, y :: ys => x.alike y && alikeAll xs ys
  | _, _ => false

/-- Whether every field has one of its name on the other side that is alike. -/
def Item.alikeFields : List (String × Item) → List (String × Item) → Bool
  | [], _ => true
  | (name, x) :: xs, ys =>
    (match ys.lookup name with
      | some y => x.alike y
      | none => false) && alikeFields xs ys

end

/-- Whether the subtrees at two nodes are alike. -/
def Tree.alikeAt (t : Tree) (id : NodeId) (u : Tree) (other : NodeId) : Bool :=
  (t.item id).alike (u.item other)

/-- Whether two trees are alike from their roots on. Trees without a root are alike. -/
def Tree.alike (t u : Tree) : Bool :=
  match t.rootItem?, u.rootItem? with
  | some x, some y => x.alike y
  | none, none => true
  | _, _ => false

end RouteScript
