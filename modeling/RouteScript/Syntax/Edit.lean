import RouteScript.Syntax.Walk
/-!
# Edits

A node hangs under at most one other. Attaching it first takes it from where it hung, then stamps
parent and depth on it and on everything below it. An edit that is refused leaves the tree as it
was; of the reasons to refuse, the shape of the new parent is looked at first, then whether the
child stands for nothing, then whether it holds the new parent.
-/
namespace RouteScript
namespace Tree

/-! ## Stamps -/

/-- The node with the place it hangs at. -/
def place (t : Tree) (id parent : NodeId) (depth : UInt32) : Tree :=
  t.modify id fun n => { n with parent := some parent, depth := depth }

/-- Stamps parent and depth on everything below a node, down to `bound` levels: on all children,
and then below each of them, the last child first. -/
def stampWithin : Nat → Tree → NodeId → Tree
  | 0, t, _ => t
  | bound + 1, t, id =>
    let n := t.node id
    let placed := n.payload.ids.foldl (fun t child => t.place child id (n.depth + 1)) t
    n.payload.ids.foldr (fun child t => stampWithin bound t child) placed

/-- Stamps parent and depth on everything below a node. -/
def stampBelow (t : Tree) (id : NodeId) : Tree := stampWithin t.size t id

/-- Stamps the whole tree; the root lies at depth zero and hangs nowhere. -/
def stamp (t : Tree) : Tree :=
  match t.root with
  | none => t
  | some root =>
    (t.modify root fun n => { n with parent := none, depth := 0 }).stampBelow root

/-! ## Links -/

/-- Takes a node from the payload of its parent. A root that is taken from a parent is the root no
longer. -/
def unlink (t : Tree) (id : NodeId) : Tree :=
  match (t.node id).parent with
  | none => t
  | some parent =>
    let freed := (t.modify id fun n => { n with parent := none }).modify parent fun n =>
      { n with payload := n.payload.erase id }
    if freed.root = some id then { freed with root := none } else freed

/-- Hangs a node, which is in the payload of `parent` already, below it. -/
def settleUnder (t : Tree) (parent id : NodeId) : Tree :=
  (t.place id parent ((t.node parent).depth + 1)).stampBelow id

/-- Why a node cannot become a child of another, whatever the shape of the latter. -/
def refusal? (t : Tree) (parent child : NodeId) : Option TreeError :=
  if (t.node child).isEmpty then some .emptyChild
  else if t.isWithin child parent then some .cycle
  else none

/-- Why a node cannot become a child of another whose children are to have the given shape. -/
def refusalAs? (t : Tree) (shape : Shape) (parent child : NodeId) : Option TreeError :=
  let n := t.node parent
  if n.payload.shape ≠ .nothing ∧ n.payload.shape ≠ shape then
    some (.wrongShape n.kind shape n.payload.shape)
  else t.refusal? parent child

/-- Hangs a node as the last ordered child of another. -/
def hangLast (t : Tree) (parent child : NodeId) : Tree :=
  let linked := (t.unlink child).modify parent fun n =>
    { n with payload := .children (n.payload.ordered ++ [child]) }
  linked.settleUnder parent child

/-- Makes a node the last ordered child of another. -/
def attach (t : Tree) (parent child : NodeId) : Except TreeError Tree :=
  match t.refusalAs? .children parent child with
  | some e => .error e
  | none => .ok (t.hangLast parent child)

/-- Hangs a node as the child of another under a name. A child that had the name hangs nowhere
after that. -/
def hangNamed (t : Tree) (parent : NodeId) (name : String) (child : NodeId) : Tree :=
  let freed := t.unlink child
  let names := match (freed.node parent).payload with
    | .named ids => ids
    | _ => .empty
  let linked := freed.modify parent fun n =>
    { n with payload := .named (names.insert name child) }
  let cleared := match names.get? name with
    | some former => linked.modify former fun n => { n with parent := none }
    | none => linked
  cleared.settleUnder parent child

/-- Makes a node the child of another under a name. -/
def attachNamed (t : Tree) (parent : NodeId) (name : String) (child : NodeId) :
    Except TreeError Tree :=
  match t.refusalAs? .named parent child with
  | some e => .error e
  | none => .ok (t.hangNamed parent name child)

/-- Attaches nodes one after the other, up to the first that is refused. -/
def attachAll (t : Tree) (parent : NodeId) : List NodeId → Tree × Option TreeError
  | [] => (t, none)
  | child :: rest =>
    match t.refusalAs? .children parent child with
    | some e => (t, some e)
    | none => (t.hangLast parent child).attachAll parent rest

/-- Moves the ordered children of one node to the end of those of another, up to the first that is
refused. -/
def moveChildren (t : Tree) (target source : NodeId) : Tree × Option TreeError :=
  t.attachAll target (t.children source)

/-- Makes a node the root, taking it from where it hung. -/
def setRoot (t : Tree) (id : NodeId) : Tree :=
  { t.unlink id with root := some id }.stamp

/-! ## Marks -/

/-- Gives a node a role. -/
def setRole (t : Tree) (id : NodeId) (role : String) : Tree :=
  t.modify id fun n => { n with role := some role }

/-- Drops every byte range. -/
def clearRanges (t : Tree) : Tree :=
  { t with nodes := t.nodes.map fun n => { n with range := none } }

end Tree
end RouteScript
