import RouteScript.Syntax.Tree
/-!
# Nodes at an offset

The way from the root to what stands at a byte of the source. At each node it goes on with the
first ordered child whose range holds the offset; a child without a range is gone into if it has
children, but not reported.
-/
namespace RouteScript
namespace Tree

/-- Whether the range of a node holds the offset. -/
def covers (t : Tree) (id : NodeId) (offset : Nat) : Bool :=
  (t.node id).range.any (·.contains offset)

/-- Whether the way to the offset may go through a node. -/
def leadsTo (t : Tree) (offset : Nat) (id : NodeId) : Bool :=
  match (t.node id).range with
  | some r => r.contains offset
  | none => !(t.children id).isEmpty

/-- The nodes on the way from `id` on, at most `bound` of them. -/
def pathWithin (t : Tree) (offset : Nat) : Nat → NodeId → List NodeId
  | 0, _ => []
  | bound + 1, id =>
    id :: match (t.children id).find? (t.leadsTo offset) with
      | some child => t.pathWithin offset bound child
      | none => []

/-- The nodes whose range holds the offset on the way from the root, outermost first. -/
def nodesAt (t : Tree) (offset : Nat) : List NodeId :=
  match t.root with
  | some root => (t.pathWithin offset t.size root).filter fun id => t.covers id offset
  | none => []

end Tree

/-- A node in one line: its kind, its role in brackets, its value. -/
def Node.summary (n : Node) : String :=
  "- " ++ n.kind.name ++
    (match n.role with
      | some s => " [" ++ s ++ "]"
      | none => "") ++
    (match n.scalar? with
      | some value => ": " ++ value.display
      | none => "")

/-- What stands at an offset, a line for each node. -/
def Tree.describeAt (t : Tree) (offset : Nat) : String :=
  match t.nodesAt offset with
  | [] => "No AST nodes at this position"
  | ids => String.intercalate "\n" (ids.map fun id => (t.node id).summary)

end RouteScript
