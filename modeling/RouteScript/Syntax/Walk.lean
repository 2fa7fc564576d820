import RouteScript.Syntax.Tree
/-!
# Walks

Up from a node along its parents, and down through everything below it. The way down is walked
with a stack of nodes still to visit; `preorder` says by recursion which order that is.
-/
namespace RouteScript
namespace Tree

/-! ## Upwards -/

/-- A node and its ancestors, nearest first, at most `bound` of them above the node. -/
def lineageWithin (t : Tree) : Nat → NodeId → List NodeId
  | 0, id => [id]
  | bound + 1, id =>
    match (t.node id).parent with
    | none => [id]
    | some parent => id :: t.lineageWithin bound parent

/-- A node and its ancestors, nearest first. -/
def lineage (t : Tree) (id : NodeId) : List NodeId := t.lineageWithin t.size id

/-- Whether `top` is the node or one of its ancestors. -/
def isWithin (t : Tree) (top id : NodeId) : Bool := (t.lineage id).contains top

/-- The topmost ancestor of a node, the node itself if it hangs nowhere. -/
def topOf (t : Tree) (id : NodeId) : NodeId := (t.lineage id).getLastD id

/-! ## Downwards -/

/-- The node, then the walks of its children in their order, down to `bound` levels. -/
def preorderWithin (t : Tree) : Nat → NodeId → List NodeId
  | 0, _ => []
  | bound + 1, id => id :: (t.childIds id).flatMap (t.preorderWithin bound)

/-- The node, then the walks of its children in their order. -/
def preorder (t : Tree) (id : NodeId) : List NodeId := t.preorderWithin t.size id

/-- How many visits the walk of a node takes, down to `bound` levels. -/
def spread (t : Tree) : Nat → NodeId → Nat
  | 0, _ => 0
  | bound + 1, id => (t.childIds id).foldr (fun child visits => t.spread bound child + visits) 1

/-- Visits the top of the stack and puts its children there in its place, `visits` times over. -/
def visit (t : Tree) : Nat → List NodeId → List NodeId
  | 0, _ => []
  | _, [] => []
  | visits + 1, id :: stack => id :: t.visit visits (t.childIds id ++ stack)

/-- A node and all nodes below it, each before its children. -/
def subtree (t : Tree) (id : NodeId) : List NodeId := t.visit (t.spread t.size id) [id]

/-- All nodes of the tree from the root on. -/
def reachable (t : Tree) : List NodeId :=
  match t.root with
  | some root => t.subtree root
  | none => []

/-- The nodes of the tree that record a mistake, in the order of the source. -/
def errors (t : Tree) : List NodeId := t.reachable.filter fun id => (t.node id).isError

/-- Whether the tree records a mistake. -/
def hasErrors (t : Tree) : Bool := !t.errors.isEmpty

end Tree
end RouteScript
