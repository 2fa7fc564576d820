import RouteScript.Syntax.Edit
/-!
# Blueprints

A tree described from the top down, before it is built: each node with its value, role, ordered
children and named children. Building goes through the edits of the store, so a blueprint that no
sequence of edits could follow is refused with the reason of the first edit that is.
-/
namespace RouteScript

/-- A node to be built, and what is to hang below it. -/
inductive Blueprint where
  | node (kind : NodeKind) (value : Option Scalar) (role : Option String)
      (children : List Blueprint) (named : List (String × Blueprint))

namespace Blueprint

/-- A node that carries nothing. -/
def ofKind (kind : NodeKind) : Blueprint := .node kind none none [] []

/-- A leaf with a value. -/
def leaf (kind : NodeKind) (value : Scalar) : Blueprint := .node kind (some value) none [] []

/-- The leaf that records a mistake. -/
def error (message : String) : Blueprint := leaf .error (.text message)

/-- The blueprint with a role. -/
def withRole : Blueprint → String → Blueprint
  | .node kind value _ children named, role => .node kind value (some role) children named

/-- The blueprint with one more ordered child. -/
def withChild : Blueprint → Blueprint → Blueprint
  | .node kind value role children named, x => .node kind value role (children ++ [x]) named

/-- The blueprint with one more named child. -/
def withNamed : Blueprint → String → Blueprint → Blueprint
  | .node kind value role children named, name, x =>
    .node kind value role children (named ++ [(name, x)])

/-- The node of a blueprint before anything hangs below it. -/
def start (kind : NodeKind) (value : Option Scalar) (role : Option String) : Node :=
  { Node.ofKind kind with
    payload := match value with
      | some v => .scalar v
      | none => .nothing
    role := role }

mutual

/-- Adds the node of a blueprint to the store, and below it its ordered children, then its named
ones, each child with everything below it before it is attached. -/
def addTo (t : Tree) : Blueprint → Except TreeError (NodeId × Tree)
  | .node kind value role children named =>
    let (id, t) := t.push (start kind value role)
    match addChildren t id children with
    | .error e => .error e
    | .ok t => (addNamed t id named).map fun t => (id, t)

/-- Adds the ordered children of a node. -/
def addChildren (t : Tree) (id : NodeId) : List Blueprint → Except TreeError Tree
  | [] => .ok t
  | x :: xs =>
    match addTo t x with
    | .error e => .error e
    | .ok (child, t) =>
      match t.attach id child with
      | .error e => .error e
      | .ok t => addChildren t id xs

/-- Adds the named children of a node. -/
def addNamed (t : Tree) (id : NodeId) : List (String × Blueprint) → Except TreeError Tree
  | [] => .ok t
  | (name, x) :: xs =>
    match addTo t x with
    | .error e => .error e
    | .ok (child, t) =>
      match t.attachNamed id name child with
      | .error e => .error e
      | .ok t => addNamed t id xs

end

/-- The tree of a blueprint, with its topmost node as the root. -/
def build (b : Blueprint) : Except TreeError Tree :=
  (addTo .empty b).map fun (id, t) => t.setRoot id

end Blueprint
end RouteScript
