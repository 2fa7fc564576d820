import RouteScript.ByteRange
import RouteScript.Syntax.NameMap
/-!
# Nodes

A node of a syntax tree is its kind, what it carries, an optional role, the bytes it was read from,
and its place: parent and depth. Nodes live in a store and name each other by index, so what a node
carries below it are the indices of its children.
-/
namespace RouteScript

/-- The index of a node in its store. -/
abbrev NodeId := Nat

/-- What a node is. -/
inductive NodeKind where
  | root
  /-- Nothing was found, and nothing was missing. Never part of a finished tree. -/
  | empty
  /-- A mistake in the source; its text says which. -/
  | error
  | endOfInput
  /-- The semicolon that ends a statement. -/
  | terminator
  | topLevel
  | fileStarter
  | requestRoute | replyRoute | failureRoute | onReplyRoute | branchRoute | localRoute
  | startupRoute | route
  | block
  | statement
  | assignment
  | operator
  | identifier
  | number
  | string
  | scriptVariable
  | avpVariable
  deriving DecidableEq, Inhabited

namespace NodeKind

/-- The name of a kind in printed trees. -/
def name : NodeKind → String
  | .root => "Root"
  | .empty => "Empty"
  | .error => "Error"
  | .endOfInput => "Eof"
  | .terminator => "Eos"
  | .topLevel => "TopLevelStatement"
  | .fileStarter => "FileStarter"
  | .requestRoute => "RequestRoute"
  | .replyRoute => "ReplyRoute"
  | .failureRoute => "FailureRoute"
  | .onReplyRoute => "OnReplyRoute"
  | .branchRoute => "BranchRoute"
  | .localRoute => "LocalRoute"
  | .startupRoute => "StartupRoute"
  | .route => "Route"
  | .block => "Block"
  | .statement => "Statement"
  | .assignment => "Assignment"
  | .operator => "Operator"
  | .identifier => "Identifier"
  | .number => "Number"
  | .string => "String"
  | .scriptVariable => "CoreVarVar"
  | .avpVariable => "CoreVarAvp"

/-- The words that open a route, each with the kind of its route. -/
def ofRouteWord? : String → Option NodeKind
  | "request_route" => some .requestRoute
  | "reply_route" => some .replyRoute
  | "failure_route" => some .failureRoute
  | "onreply_route" => some .onReplyRoute
  | "branch_route" => some .branchRoute
  | "local_route" => some .localRoute
  | "startup_route" => some .startupRoute
  | "route" => some .route
  | _ => none

/-- Whether the kind is that of some route. -/
def isRoute : NodeKind → Bool
  | .requestRoute | .replyRoute | .failureRoute | .onReplyRoute | .branchRoute | .localRoute
  | .startupRoute | .route => true
  | _ => false

/-- Whether the kind is that of a core variable. -/
def isCoreVariable : NodeKind → Bool
  | .scriptVariable | .avpVariable => true
  | _ => false

end NodeKind

/-- The value of a leaf. -/
inductive Scalar where
  | text (s : String)
  | integer (n : Int)
  deriving DecidableEq, Inhabited

/-- A value as a reader sees it, a text without quotes. -/
def Scalar.display : Scalar → String
  | .text s => s
  | .integer n => toString n

/-- What a node carries, one of four shapes. -/
inductive Payload where
  | nothing
  | scalar (value : Scalar)
  | children (ids : List NodeId)
  | named (ids : NameMap NodeId)
  deriving DecidableEq, Inhabited

/-- The shapes of a payload. -/
inductive Shape where
  | nothing | scalar | children | named
  deriving DecidableEq, Inhabited

/-- A shape as an error message names it. -/
def Shape.description : Shape → String
  | .nothing => "no payload"
  | .scalar => "a scalar"
  | .children => "ordered children"
  | .named => "named children"

namespace Payload

/-- The shape of a payload. -/
def shape : Payload → Shape
  | .nothing => .nothing
  | .scalar _ => .scalar
  | .children _ => .children
  | .named _ => .named

/-- The ordered children, none for the other shapes. -/
def ordered : Payload → List NodeId
  | .children ids => ids
  | _ => []

/-- All children in the order of the payload, those with names by name. -/
def ids : Payload → List NodeId
  | .children ids => ids
  | .named m => m.values
  | _ => []

/-- The payload without one child. The shape stays, even when no child is left. -/
def erase (id : NodeId) : Payload → Payload
  | .children ids => .children (ids.filter (· ≠ id))
  | .named m => .named (m.filter (· ≠ id))
  | p => p

@[simp] theorem shape_erase (id : NodeId) (p : Payload) : (p.erase id).shape = p.shape := by
  cases p <;> rfl

end Payload

/-- A counter of 32 bits, read as the number it has come to. -/
instance coeCounter : Coe UInt32 Nat := ⟨UInt32.toNat⟩

/-- One node of a tree. -/
structure Node where
  kind : NodeKind
  payload : Payload
  /-- The side of an operand in an assignment, or the name of a route. -/
  role : Option String
  /-- The bytes the node was built from. -/
  range : Option ByteRange
  parent : Option NodeId
  /-- A counter of 32 bits, which begins again at zero after the last of its values. -/
  depth : UInt32
  deriving DecidableEq, Inhabited

namespace Node

/-- A node that carries nothing and hangs nowhere. -/
def ofKind (kind : NodeKind) : Node := ⟨kind, .nothing, none, none, none, 0⟩

/-- A leaf with a value. -/
def leaf (kind : NodeKind) (value : Scalar) : Node := { ofKind kind with payload := .scalar value }

/-- The leaf that records a mistake. -/
def error (message : String) : Node := leaf .error (.text message)

/-- The node read from a range. -/
def withRange (n : Node) (r : ByteRange) : Node := { n with range := some r }

/-- Whether the node records a mistake. -/
def isError (n : Node) : Bool := n.kind = .error

/-- Whether the node is of the kind that says nothing was found. -/
def isEmpty (n : Node) : Bool := n.kind = .empty

/-- Whether the node has no list of children, be it an empty one. -/
def isLeaf (n : Node) : Bool := n.payload.shape ≠ .children

/-- The value of a leaf. -/
def scalar? (n : Node) : Option Scalar :=
  match n.payload with
  | .scalar value => some value
  | _ => none

/-- The value of a leaf that is a text. -/
def text? (n : Node) : Option String :=
  match n.payload with
  | .scalar (.text s) => some s
  | _ => none

/-- The value of a leaf that is an integer. -/
def integer? (n : Node) : Option Int :=
  match n.payload with
  | .scalar (.integer k) => some k
  | _ => none

/-- The text of a node that records a mistake. -/
def message? (n : Node) : Option String := if n.kind = .error then n.text? else none

end Node
end RouteScript
