import RouteScript.Syntax.Node
/-!
# Refused edits and failed look-ups
-/
namespace RouteScript

/-- Why an edit of a tree was refused, or a child not found. -/
inductive TreeError where
  /-- The node carries `found` where `expected` was needed. -/
  | wrongShape (kind : NodeKind) (expected found : Shape)
  | noChildAt (kind : NodeKind) (index count : Nat)
  | noChildNamed (kind : NodeKind) (name : String)
  /-- A node that stands for nothing is no child. -/
  | emptyChild
  /-- The child holds the node it was to hang under. -/
  | cycle
  deriving DecidableEq

/-- The error as a reader sees it. -/
def TreeError.message : TreeError → String
  | .wrongShape kind expected found =>
    kind.name ++ " node holds " ++ found.description ++ ", expected " ++ expected.description
  | .noChildAt kind index count =>
    kind.name ++ " node has " ++ toString count ++ " children, no child at index " ++
      toString index
  | .noChildNamed kind name => kind.name ++ " node has no child named `" ++ name ++ "`"
  | .emptyChild => "an Empty node cannot be attached as a child"
  | .cycle => "attaching the node would make it its own ancestor"

end RouteScript
