import RouteScript.Syntax.Item
import RouteScript.Text.Quoted
/-!
# Trees as expressions

The indented text of an item: one pair of parentheses for each item, its kind first, then its value
or, each on a line of its own and one step further in, its items.
-/
namespace RouteScript

/-- The spaces before a line that stands `indent` steps in. -/
def indentation (indent : Nat) : String := String.ofList (List.replicate (2 * indent) ' ')

/-- A value in an expression; texts are quoted. -/
def Scalar.expression : Scalar → String
  | .text s => Text.quoted s
  | .integer n => toString n

/-- What stands before the contents of an item: its name in brackets if it is a field, its role,
and its kind after the parenthesis. -/
def Label.opening (l : Label) (indent : Nat) (name : Option String) : String :=
  indentation indent ++
    (match name with
      | some s => "[" ++ s ++ "] "
      | none => "") ++
    (match l.role with
      | some s => s ++ ": "
      | none => "") ++
    "(" ++ l.kind.name

mutual

/-- An item as an expression, `indent` steps in. -/
def Item.expression (indent : Nat) (name : Option String) : Item → String
  | .bare l => l.opening indent name ++ ")"
  | .leaf l value => l.opening indent name ++ " " ++ value.expression ++ ")"
  | .list l items => l.opening indent name ++ Item.listExpression (indent + 1) items ++ ")"
  | .record l fields => l.opening indent name ++ Item.recordExpression (indent + 1) fields ++ ")"

/-- Items below one another, each after a line break. -/
def Item.listExpression (indent : Nat) : List Item → String
  | [] => ""
  | x :: xs => "\n" ++ x.expression indent none ++ Item.listExpression indent xs

/-- Fields below one another, each after a line break. -/
def Item.recordExpression (indent : Nat) : List (String × Item) → String
  | [] => ""
  | (name, x) :: xs => "\n" ++ x.expression indent (some name) ++ Item.recordExpression indent xs

end

/-- The subtree at a node as an expression, `indent` steps in. -/
def Tree.expressionAt (t : Tree) (id : NodeId) (indent : Nat) : String :=
  (t.item id).expression indent none

/-- The tree as an expression. -/
def Tree.expression (t : Tree) : String :=
  match t.root with
  | some root => t.expressionAt root 0
  | none => "(<no root>)"

end RouteScript
