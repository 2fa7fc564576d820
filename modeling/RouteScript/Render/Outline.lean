import RouteScript.Syntax.Item
/-!
# Outlines

A tree drawn with one entry for each node. The entry of a node starts with two columns for each
level above it, blank below a last child and a bar below any other, then the branch it hangs on.
-/
namespace RouteScript

/-- The characters of a value that an outline shows. -/
def outlineWidth : Nat := 30

/-- A text cut to `width` characters, with dots in place of the rest. -/
def truncated (width : Nat) (s : String) : String :=
  if width < s.length then String.ofList (s.toList.take width) ++ "..." else s

/-- The entry of an item below the columns `lead`; `last` says whether it is the last child, and
`name` is its name if it is a field. -/
def Item.entry (lead : String) (last : Bool) (name : Option String) (x : Item) : String :=
  lead ++ (if last then "└─ " else "├─ ") ++
    (match name with
      | some s => s ++ " = "
      | none => "") ++
    x.label.kind.name ++
    (match x.label.role with
      | some s => " [" ++ s ++ "]"
      | none => "") ++
    (match x.scalar? with
      | some value => ": " ++ truncated outlineWidth value.display
      | none => "")

/-- The columns that stand below an item. -/
def leadBelow (lead : String) (last : Bool) : String := lead ++ if last then "  " else "│ "

mutual

/-- The entries of an item and of everything below it, from top to bottom. -/
def Item.entries (lead : String) (last : Bool) (name : Option String) : Item → List String
  | .bare l => [(Item.bare l).entry lead last name]
  | .leaf l value => [(Item.leaf l value).entry lead last name]
  | .list l items =>
    (Item.list l items).entry lead last name :: Item.listEntries (leadBelow lead last) items
  | .record l fields =>
    (Item.record l fields).entry lead last name :: Item.recordEntries (leadBelow lead last) fields

/-- The entries of the items of a list. -/
def Item.listEntries (lead : String) : List Item → List String
  | [] => []
  | x :: xs => x.entries lead xs.isEmpty none ++ Item.listEntries lead xs

/-- The entries of the fields of a record. -/
def Item.recordEntries (lead : String) : List (String × Item) → List String
  | [] => []
  | (name, x) :: xs => x.entries lead xs.isEmpty (some name) ++ Item.recordEntries lead xs

end

/-- The outline of an item, a line break after each entry. -/
def Item.outline (x : Item) : String :=
  String.join ((x.entries "" true none).map (· ++ "\n"))

/-- The outline of a tree, empty if it has no root. -/
def Tree.outline (t : Tree) : String :=
  match t.rootItem? with
  | some x => x.outline
  | none => ""

end RouteScript
