import RouteScript.Json
import RouteScript.Syntax.Item
/-!
# Trees as JSON

The document of an item is one object: kind, role, value, range, items, fields, in that order, and
only those that are there. An empty list of items leaves no trace.
-/
namespace RouteScript

/-- A value in a document. -/
def Scalar.document : Scalar → Json
  | .text s => .string s
  | .integer n => .integer n

/-- A range in a document: start and end. -/
def ByteRange.document (r : ByteRange) : Json := .array [.integer r.start, .integer r.stop]

/-- The members of an object with what the item carries given by value, items and fields. -/
def Label.members (l : Label) (value : Option Scalar) (items : List Json)
    (fields : List (String × Json)) : List (String × Json) :=
  [("kind", .string l.kind.name)] ++
    (l.role.map fun s => ("role", Json.string s)).toList ++
    (value.map fun v => ("value", v.document)).toList ++
    (l.range.map fun r => ("span", r.document)).toList ++
    (if items.isEmpty then [] else [("children", .array items)]) ++
    (if fields.isEmpty then [] else [("named", .object fields)])

mutual

/-- The document of an item. -/
def Item.document : Item → Json
  | .bare l => .object (l.members none [] [])
  | .leaf l value => .object (l.members (some value) [] [])
  | .list l items => .object (l.members none (Item.listDocuments items) [])
  | .record l fields => .object (l.members none [] (Item.recordDocuments fields))

/-- The documents of the items of a list. -/
def Item.listDocuments : List Item → List Json
  | [] => []
  | x :: xs => x.document :: Item.listDocuments xs

/-- The documents of the fields of a record, with their names. -/
def Item.recordDocuments : List (String × Item) → List (String × Json)
  | [] => []
  | (name, x) :: xs => (name, x.document) :: Item.recordDocuments xs

end

/-- The document of a tree, `null` if it has no root. -/
def Tree.document (t : Tree) : Json :=
  match t.rootItem? with
  | some x => x.document
  | none => .null

end RouteScript
