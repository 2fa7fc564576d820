import RouteScript.Number.Binary64
import RouteScript.Text.Lowercase
/-!
# Layered values

Settings are merged from several sources before anything is asked of them, so until then they are
plain values: a tree of tables and arrays. Names in tables are kept in lower case. Setting a table
merges it into what is there, name by name; setting anything else replaces what is there.
-/
namespace RouteScript

/-- A value of a setting or of a whole source of settings. -/
inductive Value where
  | nil
  | boolean (b : Bool)
  | integer (n : Int)
  | float (x : Binary64)
  | string (s : String)
  | array (items : List Value)
  | table (entries : List (String × Value))

namespace Value

/-- The entries of a table, none for any other value. -/
def entries : Value → List (String × Value)
  | .table es => es
  | _ => []

/-- The items of an array, none for any other value. -/
def items : Value → List Value
  | .array xs => xs
  | _ => []

/-- Entries with one name bound anew, in the place it had or else at the end. -/
def bindEntry (name : String) (v : Value) : List (String × Value) → List (String × Value)
  | [] => [(name, v)]
  | e :: es => if e.1 = name then (name, v) :: es else e :: bindEntry name v es

/-- The value as a table, with a name bound. What is no table counts as an empty one. -/
def bind (root : Value) (name : String) (v : Value) : Value :=
  .table (bindEntry name v root.entries)

mutual

/-- Sets a name of a table, merging a table into the value that is there. -/
def setName (root : Value) (name : String) : Value → Value
  | .table es =>
    let former := (root.entries.lookup (Text.lower name)).getD (.table [])
    root.bind (Text.lower name) (setNames former es)
  | v => root.bind (Text.lower name) v

/-- Sets one name after the other. -/
def setNames (root : Value) : List (String × Value) → Value
  | [] => root
  | (name, v) :: rest => setNames (setName root name v) rest

end

/-! ## Paths -/

/-- A step into a value. -/
inductive Step where
  | name (s : String)
  /-- A place in an array; a negative one counts from its end. -/
  | index (i : Int)
  deriving DecidableEq

/-- The place that an index means in an array of some length. -/
def place (i : Int) (length : Nat) : Nat := if 0 ≤ i then i.toNat else (length + i).toNat

/-- The items with one of them set, made longer by nils as needed. -/
def setItem (xs : List Value) (i : Nat) (v : Value) : List Value :=
  (xs ++ List.replicate (i + 1 - xs.length) Value.nil).set i v

/-- Sets what a path leads to. On the way, whatever is not a table or an array where one is needed
gives way to an empty one. -/
def setPath (root : Value) (v : Value) : List Step → Value
  | [] => v
  | [.name s] => root.setName s v
  | .name s :: rest =>
    let former := (root.entries.lookup (Text.lower s)).getD .nil
    root.bind (Text.lower s) (former.setPath v rest)
  | .index i :: rest =>
    let i := place i root.items.length
    let former := (root.items[i]?).getD .nil
    .array (setItem root.items i (former.setPath v rest))

/-- A character that a name in a path may hold. -/
def inPathName (c : Char) : Bool := c.isAlphanum || c = ' ' || c = '_' || c = '-'

/-- A name at the head of a path, with what follows it. -/
def pathName? (cs : List Char) : Option (Step × List Char) :=
  let name := cs.takeWhile inPathName
  if name.isEmpty then none else some (.name (String.ofList name), cs.drop name.length)

/-- Drops spaces and tabs. -/
def skipSpaces (cs : List Char) : List Char := cs.dropWhile fun c => c = ' ' || c = '\t'

/-- An index after its opening bracket, with what follows the closing one. The index fits in a
word. -/
def pathIndex? (cs : List Char) : Option (Step × List Char) :=
  let cs := skipSpaces cs
  let negative : Bool := cs.head? = some '-'
  let cs := if negative then cs.drop 1 else cs
  let digits := cs.takeWhile Char.isDigit
  match (String.ofList digits).toNat?, skipSpaces (cs.drop digits.length) with
  | some n, ']' :: rest =>
    let i : Int := if negative then -n else n
    if Word64.fitsSigned i then some (.index i, rest) else none
  | _, _ => none

/-- The steps of the rest of a path: names after dots, indices in brackets. Each takes two
characters or more, so as many steps as there are characters are enough. -/
def pathSteps? : Nat → List Char → Option (List Step)
  | _, [] => some []
  | 0, _ => none
  | bound + 1, c :: cs =>
    let step := if c = '.' then pathName? cs else if c = '[' then pathIndex? cs else none
    step.bind fun (step, rest) => (pathSteps? bound rest).map (step :: ·)

/-- The steps of a path, which starts with a name. -/
def path? (s : String) : Option (List Step) :=
  (pathName? s.toList).bind fun (step, rest) => (pathSteps? rest.length rest).map (step :: ·)

end Value
end RouteScript
