/-!
# JSON documents

Documents whose numbers are integers, and their indented text: two spaces a level, every member of
an array or object on a line of its own. The members of an object keep the order they were given.
-/
namespace RouteScript

/-- A JSON document. -/
inductive Json where
  | null
  | string (s : String)
  | integer (n : Int)
  | array (items : List Json)
  | object (members : List (String × Json))

namespace Json

/-- A hexadecimal digit in lower case. -/
def hexDigit (n : Nat) : Char := (Nat.toDigits 16 n).getLastD '0'

/-- A character inside a string: quotes and backslashes with a backslash, controls by their short
escape or else by number, anything else as it is. -/
def escaped (c : Char) : List Char :=
  if c = '"' then ['\\', '"']
  else if c = '\\' then ['\\', '\\']
  else if c = '\x08' then ['\\', 'b']
  else if c = '\t' then ['\\', 't']
  else if c = '\n' then ['\\', 'n']
  else if c = '\x0c' then ['\\', 'f']
  else if c = '\r' then ['\\', 'r']
  else if c < ' ' then
    ['\\', 'u', '0', '0', hexDigit (c.toNat / 16), hexDigit (c.toNat % 16)]
  else [c]

/-- A string with its quotes. -/
def quoted (s : String) : String :=
  String.ofList ('"' :: s.toList.flatMap escaped ++ ['"'])

/-- A line break and the spaces of a level. -/
def newLine (level : Nat) : String := "\n" ++ String.ofList (List.replicate (2 * level) ' ')

mutual

/-- The text of a document inside `level` others. -/
def pretty (level : Nat) : Json → String
  | .null => "null"
  | .string s => quoted s
  | .integer n => toString n
  | .array [] => "[]"
  | .array (x :: xs) =>
    "[" ++ newLine (level + 1) ++ x.pretty (level + 1) ++ prettyItems (level + 1) xs ++
      newLine level ++ "]"
  | .object [] => "\x7b\x7d"
  | .object ((name, x) :: xs) =>
    "\x7b" ++ newLine (level + 1) ++ quoted name ++ ": " ++ x.pretty (level + 1) ++
      prettyMembers (level + 1) xs ++ newLine level ++ "\x7d"

/-- The items of an array after its first. -/
def prettyItems (level : Nat) : List Json → String
  | [] => ""
  | x :: xs => "," ++ newLine level ++ x.pretty level ++ prettyItems level xs

/-- The members of an object after its first. -/
def prettyMembers (level : Nat) : List (String × Json) → String
  | [] => ""
  | (name, x) :: xs =>
    "," ++ newLine level ++ quoted name ++ ": " ++ x.pretty level ++ prettyMembers level xs

end

/-- The text of a document. -/
def text (x : Json) : String := x.pretty 0

end Json
end RouteScript
