import RouteScript.Toml.Draft
import RouteScript.Toml.Scalar
/-!
# Documents of TOML

The format that settings are written in: comments, keys with dots in them, values, and headers of
tables. Arrays and inline tables may stand in each other, and keys may have parts, up to a fixed
depth.
-/
namespace RouteScript.Toml

/-- How deep arrays and inline tables may stand in each other, and how many parts a key may
have. -/
def maxDepth : Nat := 79

/-! ## Keys -/

/-- A character of a key without quotes. -/
def inBareKey (c : Char) : Bool := c.isAlphanum || c = '_' || c = '-'

/-- One part of a key. -/
def keyPart? (cs : List Char) : Option (String × List Char) :=
  match lineString? cs with
  | some read => some read
  | none =>
    let name := cs.takeWhile inBareKey
    if name.isEmpty then none else some (String.ofList name, cs.drop name.length)

/-- The parts of a key with dots between them, at most `bound` of them; blanks may stand around
each. -/
def keyParts? : Nat → List Char → Option (List String × List Char)
  | 0, _ => none
  | bound + 1, cs => do
    let (part, rest) ← keyPart? (skipBlanks cs)
    match skipBlanks rest with
    | '.' :: rest =>
      let (parts, rest) ← keyParts? bound rest
      return (part :: parts, rest)
    | rest => return ([part], rest)

/-- A key with the blanks around it. -/
def key? : List Char → Option (List String × List Char) := keyParts? maxDepth

/-! ## Values -/

mutual

/-- A value, in which `depth` more may stand in each other. Whatever it is made of takes at least
one character each, so the number of characters bounds the length of all of it. -/
def value? : Nat → Nat → List Char → Option (Value × List Char)
  | _, 0, _ => none
  | depth, bound + 1, cs =>
    match depth, cs with
    | 0, '[' :: _ | 0, '\x7b' :: _ => none
    | depth + 1, '[' :: rest =>
      (items? depth bound rest).map fun (xs, rest) => (.array xs, rest)
    | depth + 1, '\x7b' :: rest =>
      match skipBlanks rest with
      | '\x7d' :: rest => some (.table [], rest)
      | rest =>
        (pairs? depth bound [] rest).map fun (es, rest) => (.table (entriesToValues es), rest)
    | _, cs => scalar? cs
termination_by structural _ bound _ => bound

/-- The items of an array up to its closing bracket. -/
def items? : Nat → Nat → List Char → Option (List Value × List Char)
  | _, 0, _ => none
  | depth, bound + 1, cs =>
    match skipTrivia false cs with
    | ']' :: rest => some ([], rest)
    | cs => do
      let (v, rest) ← value? depth bound cs
      match skipTrivia false rest with
      | ',' :: rest =>
        let (vs, rest) ← items? depth bound rest
        return (v :: vs, rest)
      | ']' :: rest => return ([v], rest)
      | _ => none
termination_by structural _ bound _ => bound

/-- The pairs of an inline table up to its closing brace, all on one line, added to the
entries. -/
def pairs? : Nat → Nat → Entries → List Char → Option (Entries × List Char)
  | _, 0, _, _ => none
  | depth, bound + 1, es, cs => do
    let (key, v, rest) ← pair? depth bound cs
    let es ← bindKey? v key es
    match skipBlanks rest with
    | ',' :: rest => pairs? depth bound es rest
    | '\x7d' :: rest => return (es, rest)
    | _ => none
termination_by structural _ bound _ _ => bound

/-- A key, an equals sign and a value. -/
def pair? : Nat → Nat → List Char → Option (List String × Value × List Char)
  | _, 0, _ => none
  | depth, bound + 1, cs => do
    let (key, rest) ← key? cs
    match rest with
    | '=' :: rest =>
      let (v, rest) ← value? depth bound (skipBlanks rest)
      return (key, v, rest)
    | _ => none
termination_by structural _ bound _ => bound

end

/-! ## Lines -/

/-- The header of a table after its opening bracket. -/
def header? (cs : List Char) : Option (List String × List Char) := do
  let (key, rest) ← key? cs
  return (key, ← rest.head?.bind fun c => if c = ']' then some rest.tail else none)

/-- The header of one more table after its two opening brackets. -/
def nextHeader? (cs : List Char) : Option (List String × List Char) := do
  let (key, rest) ← header? cs
  return (key, ← rest.head?.bind fun c => if c = ']' then some rest.tail else none)

/-- The lines of a document, at most `bound` of them, added to what was read before; `current` is
the table that they belong to. -/
def lines? : Nat → List String → Entries → List Char → Option Entries
  | _, _, es, [] => some es
  | 0, _, _, _ => none
  | bound + 1, current, es, cs =>
    match skipComment (skipBlanks cs) with
    | '[' :: '[' :: rest => do
      let (key, rest) ← nextHeader? rest
      lines? bound key (← openNext? key es) (← lineEnd? rest)
    | '[' :: rest => do
      let (key, rest) ← header? rest
      lines? bound key (← openTable? key es) (← lineEnd? rest)
    | rest =>
      match lineBreak? rest with
      | some rest => lines? bound current es rest
      | none => do
        let (key, v, rest) ← pair? maxDepth (3 * rest.length + 3) rest
        lines? bound current (← within? (bindKey? v key) current es) (← lineEnd? rest)

/-- The entries of a document. A byte order mark may stand before it. -/
def document? (text : String) : Option (List (String × Value)) :=
  let cs := match text.toList with
    | '\uFEFF' :: cs => cs
    | cs => cs
  (lines? cs.length [] [] cs).map entriesToValues

end RouteScript.Toml
