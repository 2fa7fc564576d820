import RouteScript.Grammar.State
/-!
# Rules of one token

Names, values, operators and core variables. A rule that does not find its token says so at the
current token and reads nothing.
-/
namespace RouteScript.Grammar

/-- The rule that reads one token of the kind and makes a node of it. -/
def oneOf (kind : TokenKind) (what : String) (node : Token → Node) : Rule := do
  match ← takeIf? kind with
  | some t => newNode ((node t.token).withRange t.range)
  | none => missing what

/-- A name. -/
def identifier : Rule :=
  oneOf .identifier "identifier" fun t => .leaf .identifier (.text t.literal.display)

/-- A string. -/
def string : Rule :=
  oneOf .string "string" fun t => .leaf .string (.text t.literal.display)

/-- An equals sign. -/
def assignOperator : Rule :=
  oneOf .assign "=" fun _ => .leaf .operator (.text "=")

/-- The semicolon that ends a statement. -/
def terminator : Rule :=
  oneOf .semicolon ";" fun _ => .ofKind .terminator

/-- An integer. The token has to carry one, whatever its kind says. -/
def number : Rule := do
  let t ← current
  match t.kind, t.token.literal with
  | .integer, .integer n =>
    let t ← readToken
    newNode ((Node.leaf .number (.integer n)).withRange t.range)
  | _, _ => missing "number"

/-- The kinds of the core variables that can stand in an assignment, by family. -/
def variableKind? : String → Option NodeKind
  | "var" => some .scriptVariable
  | "avp" => some .avpVariable
  | _ => none

/-- A core variable, its name as its only child. What counts is the literal of the token, not its
kind; a family that cannot be assigned is a mistake of its own. -/
def coreVariable : Rule := do
  let t ← current
  if t.isEnd then missing "core variable"
  else match t.token.literal with
    | .coreVariable family name =>
      match variableKind? family with
      | some kind =>
        let t ← readToken
        let variableId ← newNode ((Node.ofKind kind).withRange t.range)
        let nameId ← newNode ((Node.leaf .identifier (.text name)).withRange t.range)
        attach variableId nameId
        return variableId
      | none =>
        mistake ("Unsupported core variable `" ++ t.token.display ++
          "`, expected `$var` or `$avp`") t.range
    | _ => missing "core variable"

/-- The names of the directives that may open a file, each for a dialect. -/
def dialects : List String := ["SER", "KAMAILIO", "OPENSER", "MAXCOMPAT", "ALL"]

/-- A directive that names the dialect of the file. -/
def fileStarter : Rule := do
  let t ← current
  match t.kind, t.token.literal with
  | .directive, .text name =>
    if name ∈ dialects then
      let t ← readToken
      newNode ((Node.leaf .fileStarter (.text name)).withRange t.range)
    else missing "file starter"
  | _, _ => missing "file starter"

end RouteScript.Grammar
