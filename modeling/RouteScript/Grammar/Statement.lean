import RouteScript.Grammar.Rule
import RouteScript.Grammar.Restart
import RouteScript.Grammar.Atom
/-!
# Assignments, statements and blocks

```text
Block      := "{" Statement* "}"
Statement  := Assignment ";"
Assignment := Target "=" Value
Target     := Identifier | CoreVariable
Value      := Number | String | CoreVariable
```
-/
namespace RouteScript.Grammar

/-- What the rule finds, with `what` in the place of any mistake. -/
def orMissing (rule : Rule) (what : String) : Rule := do
  let found ← rule
  match ← outcomeOf found with
  | .success => return found
  | _ => missing what

/-- The left side of an assignment. -/
def target : Rule :=
  orMissing (choice [identifier, coreVariable]) "identifier or core variable"

/-- The right side of an assignment. -/
def value : Rule :=
  orMissing (choice [number, string, coreVariable]) "number, string or core variable"

/-- Gives the operands of an assignment the roles of their sides. -/
def markSides (t : Tree) (id : NodeId) : Tree :=
  match t.children id with
  | [left, _, right] => (t.setRole left "left").setRole right "right"
  | _ => t

/-- An assignment. -/
def assignment : Rule := do
  let found ← sequence .assignment [target, assignOperator, value]
  match ← outcomeOf found with
  | .success =>
    modifyTree (markSides · found)
    return found
  | _ => return found

/-- An assignment and the semicolon after it. -/
def statement : Rule := sequence .statement [assignment, terminator]

/-- An assignment outside of any block. It holds the semicolon after it, if there is one, in its
range only. -/
def topLevelAssignment : Rule := do
  let found ← assignment
  match ← outcomeOf found with
  | .success =>
    let closing ← optional terminator
    widenOver found closing
    return found
  | _ => return found

/-- Whether the token means that the brace of a block went missing before it. -/
def leavesBlock (t : LocatedToken) : Bool :=
  t.isEnd || t.kind = .route || t.kind = .directive

/-- Reads statements of a block up to its brace or to a mistake, which becomes part of the block.
Answers whether the block goes on. -/
def blockRound (block : NodeId) : Parse Bool := do
  adoptChildren block (← many .block statement)
  match ← takeIf? .rightBrace with
  | some closing =>
    widen block closing.range
    return false
  | none =>
    let unclosed := leavesBlock (← current)
    let error ← if unclosed then missing "\x7d" else statement
    widenOver block error
    keepMistake block error
    if unclosed || (← isStopped) then return false
    restart true
    return true

/-- A block. Only a missing brace at its start is a mistake of the block itself; all others are
kept inside it. -/
def block : Rule := do
  match ← takeIf? .leftBrace with
  | none => missing "\x7b"
  | some opening =>
    let node ← newNode ((Node.ofKind .block).withRange opening.range)
    whileAdvancing (blockRound node)
    return node

end RouteScript.Grammar
