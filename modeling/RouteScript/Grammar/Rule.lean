import RouteScript.Grammar.State
/-!
# Rules made of rules

Each combinator takes rules and makes a rule of them. They keep to one contract: a rule that finds
a mistake leaves the cursor where it was. Only `sequence` can fail after it has read something, and
it puts the cursor back itself.
-/
namespace RouteScript.Grammar

/-- The rule that reads nothing and finds nothing. -/
def nothing : Rule := pure nothingId

/-- Runs the rest of a sequence that began at `start`, its nodes to become children of `node`. -/
def sequenceFrom (start : List LocatedToken) (node : NodeId) : List Rule → Rule
  | [] => do
    coverChildren node
    return node
  | rule :: rest => do
    let found ← rule
    match ← outcomeOf found with
    | .failure =>
      moveTo start
      return found
    | .nothing => sequenceFrom start node rest
    | .success =>
      attach node found
      sequenceFrom start node rest

/-- Runs the rules in order and makes what they find the children of a new node. The first mistake
ends it, with the cursor back at the start. -/
def sequence (kind : NodeKind) (rules : List Rule) : Rule := do
  let start := (← get).pending
  let node ← newNode (.ofKind kind)
  sequenceFrom start node rules

/-- Tries the rest of the alternatives; `failure` is what those before them came to. -/
def choiceFrom (failure : NodeId) : List Rule → Rule
  | [] => pure failure
  | rule :: rest => do
    let found ← rule
    match ← outcomeOf found with
    | .success => return found
    | .failure => choiceFrom found rest
    | .nothing => choiceFrom failure rest

/-- The first alternative that succeeds. If none does, the last mistake among them, or nothing if
there was none. -/
def choice (rules : List Rule) : Rule := choiceFrom nothingId rules

/-- What the rule finds if it succeeds, and nothing otherwise. -/
def optional (rule : Rule) : Rule := do
  let found ← rule
  match ← outcomeOf found with
  | .success => return found
  | _ => nothing

/-- Runs the rule once and makes what it finds a child of the node; answers whether it succeeded. -/
def collectOne (node : NodeId) (rule : Rule) : Parse Bool := do
  let found ← rule
  match ← outcomeOf found with
  | .success =>
    attach node found
    return true
  | _ => return false

/-- Makes what the rule finds children of the node, until it succeeds no more or reads nothing. -/
def collect (node : NodeId) (rule : Rule) : Parse Unit := whileAdvancing (collectOne node rule)

/-- A new node with all that the rule finds as its children. It never fails. -/
def many (kind : NodeKind) (rule : Rule) : Rule := do
  let node ← newNode (.ofKind kind)
  collect node rule
  coverChildren node
  return node

end RouteScript.Grammar
