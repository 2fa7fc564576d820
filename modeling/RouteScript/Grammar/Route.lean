import RouteScript.Grammar.Statement
/-!
# Routes

```text
Route     := RouteWord RouteName? Block
RouteName := "[" (Identifier | Number | String) "]"
```

The word picks the kind of the node, and the name becomes its role. A plain `route` needs a name;
a route whose name is missing or not well formed is a route all the same, with a mistake in it.
-/
namespace RouteScript.Grammar

/-- The mistake `what` at the current token, with the cursor put back. -/
def missingFrom (start : List LocatedToken) (what : String) : Rule := do
  let error ← missing what
  moveTo start
  return error

/-- A name in brackets; what it finds is the node of the name alone. -/
def routeName : Rule := do
  let start := (← get).pending
  match ← takeIf? .leftBracket with
  | none => missing "["
  | some _ =>
    let name ← choice [identifier, number, string]
    match ← outcomeOf name with
    | .success =>
      match ← takeIf? .rightBracket with
      | some _ => return name
      | none => missingFrom start "]"
    | _ => missingFrom start "route name"

/-- The kind of the route that a token opens, if it opens one. -/
def routeKind? (t : Token) : Option NodeKind :=
  match t.kind, t.literal with
  | .route, .text word => NodeKind.ofRouteWord? word
  | _, _ => none

/-- What is said of a plain route without a name. -/
def nameRequired : String := "Route name is required"

/-- Reads the name of a route, if one stands here, and answers the mistake in it, if there is
one. -/
def readName (route : NodeId) (kind : NodeKind) : Parse (Option NodeId) := do
  let t ← current
  if t.kind = .leftBracket then
    let name ← routeName
    match ← outcomeOf name with
    | .failure =>
      skipName
      return some name
    | _ =>
      let role := ((← nodeOf name).scalar?.map Scalar.display).getD ""
      modifyTree (·.setRole route role)
      return none
  else if kind = .route then return some (← mistake nameRequired t.range)
  else return none

/-- Keeps the mistake in the name of a route and answers whether the parse goes on. -/
def keepNameError (route : NodeId) : Option NodeId → Parse Bool
  | none => return true
  | some error => do
    keepMistake route error
    widenOver route error
    return !(← isStopped)

/-- The body of a route, as its last child. -/
def routeBody (route : NodeId) : Parse Unit := do
  let body ← block
  attach route body
  widenOver route body

/-- A route. It fails only where no route opens or no brace comes after the name, and then keeps no
mistake. -/
def route : Rule := do
  let t ← current
  match routeKind? t.token with
  | none => missing "route"
  | some kind =>
    let start := (← get).pending
    let opening ← readToken
    let node ← newNode ((Node.ofKind kind).withRange opening.range)
    let error ← readName node kind
    if (← currentKind) ≠ .leftBrace then missingFrom start "\x7b"
    else
      if ← keepNameError node error then routeBody node
      return node

end RouteScript.Grammar
