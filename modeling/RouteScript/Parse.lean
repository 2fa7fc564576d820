import RouteScript.Grammar.Route
/-!
# Parsing

```text
Script   := TopLevel* End
TopLevel := FileStarter | TopLevelAssignment | Route
```

The rules of whole files, and the ways from tokens or a source to a tree. A parse always ends in a
tree: what is wrong with the tokens is in it, as nodes that record mistakes. Only a source that
cannot be scanned has none.
-/
namespace RouteScript

namespace Grammar

/-- The mistake to report where nothing that may stand at the top level was found: that of what the
current token looks like the start of, whichever alternative was tried last. -/
def diagnose (last : NodeId) : Rule := do
  match ← currentKind with
  | .directive => fileStarter
  | .identifier | .coreVariable => topLevelAssignment
  | .route => route
  | _ =>
    match ← outcomeOf last with
    | .failure => missing "top level statement"
    | _ => return last

/-- One construct of the top level, wrapped in a node. There is nothing more at the end of the
stream and once the parse has stopped. -/
def topLevel : Rule := do
  if (← atEnd) || (← isStopped) then nothing
  else
    let found ← choice [fileStarter, topLevelAssignment, route]
    match ← outcomeOf found with
    | .success =>
      let wrapper ← newNode (.ofKind .topLevel)
      attach wrapper found
      coverChildren wrapper
      return wrapper
    | _ => diagnose found

/-- Reads constructs up to a mistake, which becomes part of the root, and skips to where the parse
goes on. Answers whether it does. -/
def scriptRound (root : NodeId) : Parse Bool := do
  adoptChildren root (← many .root topLevel)
  if (← atEnd) || (← isStopped) then return false
  let error ← topLevel
  match ← outcomeOf error with
  | .failure =>
    keepMistake root error
    if ← isStopped then return false
    restart false
    return true
  | _ => return false

/-- The whole stream as the root of a tree, with the end of input as its last child. -/
def script : Rule := do
  let root ← newNode (.ofKind .root)
  whileAdvancing (scriptRound root)
  let closing ← readToEnd
  let last ← newNode ((Node.ofKind .endOfInput).withRange closing.range)
  attach root last
  coverChildren root
  return root

end Grammar

/-- The tree of a stream of tokens. -/
def parseTokens (options : ParseOptions) (tokens : List LocatedToken) : Tree :=
  let (root, s) := Grammar.script (.ofTokens options tokens) (.ofTokens tokens)
  s.tree.setRoot root

/-- The tree of tokens that come from nowhere; none of its nodes has a range. -/
def parseUnlocated (tokens : List Token) : Tree :=
  (parseTokens .default (tokens.map (⟨·, .empty 0⟩))).clearRanges

/-- The tree of a source. -/
def parse (settings : Settings) (source : List UInt8) : Except ScanError Tree :=
  (tokenStream settings.scan source).map (parseTokens settings.parse)

end RouteScript
