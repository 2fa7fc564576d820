import RouteScript.Settings.Basic
import RouteScript.Syntax.Edit
import RouteScript.Token.Settle
/-!
# The state of a parse

A parse reads a stream of tokens from left to right and builds nodes into a store as it goes. Its
cursor is the list of tokens still to read; the token that closes the stream is kept apart, so
there is always a current token and the cursor can never run out.

What a rule finds is a node, and the kind of the node says how the rule fared: a mistake, nothing
at all, or anything else for a success. One empty node, the first of the store, stands for nothing
wherever nothing is found.
-/
namespace RouteScript

/-- How a rule fared. -/
inductive Outcome where
  | success | nothing | failure
  deriving DecidableEq

/-- What the kind of a node says about the rule that found it. -/
def NodeKind.outcome : NodeKind → Outcome
  | .empty => .nothing
  | .error => .failure
  | _ => .success

/-- The range around the ranges of all children that have one. -/
def Tree.childrenRange? (t : Tree) (id : NodeId) : Option ByteRange :=
  match (t.children id).filterMap fun child => (t.node child).range with
  | [] => none
  | r :: rest => some (rest.foldl ByteRange.join r)

namespace Grammar

/-- What stays the same throughout a parse. -/
structure Context where
  options : ParseOptions
  /-- The token that closes the stream. -/
  closing : LocatedToken

/-- What a parse changes. -/
structure State where
  /-- The tokens still to read, the closing one not among them. -/
  pending : List LocatedToken
  tree : Tree
  /-- How many mistakes are in the tree. -/
  mistakes : Nat
  /-- Whether the parse has kept a mistake that it may not go on after. -/
  stopped : Bool
  /-- Why the tree turned down attachments, if it ever did. -/
  refusals : List TreeError

/-- A step of a parse. -/
abbrev Parse := ReaderT Context (StateM State)

/-- A rule of the grammar: a step that finds a node. -/
abbrev Rule := Parse NodeId

/-- The tokens of a stream without the one that closes it, and that one. A stream that is not
closed is closed where its last token ends. -/
def splitClosing (tokens : List LocatedToken) : List LocatedToken × LocatedToken :=
  match tokens.getLast? with
  | none => ([], .endAt 0)
  | some t => if t.isEnd then (tokens.dropLast, t) else (tokens, .endAt t.range.stop)

/-- The context of a parse of the tokens. -/
def Context.ofTokens (options : ParseOptions) (tokens : List LocatedToken) : Context :=
  ⟨options, (splitClosing tokens).2⟩

/-- The node that stands for nothing. -/
def nothingId : NodeId := 0

/-- The state before a parse of the tokens: all of them still to read, and one empty node. -/
def State.ofTokens (tokens : List LocatedToken) : State :=
  ⟨(splitClosing tokens).1, ⟨#[.ofKind .empty], none⟩, 0, false, []⟩

/-! ## The cursor -/

/-- The current token. -/
def current : Parse LocatedToken := do
  return (← get).pending.headD (← read).closing

/-- Whether the current token closes the stream. -/
def atEnd : Parse Bool := return (← current).isEnd

/-- The kind of the current token. -/
def currentKind : Parse TokenKind := return (← current).kind

/-- Puts the cursor before the given tokens. -/
def moveTo (pending : List LocatedToken) : Parse Unit :=
  modify fun s => { s with pending }

/-- Reads the current token. One that closes the stream stays the current token. -/
def readToken : Parse LocatedToken := do
  let t ← current
  unless t.isEnd do moveTo (← get).pending.tail
  return t

/-- Skips what is left and answers the token that closes the stream. -/
def readToEnd : Parse LocatedToken := do
  moveTo []
  return (← read).closing

/-- Reads the current token if it is of the kind. -/
def takeIf? (kind : TokenKind) : Parse (Option LocatedToken) := do
  if (← currentKind) = kind then return some (← readToken) else return none

/-- Runs `round` again and again, as long as it answers yes and brings the cursor forward. -/
def whileAdvancing (round : Parse Bool) (context : Context) (s : State) : Unit × State :=
  let left := s.pending.length
  let (more, next) := round context s
  if next.pending.length < left ∧ more then whileAdvancing round context next else ((), next)
termination_by s.pending.length
decreasing_by rename_i h; exact h.1

/-! ## Nodes -/

/-- Adds a node to the store. -/
def newNode (n : Node) : Rule := modifyGet fun s =>
  let (id, tree) := s.tree.push n
  (id, { s with tree })

/-- A node of the store. -/
def nodeOf (id : NodeId) : Parse Node := return (← get).tree.node id

/-- How the rule fared that found the node. -/
def outcomeOf (id : NodeId) : Parse Outcome := return (← nodeOf id).kind.outcome

/-- Changes the tree. -/
def modifyTree (f : Tree → Tree) : Parse Unit := modify fun s => { s with tree := f s.tree }

/-- Makes a node the last child of another. What the tree turns down is left undone. -/
def attach (parent child : NodeId) : Parse Unit := modify fun s =>
  match s.tree.refusalAs? .children parent child with
  | some e => { s with refusals := s.refusals ++ [e] }
  | none => { s with tree := s.tree.hangLast parent child }

/-- Moves the ordered children of one node to the end of those of another. What the tree turns down
is left undone, and what comes after it stays where it was. -/
def adoptChildren (target source : NodeId) : Parse Unit := modify fun s =>
  let (tree, refusal) := s.tree.moveChildren target source
  { s with tree, refusals := s.refusals ++ refusal.toList }

/-- Gives a node without a range the range around its children. -/
def coverChildren (id : NodeId) : Parse Unit := modifyTree fun t =>
  if (t.node id).range.isSome then t
  else t.modify id fun n => { n with range := t.childrenRange? id }

/-- Widens the range of a node to hold another range. -/
def widen (id : NodeId) (r : ByteRange) : Parse Unit := modifyTree fun t =>
  t.modify id fun n => { n with range := some (n.range.elim r (·.join r)) }

/-- Widens the range of a node to hold that of another node, if it has one. -/
def widenOver (id other : NodeId) : Parse Unit := do
  match (← nodeOf other).range with
  | some r => widen id r
  | none => return

/-! ## Mistakes -/

/-- A mistake at a range. -/
def mistake (message : String) (r : ByteRange) : Rule := newNode ((Node.error message).withRange r)

/-- What is said of a token that stands where something else was to come. -/
def missingMessage (what : String) (found : Token) : String :=
  "Expected `" ++ what ++ "` but got " ++
    if found.isEnd then "EOF" else "`" ++ found.display ++ "`"

/-- The mistake that the current token is not `what`. -/
def missing (what : String) : Rule := do
  let t ← current
  mistake (missingMessage what t.token) t.range

/-- Whether the parse may go on after the mistakes it has kept. -/
def mayGoOn : Parse Bool := do
  let options := (← read).options
  return options.recover && (← get).mistakes < options.maxErrors

/-- Makes a mistake the last child of a node, and counts it. The parse stops once it may not go on
after it. -/
def keepMistake (parent error : NodeId) : Parse Unit := do
  modify fun s => { s with mistakes := s.mistakes + 1 }
  attach parent error
  unless ← mayGoOn do modify fun s => { s with stopped := true }

/-- Whether the parse has stopped. -/
def isStopped : Parse Bool := return (← get).stopped

end Grammar
end RouteScript
