import RouteScript.Parse
import RouteScript.Proofs.Tree.Grow
/-!
# Readings

A reading is a rule without a store: it answers the item it finds and where the parse stands then.
A rule that does not succeed leaves the parse where it stood, and a reading cannot say otherwise.
There is one reading for each rule of the grammar, made of the same tests in the same order;
`RouteScript.Proofs.Grammar.Agree` shows that the rules come to what their readings say.
-/
namespace RouteScript

namespace NodeKind

variable {kind : NodeKind}

theorem isRoute_ofRouteWord? {word : String} (h : ofRouteWord? word = some kind) :
    kind.isRoute = true := by
  unfold ofRouteWord? at h
  split at h <;> cases h <;> rfl

theorem outcome_of_isRoute (h : kind.isRoute = true) : kind.outcome = .success := by
  cases kind <;> first | rfl | cases h

theorem isCoreVariable_variableKind? {family : String}
    (h : Grammar.variableKind? family = some kind) : kind.isCoreVariable = true := by
  unfold Grammar.variableKind? at h
  split at h <;> cases h <;> rfl

theorem outcome_of_isCoreVariable (h : kind.isCoreVariable = true) : kind.outcome = .success := by
  cases kind <;> first | rfl | cases h

theorem ne_empty_of_outcome (h : kind.outcome = .success) : kind ≠ .empty := by
  rintro rfl
  cases h

theorem ne_error_of_outcome (h : kind.outcome = .success) : kind ≠ .error := by
  rintro rfl
  cases h

end NodeKind

/-- The label with its range widened to hold another. -/
def Label.widen (l : Label) (r : ByteRange) : Label :=
  { l with range := some (l.range.elim r (·.join r)) }

/-- The label with its range widened to hold another, if there is one. -/
def Label.over (l : Label) : Option ByteRange → Label
  | some r => l.widen r
  | none => l

@[simp] theorem Label.kind_over (l : Label) (r : Option ByteRange) : (l.over r).kind = l.kind := by
  cases r <;> rfl

@[simp] theorem Label.role_over (l : Label) (r : Option ByteRange) : (l.over r).role = l.role := by
  cases r <;> rfl

namespace Item

/-- The range around those of several items. -/
def rangeAround (xs : List Item) : Option ByteRange :=
  match xs.filterMap (·.label.range) with
  | [] => none
  | r :: rest => some (rest.foldl ByteRange.join r)

/-- The item of a node with these items below it and the range around them. -/
def covered (kind : NodeKind) (xs : List Item) : Item := bundle ⟨kind, none, rangeAround xs⟩ xs

/-- The item with a role. -/
def withRole (role : String) (x : Item) : Item := x.withLabel { x.label with role := some role }

/-- The item with its range widened over that of another, if that has one. -/
def widenOver (x y : Item) : Item := x.withLabel (x.label.over y.label.range)

@[simp] theorem label_widenOver (x y : Item) :
    (x.widenOver y).label = x.label.over y.label.range := label_withLabel ..

@[simp] theorem widenOver_bundle (l : Label) (xs : List Item) (y : Item) :
    (bundle l xs).widenOver y = bundle (l.over y.label.range) xs := by
  rw [widenOver, withLabel_bundle, label_bundle]

end Item

/-- The item of a node that has no children. -/
def Node.alone (n : Node) : Item := .build n.label (fun _ => .bare n.label) n.payload

namespace Grammar

/-- Where a parse stands: its state without the tree. -/
structure Stand where
  pending : List LocatedToken
  mistakes : Nat
  stopped : Bool

/-- Where a state stands. -/
def State.stand (s : State) : Stand := ⟨s.pending, s.mistakes, s.stopped⟩

/-- A mistake and where it lies. -/
structure Fault where
  message : String
  range : ByteRange

/-- The node that records a fault. -/
def Fault.node (e : Fault) : Node := (Node.error e.message).withRange e.range

/-- The item that records a fault. -/
def Fault.item (e : Fault) : Item := e.node.alone

/-- What a rule comes to. Only a success moves the parse on. -/
inductive Result where
  | nothing
  | fault (e : Fault)
  | found (x : Item) (after : Stand)

/-- How the rule fared that comes to a result. -/
def Result.outcome : Result → Outcome
  | .nothing => .nothing
  | .fault _ => .failure
  | .found _ _ => .success

/-- A rule as a function on where the parse stands. -/
abbrev Reading := Context → Stand → Result

namespace Stand

/-- The current token. -/
def current (c : Context) (s : Stand) : LocatedToken := s.pending.headD c.closing

/-- After the current token, unless that one closes the stream. -/
def advance (c : Context) (s : Stand) : Stand :=
  if (s.current c).isEnd then s else { s with pending := s.pending.tail }

/-- At other tokens of the stream. -/
def goTo (s : Stand) (pending : List LocatedToken) : Stand := { s with pending }

/-- After one more mistake was kept. -/
def keep (c : Context) (s : Stand) : Stand :=
  { s with
    mistakes := s.mistakes + 1
    stopped := s.stopped || !(c.options.recover && decide (s.mistakes + 1 < c.options.maxErrors)) }

/-- After one more mistake was kept and the tokens up to a place to go on were skipped. -/
def restart (inBlock : Bool) (c : Context) (s : Stand) : Stand :=
  (s.keep c).goTo (restartFrom inBlock 0 true s.pending)

end Stand

/-- The fault that the current token is not `what`. -/
def Fault.missing (what : String) (c : Context) (s : Stand) : Fault :=
  ⟨missingMessage what (s.current c).token, (s.current c).range⟩

namespace Reading

/-! ## Combinators -/

/-- The first alternative that succeeds, or else the last fault. -/
def choiceFrom (failure : Result) (c : Context) (s : Stand) : List Reading → Result
  | [] => failure
  | f :: fs =>
    match f c s with
    | .found x after => .found x after
    | .fault e => choiceFrom (.fault e) c s fs
    | .nothing => choiceFrom failure c s fs

def choice (fs : List Reading) : Reading := fun c s => choiceFrom .nothing c s fs

/-- What several readings find one after the other, behind what was found before. -/
def sequenceFrom (kind : NodeKind) (c : Context) : List Item → Stand → List Reading → Result
  | xs, s, [] => .found (.covered kind xs) s
  | xs, s, f :: fs =>
    match f c s with
    | .found x after => sequenceFrom kind c (xs ++ [x]) after fs
    | .fault e => .fault e
    | .nothing => sequenceFrom kind c xs s fs

def sequence (kind : NodeKind) (fs : List Reading) : Reading := fun c s =>
  sequenceFrom kind c [] s fs

/-- All that the reading finds, until it succeeds no more or reads nothing. -/
def collect (f : Reading) (c : Context) (s : Stand) : List Item × Stand :=
  match f c s with
  | .found x after =>
    if after.pending.length < s.pending.length then
      (x :: (collect f c after).1, (collect f c after).2)
    else ([x], after)
  | _ => ([], s)
termination_by s.pending.length

/-- What the reading finds, with `what` in the place of any fault. -/
def orMissing (f : Reading) (what : String) : Reading := fun c s =>
  match f c s with
  | .found x after => .found x after
  | _ => .fault (.missing what c s)

/-! ## Single tokens -/

/-- The item of a token of the kind. -/
def oneItem? (kind : TokenKind) (node : Token → Node) (t : LocatedToken) : Option Item :=
  if t.kind = kind then some ((node t.token).withRange t.range).alone else none

def identifierItem? : LocatedToken → Option Item :=
  oneItem? .identifier fun t => .leaf .identifier (.text t.literal.display)

def stringItem? : LocatedToken → Option Item :=
  oneItem? .string fun t => .leaf .string (.text t.literal.display)

def assignItem? : LocatedToken → Option Item :=
  oneItem? .assign fun _ => .leaf .operator (.text "=")

def terminatorItem? : LocatedToken → Option Item := oneItem? .semicolon fun _ => .ofKind .terminator

def numberItem? (t : LocatedToken) : Option Item :=
  match t.kind, t.token.literal with
  | .integer, .integer n => some ((Node.leaf .number (.integer n)).withRange t.range).alone
  | _, _ => none

def coreVariableItem? (t : LocatedToken) : Option Item :=
  if t.isEnd then none
  else match t.token.literal with
    | .coreVariable family name =>
      (variableKind? family).map fun kind => .list ⟨kind, none, some t.range⟩
        [((Node.leaf .identifier (.text name)).withRange t.range).alone]
    | _ => none

def fileStarterItem? (t : LocatedToken) : Option Item :=
  match t.kind, t.token.literal with
  | .directive, .text name =>
    if name ∈ dialects then some ((Node.leaf .fileStarter (.text name)).withRange t.range).alone
    else none
  | _, _ => none

/-- The reading that takes one token, if that has an item. -/
def take (item? : LocatedToken → Option Item) (fault : Context → Stand → Fault) : Reading :=
  fun c s =>
    match item? (s.current c) with
    | some x => .found x (s.advance c)
    | none => .fault (fault c s)

/-- The fault where no core variable stands, or one that nothing can be assigned to. -/
def variableFault (c : Context) (s : Stand) : Fault :=
  let t := s.current c
  if t.isEnd then .missing "core variable" c s
  else match t.token.literal with
    | .coreVariable _ _ =>
      ⟨"Unsupported core variable `" ++ t.token.display ++ "`, expected `$var` or `$avp`", t.range⟩
    | _ => .missing "core variable" c s

def identifier : Reading := take identifierItem? (.missing "identifier")

def string : Reading := take stringItem? (.missing "string")

def assignOperator : Reading := take assignItem? (.missing "=")

def terminator : Reading := take terminatorItem? (.missing ";")

def number : Reading := take numberItem? (.missing "number")

def coreVariable : Reading := take coreVariableItem? variableFault

def fileStarter : Reading := take fileStarterItem? (.missing "file starter")

/-! ## Assignments and statements -/

def target : Reading := orMissing (choice [identifier, coreVariable]) "identifier or core variable"

def value : Reading :=
  orMissing (choice [number, string, coreVariable]) "number, string or core variable"

/-- The operands of an assignment with the roles of their sides. -/
def markSides : Item → Item
  | .list l [left, op, right] => .list l [left.withRole "left", op, right.withRole "right"]
  | x => x

/-- An assignment before its sides are marked. -/
def operands : Reading := sequence .assignment [target, assignOperator, value]

def assignment : Reading := fun c s =>
  match operands c s with
  | .found x after => .found (markSides x) after
  | r => r

def statement : Reading := sequence .statement [assignment, terminator]

def topLevelAssignment : Reading := fun c s =>
  match assignment c s with
  | .found x after =>
    match terminator c after with
    | .found y last => .found (x.widenOver y) last
    | _ => .found x after
  | r => r

/-! ## Blocks -/

/-- What is read of a block after its brace: the items in it, and the ranges that its own is
widened by. -/
structure Body where
  items : List Item
  ranges : List ByteRange
  after : Stand

/-- The body with items and ranges before it. -/
def Body.behind (xs : List Item) (rs : List ByteRange) (b : Body) : Body :=
  ⟨xs ++ b.items, rs ++ b.ranges, b.after⟩

/-- The statements and mistakes up to the brace of a block, or to where the block is given up. -/
def body (c : Context) (s : Stand) : Body :=
  let (xs, here) := collect statement c s
  let t := here.current c
  if t.kind = .rightBrace then ⟨xs, [t.range], here.advance c⟩
  else if leavesBlock t then
    ⟨xs ++ [(Fault.missing "\x7d" c here).item], [t.range], here.keep c⟩
  else match statement c here with
    | .fault e =>
      if (here.keep c).stopped then ⟨xs ++ [e.item], [e.range], here.keep c⟩
      else if (here.restart true c).pending.length < s.pending.length then
        (body c (here.restart true c)).behind (xs ++ [e.item]) [e.range]
      else ⟨xs ++ [e.item], [e.range], here.restart true c⟩
    | _ => ⟨xs, [], here⟩
termination_by s.pending.length

/-- A block whose brace is the current token. -/
def openBlock (c : Context) (s : Stand) : Item × Stand :=
  let b := body c (s.advance c)
  (.bundle ⟨.block, none, some (b.ranges.foldl ByteRange.join (s.current c).range)⟩ b.items,
    b.after)

def block : Reading := fun c s =>
  if (s.current c).kind = .leftBrace then .found (openBlock c s).1 (openBlock c s).2
  else .fault (.missing "\x7b" c s)

/-! ## Routes -/

def routeName : Reading := fun c s =>
  if (s.current c).kind = .leftBracket then
    match choice [identifier, number, string] c (s.advance c) with
    | .found x after =>
      if (after.current c).kind = .rightBracket then .found x (after.advance c)
      else .fault (.missing "]" c after)
    | _ => .fault (.missing "route name" c (s.advance c))
  else .fault (.missing "[" c s)

/-- What is read between the word of a route and its block: the name as a role, or the mistake
there. -/
structure Header where
  role : Option String
  error : Option Fault
  after : Stand

/-- The name of a route, as its role shows it. -/
def nameRole (x : Item) : String := (x.scalar?.map Scalar.display).getD ""

def header (kind : NodeKind) (c : Context) (s : Stand) : Header :=
  if (s.current c).kind = .leftBracket then
    match routeName c s with
    | .found x after => ⟨some (nameRole x), none, after⟩
    | .fault e => ⟨none, some e, s.goTo ((afterBracket? s.pending).getD s.pending)⟩
    | .nothing => ⟨some "", none, s⟩
  else if kind = .route then ⟨none, some ⟨nameRequired, (s.current c).range⟩, s⟩
  else ⟨none, none, s⟩

/-- The route with a label, from its header on. -/
def routeFrom (l : Label) (c : Context) (h : Header) : Item × Stand :=
  match h.error with
  | none =>
    let (b, last) := openBlock c h.after
    (.list (l.over b.label.range) [b], last)
  | some e =>
    let kept := h.after.keep c
    if kept.stopped then (.list (l.widen e.range) [e.item], kept)
    else
      let (b, last) := openBlock c kept
      (.list ((l.widen e.range).over b.label.range) [e.item, b], last)

def route : Reading := fun c s =>
  let t := s.current c
  match routeKind? t.token with
  | none => .fault (.missing "route" c s)
  | some kind =>
    let h := header kind c (s.advance c)
    if (h.after.current c).kind = .leftBrace then
      let (x, last) := routeFrom ⟨kind, h.role, some t.range⟩ c h
      .found x last
    else .fault (.missing "\x7b" c h.after)

/-! ## Whole files -/

/-- One of the constructs of a file, whichever stands here. -/
def construct : Reading := choice [fileStarter, topLevelAssignment, route]

def diagnose (last : Result) : Reading := fun c s =>
  match (s.current c).kind with
  | .directive => fileStarter c s
  | .identifier | .coreVariable => topLevelAssignment c s
  | .route => route c s
  | _ =>
    match last with
    | .fault _ => .fault (.missing "top level statement" c s)
    | r => r

def topLevel : Reading := fun c s =>
  if (s.current c).isEnd || s.stopped then .nothing
  else match construct c s with
    | .found x after => .found (.covered .topLevel [x]) after
    | r => diagnose r c s

/-- The constructs and mistakes up to the end of the stream, or to where the parse stops. -/
def constructs (c : Context) (s : Stand) : List Item × Stand :=
  let (xs, here) := collect topLevel c s
  if (here.current c).isEnd || here.stopped then (xs, here)
  else match topLevel c here with
    | .fault e =>
      if (here.keep c).stopped then (xs ++ [e.item], here.keep c)
      else if (here.restart false c).pending.length < s.pending.length then
        (xs ++ e.item :: (constructs c (here.restart false c)).1,
          (constructs c (here.restart false c)).2)
      else (xs ++ [e.item], here.restart false c)
    | .found _ after => (xs, after)
    | .nothing => (xs, here)
termination_by s.pending.length

/-- The item of a whole file. -/
def script (c : Context) (s : Stand) : Item × Stand :=
  let (xs, last) := constructs c s
  (.covered .root (xs ++ [((Node.ofKind .endOfInput).withRange c.closing.range).alone]),
    last.goTo [])

end Reading
end Grammar
end RouteScript
