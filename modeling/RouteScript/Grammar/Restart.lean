import RouteScript.Grammar.State
/-!
# Where a parse goes on after a mistake

After a mistake tokens are skipped up to a place where something new can begin. Both ways to skip
are functions on the tokens still to read: what they answer is what is left of them.
-/
namespace RouteScript.Grammar

/-- Skips to where a parse may go on. Outside of braces that is after a semicolon, before a word
that opens a route and before a directive; inside a block (`inBlock`) also before the brace that
closes it, and elsewhere after a brace that closes one opened on the way. `depth` counts the braces
opened on the way, and the first token, where the mistake was met, is skipped in any case. -/
def restartFrom (inBlock : Bool) (depth : Nat) (first : Bool) :
    List LocatedToken → List LocatedToken
  | [] => []
  | t :: rest =>
    match t.kind with
    | .endOfInput => t :: rest
    | .route | .directive =>
      if depth = 0 ∧ first = false then t :: rest else restartFrom inBlock depth false rest
    | .leftBrace => restartFrom inBlock (depth + 1) false rest
    | .rightBrace =>
      if depth = 0 then
        if inBlock ∧ first = false then t :: rest else restartFrom inBlock 0 false rest
      else if depth = 1 ∧ inBlock = false then rest
      else restartFrom inBlock (depth - 1) false rest
    | .semicolon => if depth = 0 then rest else restartFrom inBlock depth false rest
    | _ => restartFrom inBlock depth false rest

/-- Skips from the current token to where the parse may go on. -/
def restart (inBlock : Bool) : Parse Unit := do
  moveTo (restartFrom inBlock 0 true (← get).pending)

/-- The tokens after the next closing bracket, or from a brace on if one opens before it; nothing
if the stream ends before either. -/
def afterBracket? : List LocatedToken → Option (List LocatedToken)
  | [] => none
  | t :: rest =>
    match t.kind with
    | .endOfInput => none
    | .leftBrace => some (t :: rest)
    | .rightBracket => some rest
    | _ => afterBracket? rest

/-- Skips a name that is not well formed. -/
def skipName : Parse Unit := do
  let pending := (← get).pending
  moveTo ((afterBracket? pending).getD pending)

/-- A restart only skips tokens. -/
theorem restartFrom_suffix (inBlock : Bool) (tokens : List LocatedToken) :
    ∀ depth first, restartFrom inBlock depth first tokens <:+ tokens := by
  induction tokens with
  | nil => intro depth first; simp [restartFrom]
  | cons t rest ih =>
    intro depth first
    have step : ∀ d f, restartFrom inBlock d f rest <:+ t :: rest := fun d f =>
      (ih d f).trans (List.suffix_cons t rest)
    unfold restartFrom
    repeat' split
    all_goals first | exact step _ _ | exact List.suffix_cons t rest | exact List.suffix_rfl

end RouteScript.Grammar
