import RouteScript.ByteRange
/-!
# Tokens

A token is a lexical unit that has been classified: its kind, and the literal it was read from.
The two are independent, since tokens may also be given by hand: the grammar says at each place
which of them it looks at.
-/
namespace RouteScript

/-- What a token is. -/
inductive TokenKind where
  | comma | semicolon | leftParen | rightParen | leftBrace | rightBrace | leftBracket
  | rightBracket | dot | colon
  | assign | equal | notEqual | less | lessEqual | greater | greaterEqual | both | either
  | negate | plus | minus | times | divide | modulo | increment | decrement
  | identifier | integer | string
  /-- A reserved word of the statement language. -/
  | keyword
  /-- A preprocessor directive. -/
  | directive
  /-- A word that opens a route. -/
  | route
  | coreVariable
  /-- A line break. The scanner skips them; streams given by hand may hold them. -/
  | lineBreak
  /-- A byte that nothing starts with, kept as a token where the scanner may go on. -/
  | illegal
  | endOfInput
  deriving DecidableEq, Inhabited

namespace TokenKind

/-- Whether the kind is one of the operators. -/
def isOperator : TokenKind → Bool
  | .assign | .equal | .notEqual | .less | .lessEqual | .greater | .greaterEqual | .both
  | .either | .negate | .plus | .minus | .times | .divide | .modulo | .increment
  | .decrement => true
  | _ => false

/-- Whether the kind is one of the separators and brackets. -/
def isPunctuation : TokenKind → Bool
  | .comma | .semicolon | .leftParen | .rightParen | .leftBrace | .rightBrace | .leftBracket
  | .rightBracket | .dot | .colon => true
  | _ => false

end TokenKind

/-- What a token carries. -/
inductive Literal where
  /-- Nothing; the token that closes a stream has no literal. -/
  | absent
  | text (s : String)
  | integer (n : Int)
  /-- A core variable such as `$avp(x)`: its family, and its name, empty if it has none. -/
  | coreVariable (family name : String)
  deriving DecidableEq, Inhabited

namespace Literal

/-- The text of a literal that is one. -/
def text? : Literal → Option String
  | .text s => some s
  | _ => none

/-- The value of a literal that is an integer. -/
def integer? : Literal → Option Int
  | .integer n => some n
  | _ => none

/-- A literal as a reader sees it. -/
def display : Literal → String
  | .absent => ""
  | .text s => s
  | .integer n => toString n
  | .coreVariable family name =>
    if name.isEmpty then "$" ++ family else "$" ++ family ++ "(" ++ name ++ ")"

end Literal

/-- A classified lexical unit. -/
structure Token where
  kind : TokenKind
  literal : Literal
  deriving DecidableEq, Inhabited

namespace Token

/-- A token whose literal is a text. -/
def ofText (kind : TokenKind) (s : String) : Token := ⟨kind, .text s⟩

/-- The token that closes a stream. -/
def endOfInput : Token := ⟨.endOfInput, .absent⟩

/-- Whether the token closes a stream; its literal does not matter. -/
def isEnd (t : Token) : Bool := t.kind = .endOfInput

/-- Whether the token has the kind and exactly the text. -/
def isText (t : Token) (kind : TokenKind) (s : String) : Bool :=
  t.kind = kind && t.literal.text? = some s

/-- A token as an error message quotes it: strings between quotes, without escapes. -/
def display (t : Token) : String :=
  match t.kind with
  | .endOfInput => "EOF"
  | .string => "\"" ++ t.literal.display ++ "\""
  | _ => t.literal.display

end Token

/-- A token and the bytes it was read from. -/
structure LocatedToken where
  token : Token
  range : ByteRange
  deriving DecidableEq, Inhabited

namespace LocatedToken

/-- The kind of the token. -/
abbrev kind (t : LocatedToken) : TokenKind := t.token.kind

/-- Whether the token closes a stream. -/
abbrev isEnd (t : LocatedToken) : Bool := t.token.isEnd

end LocatedToken
end RouteScript
