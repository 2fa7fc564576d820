import RouteScript.Token.Scan
/-!
# Settled streams

A scan reads each token by itself. Settling a stream takes its neighbours into account: line breaks
fall away, adjacent strings become one, and identifiers that are reserved get the kind of their
word. Joining strings is associative, so settling may go from the end of the stream to its start
and look only at the token it settled last.

The grammar reads the settled tokens of a source, closed by one token at its end.
-/
namespace RouteScript

/-- The words of the statement language. -/
def keywords : List String :=
  ["return", "break", "case", "const", "continue", "default", "else", "if", "for", "switch",
   "while", "include_file", "modparam"]

/-- The words that open a route. -/
def routeWords : List String :=
  ["request_route", "reply_route", "failure_route", "onreply_route", "branch_route",
   "local_route", "startup_route", "route"]

/-- The words of the preprocessor. Two of them are keywords as well, and stay that. -/
def directiveWords : List String :=
  ["define", "redefine", "undef", "ifdef", "ifndef", "trydef", "substdefs", "substdef", "subst",
   "else", "endif", "include_file", "import_file"]

/-- The kind of an identifier by its name. -/
def wordKind (name : String) : TokenKind :=
  if name ∈ keywords then .keyword
  else if name ∈ routeWords then .route
  else if name ∈ directiveWords then .directive
  else .identifier

/-- The text of a string token that can be joined with another. -/
def Token.stringText? (t : Token) : Option String :=
  if t.kind = .string then t.literal.text? else none

/-- An identifier with the kind of its name, any other token as it is. -/
def Token.classified (t : Token) : Token :=
  match t.kind, t.literal with
  | .identifier, .text name => ⟨wordKind name, t.literal⟩
  | _, _ => t

/-- A token put in front of a settled stream. -/
def settleBefore (t : LocatedToken) (settled : List LocatedToken) : List LocatedToken :=
  if t.kind = .lineBreak then settled
  else
    match t.token.stringText?, settled with
    | some left, u :: rest =>
      match u.token.stringText? with
      | some right =>
        ⟨.ofText .string (left ++ right), t.range.start, u.range.stop⟩ :: rest
      | none => t :: settled
    | _, _ => { t with token := t.token.classified } :: settled

/-- The stream without line breaks, with adjacent strings joined and reserved words told apart. -/
def settle (tokens : List LocatedToken) : List LocatedToken := tokens.foldr settleBefore []

/-- The closing token of a stream that ends at `offset`. -/
def LocatedToken.endAt (offset : Nat) : LocatedToken := ⟨.endOfInput, .empty offset⟩

/-- The settled tokens of a source and the token that closes them. -/
def tokenStream (options : ScanOptions) (source : List UInt8) :
    Except ScanError (List LocatedToken) :=
  (scan options source).map fun tokens => settle tokens ++ [.endAt source.length]

end RouteScript
