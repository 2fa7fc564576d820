import RouteScript.Number.Binary64
import RouteScript.Text.Utf8
import RouteScript.Token.Basic
import RouteScript.Token.ScanError
/-!
# Scanning

A source is a list of bytes. At each place the scanner looks at what the remaining bytes start
with, their *head*: a gap that carries no meaning, a token, or nothing that can be read. The
readers of a head say how many bytes it takes, and a scan is the walk from head to head.

Heads are tried in this order: a quote right after a string, which goes on with that string;
white space and comments; integers, words, strings and punctuation; core variables; operators, the
longer first; directives. What none of them reads is an illegal byte.
-/
namespace RouteScript

/-- How a scan goes about bytes that nothing starts with. -/
structure ScanOptions where
  /-- Keep such a byte as an illegal token and go on. -/
  keepIllegal : Bool
  deriving DecidableEq, Inhabited

/-- By default an illegal byte ends the scan. -/
def ScanOptions.default : ScanOptions := ⟨false⟩

namespace Scan

/-! ## Classes of bytes -/

/-- The byte of an ASCII character. -/
abbrev byte (c : Char) : UInt8 := c.toUInt8

/-- Space, tab, carriage return, line feed, vertical tab and form feed. -/
def isBlank (b : UInt8) : Bool :=
  b = byte ' ' || b = byte '\t' || b = byte '\r' || b = byte '\n' || b = 0x0B || b = 0x0C

/-- An ASCII digit. -/
def isDigit (b : UInt8) : Bool := byte '0' ≤ b && b ≤ byte '9'

/-- An ASCII letter. -/
def isLetter (b : UInt8) : Bool :=
  (byte 'a' ≤ b && b ≤ byte 'z') || (byte 'A' ≤ b && b ≤ byte 'Z')

/-- A byte that a word may start with. -/
def startsWord (b : UInt8) : Bool := isLetter b || b = byte '_'

/-- A byte that a word may go on with. -/
def inWord (b : UInt8) : Bool := startsWord b || isDigit b

/-! ## Gaps -/

/-- The bytes up to and with the first star that a slash follows. -/
def commentLength? : List UInt8 → Option Nat
  | [] => none
  | b :: bs =>
    if b = byte '*' ∧ bs.head? = some (byte '/') then some 2
    else (commentLength? bs).map (· + 1)

/-- The bytes before the next line feed. -/
def lineLength (bs : List UInt8) : Nat := (bs.takeWhile (· ≠ byte '\n')).length

/-- The length of the gap at the head of the bytes, zero if there is none: a run of blanks, a
closed block comment, or the rest of the line after two slashes or after a hash sign that starts no
directive. A hash sign alone on its line takes the line feed along. -/
def gapLength : List UInt8 → Nat
  | [] => 0
  | b :: bs =>
    if isBlank b then 1 + (bs.takeWhile isBlank).length
    else if b = byte '/' then
      match bs with
      | [] => 0
      | c :: cs =>
        if c = byte '*' then ((commentLength? cs).map (· + 2)).getD 0
        else if c = byte '/' then 2 + lineLength cs
        else 0
    else if b = byte '#' then
      match bs with
      | [] => 1
      | c :: cs =>
        if c = byte '\n' then 2 else if c = byte '!' then 0 else 2 + lineLength cs
    else 0

/-! ## Tokens -/

/-- The word at the head of the bytes, empty if there is none. -/
def word : List UInt8 → List UInt8
  | [] => []
  | b :: bs => if startsWord b then b :: bs.takeWhile inWord else []

/-- The number that decimal digits write. -/
def digitsValue (digits : List UInt8) : Nat :=
  digits.foldl (fun n b => 10 * n + (b.toNat - (byte '0').toNat)) 0

/-- Reading a token ends in the token and its length, or in the reason why it cannot be read. -/
abbrev Reading := Except ScanError.Cause (Token × Nat)

/-- All digits at the head make one integer, which has to fit in a word. -/
def integer? (bs : List UInt8) : Option Reading :=
  let digits := bs.takeWhile isDigit
  if digits = [] then none
  else if digitsValue digits ≤ Word64.signedMax then
    some (.ok (⟨.integer, .integer (digitsValue digits)⟩, digits.length))
  else some (.error (.integerTooLarge (Text.decode digits)))

/-- A word at the head. -/
def word? (bs : List UInt8) : Option Reading :=
  let name := word bs
  if name = [] then none
  else some (.ok (.ofText .identifier (Text.decode name), name.length))

/-- A string: a quote, and all up to the next one. -/
def string? : List UInt8 → Option Reading
  | [] => none
  | b :: bs =>
    let body := bs.takeWhile (· ≠ byte '"')
    if b = byte '"' ∧ body.length < bs.length then
      some (.ok (.ofText .string (Text.decode body), body.length + 2))
    else none

/-- The separators and brackets. -/
def punctuation : List (Char × TokenKind) :=
  [(',', .comma), (';', .semicolon), ('(', .leftParen), (')', .rightParen), ('\x7b', .leftBrace),
   ('\x7d', .rightBrace), ('[', .leftBracket), (']', .rightBracket), ('.', .dot), (':', .colon)]

/-- A separator or bracket at the head. -/
def punctuation? : List UInt8 → Option Reading
  | [] => none
  | b :: _ =>
    (punctuation.find? (byte ·.1 = b)).map fun (c, kind) => .ok (.ofText kind c.toString, 1)

/-- A dollar sign and a letter start a core variable: its family, then its name in parentheses if
one opens right after. -/
def coreVariable? : List UInt8 → Option Reading
  | [] => none
  | b :: bs =>
    if b = byte '$' ∧ bs.head?.any isLetter then
      let family := word bs
      match bs.drop family.length with
      | [] => some (.ok (⟨.coreVariable, .coreVariable (Text.decode family) ""⟩, family.length + 1))
      | c :: cs =>
        if c = byte '(' then
          let name := word cs
          if (cs.drop name.length).head? = some (byte ')') then
            some (.ok (⟨.coreVariable, .coreVariable (Text.decode family) (Text.decode name)⟩,
              family.length + name.length + 3))
          else some (.error .unterminatedVariable)
        else
          some (.ok (⟨.coreVariable, .coreVariable (Text.decode family) ""⟩, family.length + 1))
    else none

/-- The operators of two bytes. -/
def longOperators : List (Char × Char × TokenKind) :=
  [('=', '=', .equal), ('!', '=', .notEqual), ('<', '=', .lessEqual), ('>', '=', .greaterEqual),
   ('&', '&', .both), ('|', '|', .either), ('+', '+', .increment), ('-', '-', .decrement)]

/-- The operators of one byte. -/
def shortOperators : List (Char × TokenKind) :=
  [('=', .assign), ('!', .negate), ('<', .less), ('>', .greater), ('+', .plus), ('-', .minus),
   ('*', .times), ('/', .divide), ('%', .modulo)]

/-- Whether the bytes start with the mark of a directive, `#!` or `!!`. -/
def opensDirective : List UInt8 → Bool
  | b :: c :: _ => (b = byte '#' || b = byte '!') && c = byte '!'
  | _ => false

/-- An operator of two bytes at the head. -/
def longOperator? : List UInt8 → Option Reading
  | b :: c :: _ =>
    (longOperators.find? fun (d, e, _) => byte d = b && byte e = c).map
      fun (d, e, kind) => .ok (.ofText kind (String.ofList [d, e]), 2)
  | _ => none

/-- An operator of one byte at the head. -/
def shortOperator? : List UInt8 → Option Reading
  | [] => none
  | b :: _ =>
    (shortOperators.find? (byte ·.1 = b)).map fun (c, kind) => .ok (.ofText kind c.toString, 1)

/-- An operator at the head, the longest there is, unless a directive opens there. -/
def operator? (bs : List UInt8) : Option Reading :=
  if opensDirective bs then none else longOperator? bs <|> shortOperator? bs

/-- The mark of a directive and the word after it, which may be empty. -/
def directive? (bs : List UInt8) : Option Reading :=
  if opensDirective bs then
    let name := word (bs.drop 2)
    some (.ok (.ofText .directive (Text.decode name), name.length + 2))
  else none

/-- The token at the head of the bytes, whichever it is. -/
def lexeme? (bs : List UInt8) : Option Reading :=
  integer? bs <|> word? bs <|> string? bs <|> punctuation? bs <|> coreVariable? bs
    <|> operator? bs <|> directive? bs

/-- The bytes that an error on an illegal byte shows, that byte first. -/
def contextLength : Nat := 20

/-- What becomes of a byte that nothing starts with. -/
def illegal (options : ScanOptions) (b : UInt8) (bs : List UInt8) : Reading :=
  if options.keepIllegal then .ok (.ofText .illegal (Text.decode [b]), 1)
  else .error (.illegalByte b (Text.decode ((b :: bs).take contextLength)))

/-- A quote right after a string goes on with it, up to the next quote or to the end of the
source. -/
def continuation (bs : List UInt8) : Token × Nat :=
  let body := bs.takeWhile (· ≠ byte '"')
  (.ofText .string (Text.decode body), min (body.length + 2) (bs.length + 1))

/-! ## The walk -/

/-- What the bytes start with, and how many of them it takes. -/
inductive Head where
  | gap (length : Nat)
  /-- A token; `joins` says whether a quote after it goes on with its string. -/
  | token (t : Token) (length : Nat) (joins : Bool)
  | fault (cause : ScanError.Cause)

/-- The head of the bytes `b :: bs`; `joined` says whether a string goes on at a quote here. -/
def head (options : ScanOptions) (joined : Bool) (b : UInt8) (bs : List UInt8) : Head :=
  if joined && b = byte '"' then
    .token (continuation bs).1 (continuation bs).2 false
  else if 0 < gapLength (b :: bs) then .gap (gapLength (b :: bs))
  else match (lexeme? (b :: bs)).getD (illegal options b bs) with
    | .ok (t, length) => .token t length (t.kind = .string)
    | .error cause => .fault cause

/-- The tokens of the remaining bytes, which start at `position`. The first `owed` of them belong
to a head that was read before. -/
def walk (options : ScanOptions) (joined : Bool) (position : Nat) :
    Nat → List UInt8 → Except ScanError (List LocatedToken)
  | _, [] => .ok []
  | owed + 1, _ :: bs => walk options joined (position + 1) owed bs
  | 0, b :: bs =>
    match head options joined b bs with
    | .gap length => walk options joined (position + 1) (length - 1) bs
    | .token t length joins =>
      (walk options joins (position + 1) (length - 1) bs).map
        (⟨t, position, position + length⟩ :: ·)
    | .fault cause => .error ⟨cause, position⟩

end Scan

/-- All tokens of a source in the order they stand, without one that closes the stream. -/
def scan (options : ScanOptions) (source : List UInt8) : Except ScanError (List LocatedToken) :=
  Scan.walk options false 0 0 source

end RouteScript
