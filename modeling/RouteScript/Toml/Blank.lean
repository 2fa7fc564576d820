/-!
# Blanks, comments and line ends of TOML

A reader takes the characters from some place on and answers what it read together with the
characters after it, or nothing if it cannot read there. What reads nothing of interest answers
the characters after it alone.
-/
namespace RouteScript.Toml

/-- A control character, which may stand neither in a comment nor in a string. -/
def isControl (c : Char) : Bool := (c < ' ' && c ≠ '\t') || c = '\x7f'

/-- A space or a tab. -/
def isBlank (c : Char) : Bool := c = ' ' || c = '\t'

/-- Drops spaces and tabs. -/
def skipBlanks (cs : List Char) : List Char := cs.dropWhile isBlank

/-- Drops a comment up to the end of its line. -/
def skipComment : List Char → List Char
  | '#' :: cs => cs.dropWhile fun c => !isControl c
  | cs => cs

/-- A line break, or the end of the text. -/
def lineBreak? : List Char → Option (List Char)
  | [] => some []
  | '\n' :: cs => some cs
  | '\r' :: '\n' :: cs => some cs
  | _ => none

/-- What may stand after the contents of a line: blanks, a comment, the line break. -/
def lineEnd? (cs : List Char) : Option (List Char) := lineBreak? (skipComment (skipBlanks cs))

/-- Drops blanks, comments and line breaks. -/
def skipTrivia (inComment : Bool) : List Char → List Char
  | [] => []
  | c :: cs =>
    if c = '\n' ∨ (c = '\r' ∧ cs.head? = some '\n') then skipTrivia false cs
    else if inComment then
      if isControl c then c :: cs else skipTrivia true cs
    else if isBlank c then skipTrivia false cs
    else if c = '#' then skipTrivia true cs
    else c :: cs

end RouteScript.Toml
