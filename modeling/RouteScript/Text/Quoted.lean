import RouteScript.Text.Unprintable
/-!
# Escapes

Two ways to write a character that cannot stand for itself: inside a quoted text, and as the
single byte that an error message shows. Both write the code point in braces, in lower-case
hexadecimal without padding, where no short escape is known.
-/
namespace RouteScript.Text

/-- A code point by number: backslash, `u`, and the hexadecimal digits in braces. -/
def numbered (n : Nat) : List Char :=
  '\\' :: 'u' :: '\x7b' :: Nat.toDigits 16 n ++ ['\x7d']

/-- A character as a quoted text writes it. -/
def quotedChar (c : Char) : List Char :=
  if c = '"' then ['\\', '"']
  else if c = '\\' then ['\\', '\\']
  else if c = '\n' then ['\\', 'n']
  else if c = '\r' then ['\\', 'r']
  else if c = '\t' then ['\\', 't']
  else if c = '\x00' then ['\\', '0']
  else if isUnprintable c then numbered c.toNat
  else [c]

/-- A text in double quotes, each character as `quotedChar` writes it. -/
def quoted (s : String) : String :=
  String.ofList ('"' :: s.toList.flatMap quotedChar ++ ['"'])

/-- A byte as an error message shows it: printable ASCII as itself, quotes, the backslash and the
common blanks by their short escape, anything else by number. -/
def escapedByte (b : UInt8) : String :=
  let c := Char.ofNat b.toNat
  if c = '\t' then "\\t"
  else if c = '\r' then "\\r"
  else if c = '\n' then "\\n"
  else if c = '\x27' ∨ c = '"' ∨ c = '\\' then String.ofList ['\\', c]
  else if ' ' ≤ c ∧ c ≤ '~' then String.ofList [c]
  else String.ofList (numbered b.toNat)

end RouteScript.Text
