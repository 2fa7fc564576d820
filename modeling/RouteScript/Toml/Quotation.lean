import RouteScript.Toml.Blank
/-!
# Strings of TOML

A string stands between double quotes, with escapes, or between single quotes, without. One quote
opens a string of one line; three open a string of several, whose first line break is dropped if
nothing stands before it, and whose line breaks all count as a line feed.
-/
namespace RouteScript.Toml

/-- The sorts of strings. -/
structure Quotation where
  mark : Char
  escapes : Bool
  /-- Whether three marks open the string, and it may span several lines. -/
  multiline : Bool

/-- The value of a hexadecimal digit. -/
def hexValue? (c : Char) : Option Nat :=
  if c.isDigit then some (c.toNat - '0'.toNat)
  else if 'a' ≤ c ∧ c ≤ 'f' then some (c.toNat - 'a'.toNat + 10)
  else if 'A' ≤ c ∧ c ≤ 'F' then some (c.toNat - 'A'.toNat + 10)
  else none

/-- What a backslash and one letter stand for. -/
def shortEscape? : Char → Option Char
  | 'b' => some '\x08'
  | 't' => some '\t'
  | 'n' => some '\n'
  | 'f' => some '\x0c'
  | 'r' => some '\r'
  | '"' => some '"'
  | '\\' => some '\\'
  | _ => none

/-- Where in a string the next character stands. -/
inductive StringState where
  | plain
  | afterBackslash
  /-- Inside a code point: the digits still to come, and its value so far. -/
  | inCode (missing value : Nat)
  /-- After a backslash at the end of a line, which drops all blanks and line breaks behind it. -/
  | dropping

/-- The states after which a character is looked at once more come before the others. -/
def StringState.rank : StringState → Nat
  | .dropping => 1
  | _ => 0

/-- Whether nothing but blanks is left of a line that is followed by another. -/
def endsLine (cs : List Char) : Bool :=
  match skipBlanks cs with
  | '\n' :: _ | '\r' :: '\n' :: _ => true
  | _ => false

/-- The end of a string of several lines, after three marks. Up to two more marks belong to the
string: of a run of marks the last three close it. -/
def lastMarks (mark : Char) : List Char → List Char × List Char
  | [] => ([], [])
  | [c] => if c = mark then ([mark], []) else ([], [c])
  | c :: d :: cs =>
    if c ≠ mark then ([], c :: d :: cs)
    else if d ≠ mark then ([mark], d :: cs)
    else ([mark, mark], cs)

/-- The rest of a string, and what follows it. -/
def stringBody (q : Quotation) : StringState → List Char → Option (List Char × List Char)
  | _, [] => none
  | .plain, c :: cs =>
    if c = q.mark then
      if !q.multiline then some ([], cs)
      else if cs.take 2 = [q.mark, q.mark] then some (lastMarks q.mark (cs.drop 2))
      else keep c (stringBody q .plain cs)
    else if c = '\\' ∧ q.escapes then
      stringBody q (if q.multiline && endsLine cs then .dropping else .afterBackslash) cs
    else if c = '\n' ∧ q.multiline then keep c (stringBody q .plain cs)
    else if c = '\r' ∧ q.multiline ∧ cs.head? = some '\n' then stringBody q .plain cs
    else if isControl c then none
    else keep c (stringBody q .plain cs)
  | .afterBackslash, c :: cs =>
    if c = 'u' then stringBody q (.inCode 4 0) cs
    else if c = 'U' then stringBody q (.inCode 8 0) cs
    else (shortEscape? c).bind fun d => keep d (stringBody q .plain cs)
  | .inCode missing value, c :: cs =>
    (hexValue? c).bind fun digit =>
      let value := 16 * value + digit
      if 1 < missing then stringBody q (.inCode (missing - 1) value) cs
      else if value.isValidChar then keep (Char.ofNat value) (stringBody q .plain cs)
      else none
  | .dropping, c :: cs =>
    if isBlank c ∨ c = '\n' ∨ (c = '\r' ∧ cs.head? = some '\n') then stringBody q .dropping cs
    else stringBody q .plain (c :: cs)
termination_by state cs => (cs.length, state.rank)
decreasing_by all_goals simp_wf; simp [Prod.lex_def, StringState.rank]
where
  /-- A character before the rest of a string. -/
  keep (c : Char) (rest : Option (List Char × List Char)) : Option (List Char × List Char) :=
    rest.map fun (body, after) => (c :: body, after)

/-- Drops one line break. -/
def skipLineBreak : List Char → List Char
  | '\n' :: cs | '\r' :: '\n' :: cs => cs
  | cs => cs

/-- A string of one line. -/
def lineString? : List Char → Option (String × List Char)
  | [] => none
  | c :: cs =>
    if c = '"' ∨ c = '\x27' then
      (stringBody ⟨c, c = '"', false⟩ .plain cs).map fun (body, rest) => (String.ofList body, rest)
    else none

/-- A string of any sort. -/
def string? : List Char → Option (String × List Char)
  | c :: d :: e :: cs =>
    if (c = '"' ∨ c = '\x27') ∧ d = c ∧ e = c then
      (stringBody ⟨c, c = '"', true⟩ .plain (skipLineBreak cs)).map fun (body, rest) =>
        (String.ofList body, rest)
    else lineString? (c :: d :: e :: cs)
  | cs => lineString? cs

end RouteScript.Toml
