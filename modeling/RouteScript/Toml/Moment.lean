/-!
# Dates and times of TOML

A date, a time of day, or both, and with both the distance from the common time if it is given.
A moment is only ever shown again, in the one form that stands for it: a capital T between date
and time, fractions of a second without zeros at the end and cut after nine digits.
-/
namespace RouteScript.Toml

/-- A day of the calendar. -/
structure Date where
  year : Nat
  month : Nat
  day : Nat

/-- A time of day. -/
structure Time where
  hour : Nat
  minute : Nat
  second : Nat
  nanosecond : Nat

/-- How far a local time is ahead of the common time. -/
inductive Offset where
  | zero
  | minutes (ahead : Int)

/-- What a date-time value says. -/
inductive Moment where
  | date (d : Date)
  | time (t : Time)
  | dateTime (d : Date) (t : Time) (offset : Option Offset)

/-! ## The calendar -/

/-- Whether the year has a 29th of February. -/
def isLeapYear (year : Nat) : Bool := year % 4 = 0 && (year % 100 ≠ 0 || year % 400 = 0)

/-- The number of days of a month. -/
def daysIn (year month : Nat) : Nat :=
  if month = 2 then if isLeapYear year then 29 else 28
  else if month ∈ [4, 6, 9, 11] then 30
  else 31

/-! ## Reading -/

/-- A number of exactly `width` digits between the bounds. -/
def digitsBetween? (width low high : Nat) (cs : List Char) : Option (Nat × List Char) :=
  let digits := cs.take width
  if digits.length = width ∧ digits.all Char.isDigit then
    let n := digits.foldl (fun n c => 10 * n + (c.toNat - '0'.toNat)) 0
    if low ≤ n ∧ n ≤ high then some (n, cs.drop width) else none
  else none

/-- What follows a character that has to come next. -/
def after? (expected : Char) : List Char → Option (List Char)
  | [] => none
  | c :: cs => if c = expected then some cs else none

/-- A date: four digits, two and two. -/
def date? (cs : List Char) : Option (Date × List Char) := do
  let (year, cs) ← digitsBetween? 4 0 9999 cs
  let (month, cs) ← digitsBetween? 2 1 12 (← after? '-' cs)
  let (day, cs) ← digitsBetween? 2 1 (daysIn year month) (← after? '-' cs)
  return (⟨year, month, day⟩, cs)

/-- The nanoseconds that the digits after the point of the seconds come to. -/
def nanoseconds (digits : List Char) : Nat :=
  (digits ++ List.replicate 9 '0').take 9 |>.foldl (fun n c => 10 * n + (c.toNat - '0'.toNat)) 0

/-- A fraction of a second after its point, if one stands here. -/
def fraction (cs : List Char) : Nat × List Char :=
  let digits := (cs.drop 1).takeWhile Char.isDigit
  if cs.head? = some '.' ∧ !digits.isEmpty then (nanoseconds digits, cs.drop (digits.length + 1))
  else (0, cs)

/-- A time of day, which may be a leap second. -/
def time? (cs : List Char) : Option (Time × List Char) := do
  let (hour, cs) ← digitsBetween? 2 0 23 cs
  let (minute, cs) ← digitsBetween? 2 0 59 (← after? ':' cs)
  let (second, cs) ← digitsBetween? 2 0 60 (← after? ':' cs)
  let (nanosecond, cs) := fraction cs
  return (⟨hour, minute, second, nanosecond⟩, cs)

/-- Hours and minutes as minutes. -/
def hoursAndMinutes? (cs : List Char) : Option (Nat × List Char) := do
  let (hours, cs) ← digitsBetween? 2 0 23 cs
  let (minutes, cs) ← digitsBetween? 2 0 59 (← after? ':' cs)
  return (60 * hours + minutes, cs)

/-- The distance from the common time. -/
def offset? : List Char → Option (Offset × List Char)
  | [] => none
  | c :: cs =>
    if c = 'Z' ∨ c = 'z' then some (.zero, cs)
    else if c = '+' then (hoursAndMinutes? cs).map fun (n, cs) => (.minutes n, cs)
    else if c = '-' then (hoursAndMinutes? cs).map fun (n, cs) => (.minutes (-(n : Int)), cs)
    else none

/-- The time of day after a date. -/
def timeOfDay? : List Char → Option (Time × List Char)
  | [] => none
  | c :: cs => if c = 'T' ∨ c = 't' ∨ c = ' ' then time? cs else none

/-- A date, a time, or both. -/
def moment? (cs : List Char) : Option (Moment × List Char) :=
  match date? cs with
  | none => (time? cs).map fun (t, cs) => (.time t, cs)
  | some (d, cs) =>
    match timeOfDay? cs with
    | none => some (.date d, cs)
    | some (t, cs) =>
      match offset? cs with
      | none => some (.dateTime d t none, cs)
      | some (o, cs) => some (.dateTime d t (some o), cs)

/-! ## Showing -/

/-- A number with zeros in front of it, up to the width. -/
def padded (width n : Nat) : String :=
  let digits := (toString n).toList
  String.ofList (List.replicate (width - digits.length) '0' ++ digits)

/-- The form of a date. -/
def Date.display (d : Date) : String :=
  padded 4 d.year ++ "-" ++ padded 2 d.month ++ "-" ++ padded 2 d.day

/-- The form of a fraction of a second. -/
def displayFraction (nanosecond : Nat) : String :=
  if nanosecond = 0 then ""
  else
    let digits := (padded 9 nanosecond).toList
    "." ++ String.ofList (digits.reverse.dropWhile (· = '0')).reverse

/-- The form of a time of day. -/
def Time.display (t : Time) : String :=
  padded 2 t.hour ++ ":" ++ padded 2 t.minute ++ ":" ++ padded 2 t.second ++
    displayFraction t.nanosecond

/-- The form of a distance from the common time. -/
def Offset.display : Offset → String
  | .zero => "Z"
  | .minutes ahead =>
    (if ahead < 0 then "-" else "+") ++ padded 2 (ahead.natAbs / 60) ++ ":" ++
      padded 2 (ahead.natAbs % 60)

/-- The form of a moment. -/
def Moment.display : Moment → String
  | .date d => d.display
  | .time t => t.display
  | .dateTime d t offset => d.display ++ "T" ++ t.display ++ (offset.map Offset.display).getD ""

end RouteScript.Toml
