import RouteScript.ByteRange
/-!
# Lines and columns

Where a byte offset lies in a source, counted in lines and in bytes from the start of the line,
both from zero. The starts of the lines are kept in rising order and searched by halving.
-/
namespace RouteScript

/-- A place in a source. -/
structure Position where
  line : Nat
  column : Nat
  deriving DecidableEq, Inhabited

namespace Position

/-- Positions are ordered by line, then by column. -/
def before (p q : Position) : Bool := p.line < q.line || (p.line = q.line && p.column < q.column)

/-- A position as a message shows it. -/
def display (p : Position) : String := toString p.line ++ ":" ++ toString p.column

end Position

/-- A stretch of a source, the end not included. -/
structure Span where
  start : Position
  stop : Position
  deriving DecidableEq, Inhabited

namespace Span

/-- Whether the position lies inside the stretch. -/
def contains (s : Span) (p : Position) : Bool := !p.before s.start && p.before s.stop

/-- A stretch as a message shows it. -/
def display (s : Span) : String := s.start.display ++ ".." ++ s.stop.display

end Span

/-- The lines of a source: the offset where each starts, and the length of the source. -/
structure LineTable where
  starts : Array Nat
  length : Nat

namespace LineTable

/-- The offsets after each line feed of the bytes, which start at `offset`. -/
def startsAfter (offset : Nat) : List UInt8 → List Nat
  | [] => []
  | b :: bs =>
    if b = 0x0A then (offset + 1) :: startsAfter (offset + 1) bs else startsAfter (offset + 1) bs

/-- The lines of a source. The first starts at zero, each other one after a line feed. -/
def ofSource (source : List UInt8) : LineTable :=
  ⟨(0 :: startsAfter 0 source).toArray, source.length⟩

/-- The number of lines. -/
def lineCount (t : LineTable) : Nat := t.starts.size

/-- How many of the starts from `low` on and before `high` are no greater than the offset, those
before `low` added. -/
def countUpTo (starts : Array Nat) (offset low high : Nat) : Nat :=
  if low < high then
    let middle := (low + high) / 2
    if (starts[middle]?).any (· ≤ offset) then countUpTo starts offset (middle + 1) high
    else countUpTo starts offset low middle
  else low
termination_by high - low

/-- The position of an offset. One past the end of the source counts as the end. -/
def position (t : LineTable) (offset : Nat) : Position :=
  let clamped := min offset t.length
  let line := countUpTo t.starts clamped 0 t.starts.size - 1
  ⟨line, clamped - (t.starts[line]?).getD 0⟩

/-- The stretch of a range. -/
def span (t : LineTable) (r : ByteRange) : Span := ⟨t.position r.start, t.position r.stop⟩

end LineTable
end RouteScript
