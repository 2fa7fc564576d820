/-!
# Byte ranges

Where in a source something was read: the offset of its first byte and the offset after its last.
Ranges come from outside as well as from the scanner, so the end may lie before the start; such a
range holds no offset.
-/
namespace RouteScript

/-- A stretch of bytes, the end not included. -/
structure ByteRange where
  start : Nat
  stop : Nat
  deriving DecidableEq, Inhabited

namespace ByteRange

/-- The range at `offset` that holds nothing. -/
def empty (offset : Nat) : ByteRange := ⟨offset, offset⟩

/-- Whether the offset lies inside the range. -/
def contains (r : ByteRange) (offset : Nat) : Bool := r.start ≤ offset && offset < r.stop

/-- The least range around both, end by end. -/
def join (r s : ByteRange) : ByteRange := ⟨min r.start s.start, max r.stop s.stop⟩

@[simp] theorem contains_iff {r : ByteRange} {offset : Nat} :
    r.contains offset = true ↔ r.start ≤ offset ∧ offset < r.stop := by
  simp [contains]

end ByteRange
end RouteScript
