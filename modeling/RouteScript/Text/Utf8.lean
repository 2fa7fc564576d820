/-!
# UTF-8, read leniently

Text is written as UTF-8 and read back from bytes that need not be UTF-8. Reading never fails:
every longest run of bytes that starts a character without completing it becomes one
replacement character, and so does every byte that can start none.

The reader is a machine that takes one byte at a time: between characters it stands at `none`,
inside one at `some p`, where `p` says which bytes may follow.
-/
namespace RouteScript.Text

/-- The character that stands for bytes that are no character, U+FFFD. -/
def replacement : Char := '\uFFFD'

/-- A character whose first bytes were read. -/
structure Pending where
  /-- Bytes still to come, at least one. -/
  missing : Nat
  /-- The least byte that may come next. -/
  low : UInt8
  /-- The greatest byte that may come next. -/
  high : UInt8
  /-- The bits read so far. -/
  bits : Nat

/-- What a byte of 0x80 or more starts, if it starts a character at all. The bounds on the second
byte keep out overlong forms, surrogates and values above U+10FFFF. -/
def Pending.ofLead (b : UInt8) : Option Pending :=
  if b < 0xC2 then none
  else if b < 0xE0 then some ⟨1, 0x80, 0xBF, b.toNat - 0xC0⟩
  else if b = 0xE0 then some ⟨2, 0xA0, 0xBF, 0⟩
  else if b = 0xED then some ⟨2, 0x80, 0x9F, 0xD⟩
  else if b < 0xF0 then some ⟨2, 0x80, 0xBF, b.toNat - 0xE0⟩
  else if b = 0xF0 then some ⟨3, 0x90, 0xBF, 0⟩
  else if b < 0xF4 then some ⟨3, 0x80, 0xBF, b.toNat - 0xF0⟩
  else if b = 0xF4 then some ⟨3, 0x80, 0x8F, 4⟩
  else none

/-- A byte read between characters: the characters it completes, and where the machine stands. -/
def startByte (b : UInt8) : List Char × Option Pending :=
  if b < 0x80 then ([Char.ofNat b.toNat], none)
  else match Pending.ofLead b with
    | some p => ([], some p)
    | none => ([replacement], none)

/-- A byte read after `p`. One that `p` does not allow closes the run before it with a
replacement character and is read afresh. -/
def Pending.next (p : Pending) (b : UInt8) : List Char × Option Pending :=
  if p.low ≤ b ∧ b ≤ p.high then
    let bits := p.bits * 64 + (b.toNat - 0x80)
    if p.missing ≤ 1 then ([Char.ofNat bits], none)
    else ([], some ⟨p.missing - 1, 0x80, 0xBF, bits⟩)
  else
    let (out, state) := startByte b
    (replacement :: out, state)

/-- The characters of the remaining bytes, from any state of the machine. -/
def decodeFrom : Option Pending → List UInt8 → List Char
  | none, [] => []
  | some _, [] => [replacement]
  | none, b :: bs => (startByte b).1 ++ decodeFrom (startByte b).2 bs
  | some p, b :: bs => (p.next b).1 ++ decodeFrom (p.next b).2 bs

/-- The text that bytes stand for. -/
def decode (bs : List UInt8) : String := String.ofList (decodeFrom none bs)

/-- The UTF-8 bytes of a text. -/
def encode (s : String) : List UInt8 := s.toList.flatMap String.utf8EncodeChar

theorem decodeFrom_ascii {b : UInt8} (h : b < 0x80) (bs : List UInt8) :
    decodeFrom none (b :: bs) = Char.ofNat b.toNat :: decodeFrom none bs := by
  simp [decodeFrom, startByte, h]

end RouteScript.Text
