import RouteScript.Proofs.Token.Taken
/-!
# Numerals

The digits at the head of the bytes are one numeral, all of them. An integer is read of it if its
decimal value fits in a word, leading zeros or not; otherwise the numeral is what the error quotes.
-/
namespace RouteScript.Scan

variable {digits : String} {bs rest : List UInt8}

/-- The digits stand before `rest`, which goes on with no digit. -/
structure Numeral (digits : String) (rest : List UInt8) : Prop where
  nonempty : digits ≠ ""
  decimal : ∀ c ∈ digits.toList, c.isDigit = true
  ends : ∀ b ∈ rest.head?, isDigit b = false

/-- The number that the digits write. -/
def decimalValue (digits : String) : Nat := Nat.ofDigitChars 10 digits.toList 0

theorem lt_of_isDigit {b : UInt8} (h : isDigit b = true) : b < 0x80 :=
  lt_of_inWord (by simp [inWord, h])

theorem isDigit_ofNat {b : UInt8} (h : isDigit b = true) :
    (Char.ofNat b.toNat).isDigit = true := by
  have hdigit : (byte '0').toNat ≤ b.toNat ∧ b.toNat ≤ (byte '9').toNat := by
    simpa [isDigit, UInt8.le_iff_toNat_le] using h
  rw [Char.isDigit_iff_toNat, Text.toNat_ofNat_ascii (lt_of_isDigit h)]
  exact hdigit

namespace Numeral

theorem encode_eq (h : Numeral digits rest) :
    Text.encode digits = digits.toList.map Char.toUInt8 := by
  rw [← Text.encode_ofList_ascii fun c hc => toNat_lt_of_isDigit (h.decimal c hc),
    String.ofList_toList]

theorem encode_ne_nil (h : Numeral digits rest) : Text.encode digits ≠ [] := by
  rw [h.encode_eq]
  simpa using h.nonempty

theorem isDigit_encode (h : Numeral digits rest) :
    ∀ b ∈ Text.encode digits, Scan.isDigit b = true := by
  intro b hb
  rw [h.encode_eq] at hb
  obtain ⟨c, hc, rfl⟩ := List.mem_map.1 hb
  exact isDigit_toUInt8 (h.decimal c hc)

/-- The digits are all there are. -/
theorem takeWhile_eq (h : Numeral digits rest) :
    (Text.encode digits ++ rest).takeWhile Scan.isDigit = Text.encode digits :=
  takeWhile_append_of_stop h.isDigit_encode h.ends

theorem digitsValue_eq (h : Numeral digits rest) :
    digitsValue (Text.encode digits) = decimalValue digits := by
  rw [h.encode_eq]
  exact foldl_toUInt8 (fun c hc => toNat_lt_of_isDigit (h.decimal c hc)) 0

/-- A numeral is read whole, or does not fit. -/
theorem integer?_eq (h : Numeral digits rest) : integer? (Text.encode digits ++ rest) =
    if decimalValue digits ≤ Word64.signedMax then
      some (.ok (⟨.integer, .integer (decimalValue digits)⟩, (Text.encode digits).length))
    else some (.error (.integerTooLarge digits)) := by
  simp only [integer?, h.takeWhile_eq, h.digitsValue_eq, Text.decode_encode]
  rw [if_neg h.encode_ne_nil]

end Numeral

/-- Digits are decoded as digits. -/
theorem decimal_decode : ∀ {bs : List UInt8}, (∀ b ∈ bs, isDigit b = true) →
    ∀ c ∈ (Text.decode bs).toList, c.isDigit = true
  | [], _ => by simp [Text.decode, Text.decodeFrom]
  | b :: bs, h => by
    obtain ⟨hb, hbs⟩ := List.forall_mem_cons.1 h
    have ih := decimal_decode hbs
    simp only [Text.decode, String.toList_ofList] at ih ⊢
    rw [Text.decodeFrom_ascii (lt_of_isDigit hb)]
    exact List.forall_mem_cons.2 ⟨isDigit_ofNat hb, ih⟩

/-- Bytes that start with a digit start with a numeral. -/
theorem exists_numeral (h : bs.takeWhile isDigit ≠ []) :
    ∃ digits rest, bs = Text.encode digits ++ rest ∧ Numeral digits rest := by
  obtain ⟨hdigits, hrest⟩ : (∀ b ∈ bs.takeWhile isDigit, isDigit b = true) ∧
      ∀ b ∈ (bs.dropWhile isDigit).head?, isDigit b = false :=
    stop_of_takeWhile (by rw [List.takeWhile_append_dropWhile])
  have hencode : Text.encode (Text.decode (bs.takeWhile isDigit)) = bs.takeWhile isDigit :=
    Text.encode_decode_ascii fun b hb => lt_of_isDigit (hdigits b hb)
  refine ⟨Text.decode (bs.takeWhile isDigit), bs.dropWhile isDigit, ?_, ?_, decimal_decode hdigits,
    hrest⟩
  · rw [hencode, List.takeWhile_append_dropWhile]
  · intro hempty
    rw [hempty] at hencode
    exact h hencode.symm

end RouteScript.Scan
