import RouteScript.Text.Utf8
/-!
# UTF-8 there and back

What is written is read back: a text is the text of its bytes. A character below U+0080 is one byte,
and that byte stands nowhere else: it is read, or written, only as that character.
-/
namespace RouteScript.Text

variable {b : UInt8} {bs : List UInt8} {n : Nat} {p : Pending} {c : Char}

theorem toNat_ofNat_of_lt (h : n < 256) : (UInt8.ofNat n).toNat = n := UInt8.toNat_ofNat_of_lt' h

theorem decodeFrom_lead (hb : 0x80 ≤ b.toNat) (h : Pending.ofLead b = some p) (bs : List UInt8) :
    decodeFrom none (b :: bs) = decodeFrom (some p) bs := by
  have hlt : ¬ b < 0x80 := by
    rw [UInt8.lt_iff_toNat_lt]
    exact Nat.not_lt.2 hb
  simp [decodeFrom, startByte, hlt, h]

/-- A byte that goes on with a character, by the six bits it holds. -/
def tailByte (n : Nat) : UInt8 := UInt8.ofNat (n + 0x80)

theorem toNat_tailByte (h : n < 64) : (tailByte n).toNat = n + 0x80 :=
  toNat_ofNat_of_lt (by omega)

theorem tailByte_bounds (h : n < 64) : 0x80 ≤ tailByte n ∧ tailByte n ≤ 0xBF := by
  rw [UInt8.le_iff_toNat_le, UInt8.le_iff_toNat_le, toNat_tailByte h]
  exact ⟨Nat.le_add_left _ _, show n + 0x80 ≤ 0xBF by omega⟩

theorem ofLead_two (hlow : 2 ≤ n) (hhigh : n < 32) :
    Pending.ofLead (UInt8.ofNat (n + 0xC0)) = some ⟨1, 0x80, 0xBF, n⟩ := by
  have hb : (UInt8.ofNat (n + 0xC0)).toNat = n + 0xC0 := toNat_ofNat_of_lt (by omega)
  have h₁ : ¬ UInt8.ofNat (n + 0xC0) < 0xC2 := by
    rw [UInt8.lt_iff_toNat_lt, hb]
    exact Nat.not_lt.2 (Nat.add_le_add_right hlow 0xC0)
  have h₂ : UInt8.ofNat (n + 0xC0) < 0xE0 := by
    rw [UInt8.lt_iff_toNat_lt, hb]
    exact Nat.add_lt_add_right hhigh 0xC0
  rw [Pending.ofLead, if_neg h₁, if_pos h₂, hb, Nat.add_sub_cancel]

/-- The first of three bytes allows the second unless the form is overlong or a surrogate. -/
theorem ofLead_three {m : Nat} (hn : n < 16) (hm : m < 64) (hlong : n = 0 → 32 ≤ m)
    (hsurrogate : n = 13 → m < 32) :
    ∃ low high, Pending.ofLead (UInt8.ofNat (n + 0xE0)) = some ⟨2, low, high, n⟩ ∧
      low ≤ tailByte m ∧ tailByte m ≤ high := by
  have hb : (UInt8.ofNat (n + 0xE0)).toNat = n + 0xE0 := toNat_ofNat_of_lt (by omega)
  simp only [Pending.ofLead, UInt8.le_iff_toNat_le, UInt8.lt_iff_toNat_lt, ← UInt8.toNat_inj, hb,
    toNat_tailByte hm, UInt8.reduceToNat]
  by_cases hzero : n = 0
  · subst hzero
    exact ⟨0xA0, 0xBF, rfl, by simp; omega, by simp; omega⟩
  by_cases hthirteen : n = 13
  · subst hthirteen
    exact ⟨0x80, 0x9F, rfl, by simp, by simp; omega⟩
  · refine ⟨0x80, 0xBF, ?_, by simp, by simp; omega⟩
    rw [if_neg (by omega), if_neg (by omega), if_neg (by omega), if_neg (by omega),
      if_pos (by omega), Nat.add_sub_cancel]

/-- The first of four bytes allows the second unless the form is overlong or beyond U+10FFFF. -/
theorem ofLead_four {m : Nat} (hn : n < 5) (hm : m < 64) (hlong : n = 0 → 16 ≤ m)
    (hbeyond : n = 4 → m < 16) :
    ∃ low high, Pending.ofLead (UInt8.ofNat (n + 0xF0)) = some ⟨3, low, high, n⟩ ∧
      low ≤ tailByte m ∧ tailByte m ≤ high := by
  have hb : (UInt8.ofNat (n + 0xF0)).toNat = n + 0xF0 := toNat_ofNat_of_lt (by omega)
  simp only [Pending.ofLead, UInt8.le_iff_toNat_le, UInt8.lt_iff_toNat_lt, ← UInt8.toNat_inj, hb,
    toNat_tailByte hm, UInt8.reduceToNat]
  by_cases hzero : n = 0
  · subst hzero
    exact ⟨0x90, 0xBF, rfl, by simp; omega, by simp; omega⟩
  by_cases hfour : n = 4
  · subst hfour
    exact ⟨0x80, 0x8F, rfl, by simp, by simp; omega⟩
  · refine ⟨0x80, 0xBF, ?_, by simp, by simp; omega⟩
    rw [if_neg (by omega), if_neg (by omega), if_neg (by omega), if_neg (by omega),
      if_neg (by omega), if_neg (by omega), if_pos (by omega), Nat.add_sub_cancel]

theorem decodeFrom_one (h : n < 0x80) (bs : List UInt8) :
    decodeFrom none (UInt8.ofNat n :: bs) = Char.ofNat n :: decodeFrom none bs := by
  have hb : (UInt8.ofNat n).toNat = n := toNat_ofNat_of_lt (by omega)
  have hlt : UInt8.ofNat n < 0x80 := by
    rw [UInt8.lt_iff_toNat_lt, hb]
    exact h
  rw [decodeFrom_ascii hlt, hb]

/-- The last byte of a character after the bits `n`. -/
theorem decodeFrom_tail_last {low high : UInt8} {m : Nat} (hm : m < 64)
    (hlow : low ≤ tailByte m) (hhigh : tailByte m ≤ high) (bs : List UInt8) :
    decodeFrom (some ⟨1, low, high, n⟩) (tailByte m :: bs) =
      Char.ofNat (n * 64 + m) :: decodeFrom none bs := by
  simp [decodeFrom, Pending.next, hlow, hhigh, toNat_tailByte hm]

theorem decodeFrom_tail_more {low high : UInt8} {m k : Nat} (hm : m < 64)
    (hlow : low ≤ tailByte m) (hhigh : tailByte m ≤ high) (bs : List UInt8) :
    decodeFrom (some ⟨k + 2, low, high, n⟩) (tailByte m :: bs) =
      decodeFrom (some ⟨k + 1, 0x80, 0xBF, n * 64 + m⟩) bs := by
  simp [decodeFrom, Pending.next, hlow, hhigh, toNat_tailByte hm]

theorem decodeFrom_two (hlow : 2 ≤ n) (hhigh : n < 32) {m : Nat} (hm : m < 64)
    (bs : List UInt8) : decodeFrom none (UInt8.ofNat (n + 0xC0) :: tailByte m :: bs) =
      Char.ofNat (n * 64 + m) :: decodeFrom none bs := by
  have hb : 0x80 ≤ (UInt8.ofNat (n + 0xC0)).toNat := by
    rw [toNat_ofNat_of_lt (by omega)]
    omega
  obtain ⟨htail, htail'⟩ := tailByte_bounds hm
  rw [decodeFrom_lead hb (ofLead_two hlow hhigh), decodeFrom_tail_last hm htail htail']

theorem decodeFrom_three {m k : Nat} (hn : n < 16) (hm : m < 64) (hk : k < 64)
    (hlong : n = 0 → 32 ≤ m) (hsurrogate : n = 13 → m < 32) (bs : List UInt8) :
    decodeFrom none (UInt8.ofNat (n + 0xE0) :: tailByte m :: tailByte k :: bs) =
      Char.ofNat ((n * 64 + m) * 64 + k) :: decodeFrom none bs := by
  have hb : 0x80 ≤ (UInt8.ofNat (n + 0xE0)).toNat := by
    rw [toNat_ofNat_of_lt (by omega)]
    omega
  obtain ⟨low, high, hlead, hlow, hhigh⟩ := ofLead_three hn hm hlong hsurrogate
  obtain ⟨htail, htail'⟩ := tailByte_bounds hk
  rw [decodeFrom_lead hb hlead, decodeFrom_tail_more hm hlow hhigh,
    decodeFrom_tail_last hk htail htail']

theorem decodeFrom_four {m k l : Nat} (hn : n < 5) (hm : m < 64) (hk : k < 64) (hl : l < 64)
    (hlong : n = 0 → 16 ≤ m) (hbeyond : n = 4 → m < 16) (bs : List UInt8) :
    decodeFrom none (UInt8.ofNat (n + 0xF0) :: tailByte m :: tailByte k :: tailByte l :: bs) =
      Char.ofNat (((n * 64 + m) * 64 + k) * 64 + l) :: decodeFrom none bs := by
  have hb : 0x80 ≤ (UInt8.ofNat (n + 0xF0)).toNat := by
    rw [toNat_ofNat_of_lt (by omega)]
    omega
  obtain ⟨low, high, hlead, hlow, hhigh⟩ := ofLead_four hn hm hlong hbeyond
  obtain ⟨hmiddle, hmiddle'⟩ := tailByte_bounds hk
  obtain ⟨htail, htail'⟩ := tailByte_bounds hl
  rw [decodeFrom_lead hb hlead, decodeFrom_tail_more hm hlow hhigh,
    decodeFrom_tail_more hk hmiddle hmiddle', decodeFrom_tail_last hl htail htail']

/-- The bytes of a character are read as that character. -/
theorem decodeFrom_utf8EncodeChar (c : Char) (bs : List UInt8) :
    decodeFrom none (String.utf8EncodeChar c ++ bs) = c :: decodeFrom none bs := by
  have hc : Char.ofNat c.val.toNat = c := Char.ofNat_toNat c
  have hvalid : c.val.toNat < 0xD800 ∨ 0xDFFF < c.val.toNat ∧ c.val.toNat < 0x110000 := c.valid
  unfold String.utf8EncodeChar
  generalize c.val.toNat = v at hc hvalid
  have hlast : v % 64 < 64 := Nat.mod_lt _ (by omega)
  have hthird : v / 64 % 64 < 64 := Nat.mod_lt _ (by omega)
  have hsecond : v / 4096 % 64 < 64 := Nat.mod_lt _ (by omega)
  simp only
  split
  · rw [List.singleton_append, decodeFrom_one (by omega), hc]
  split
  · have hv : v / 64 * 64 + v % 64 = v := by omega
    rw [Nat.mod_eq_of_lt (by omega : v / 64 < 0x20)]
    refine (decodeFrom_two (by omega) (by omega) hlast bs).trans ?_
    rw [hv, hc]
  split
  · have hv : (v / 4096 * 64 + v / 64 % 64) * 64 + v % 64 = v := by omega
    rw [Nat.mod_eq_of_lt (by omega : v / 4096 < 0x10)]
    refine (decodeFrom_three (by omega) hthird hlast (by omega) (by omega) bs).trans ?_
    rw [hv, hc]
  · have hv : ((v / 262144 * 64 + v / 4096 % 64) * 64 + v / 64 % 64) * 64 + v % 64 = v := by omega
    rw [Nat.mod_eq_of_lt (by omega : v / 262144 < 0x08)]
    refine (decodeFrom_four (by omega) hsecond hthird hlast (by omega) (by omega) bs).trans ?_
    rw [hv, hc]

theorem decodeFrom_encode : ∀ (cs : List Char),
    decodeFrom none (cs.flatMap String.utf8EncodeChar) = cs
  | [] => rfl
  | c :: cs => by rw [List.flatMap_cons, decodeFrom_utf8EncodeChar, decodeFrom_encode cs]

/-- What is written is read back. -/
theorem decode_encode (s : String) : decode (encode s) = s := by
  rw [decode, encode, decodeFrom_encode, String.ofList_toList]

theorem encode_append (s t : String) : encode (s ++ t) = encode s ++ encode t := by
  rw [encode, encode, encode, String.toList_append, List.flatMap_append]

theorem encode_intercalate (separator : String) : ∀ texts : List String,
    encode (separator.intercalate texts) = (encode separator).intercalate (texts.map encode)
  | [] => rfl
  | [text] => by simp
  | text :: next :: texts => by
    rw [String.intercalate_cons_cons, encode_append, encode_append,
      encode_intercalate separator (next :: texts)]
    simp only [List.map_cons, List.intercalate_cons_cons]

/-! ## ASCII -/

theorem toNat_toUInt8 (h : c.toNat < 0x80) : c.toUInt8.toNat = c.toNat :=
  toNat_ofNat_of_lt (Nat.lt_trans h (by decide))

theorem utf8EncodeChar_ascii (h : c.toNat < 0x80) : String.utf8EncodeChar c = [c.toUInt8] := by
  have hle : c.val.toNat ≤ 0x7F := Nat.le_of_lt_succ h
  unfold String.utf8EncodeChar
  rw [if_pos hle]
  rfl

theorem encode_ofList_ascii : ∀ {cs : List Char}, (∀ c ∈ cs, c.toNat < 0x80) →
    encode (String.ofList cs) = cs.map Char.toUInt8
  | [], _ => rfl
  | c :: cs, h => by
    obtain ⟨hc, hcs⟩ := List.forall_mem_cons.1 h
    have ih := encode_ofList_ascii hcs
    simp only [encode, String.toList_ofList] at ih ⊢
    rw [List.flatMap_cons, utf8EncodeChar_ascii hc, ih]
    rfl

theorem toNat_ofNat_ascii (h : b < 0x80) : (Char.ofNat b.toNat).toNat = b.toNat := by
  have hb : b.toNat < 0x80 := UInt8.lt_iff_toNat_lt.1 h
  have hvalid : b.toNat.isValidChar := .inl (by omega)
  rw [Char.ofNat, dif_pos hvalid]
  rfl

theorem toUInt8_ofNat_ascii (h : b < 0x80) : (Char.ofNat b.toNat).toUInt8 = b := by
  have hc : (Char.ofNat b.toNat).val.toNat = b.toNat := toNat_ofNat_ascii h
  rw [Char.toUInt8, UInt32.toUInt8, hc]
  exact UInt8.ofNat_toNat

/-- ASCII bytes are the bytes of their text. -/
theorem encode_decode_ascii : ∀ {bs : List UInt8}, (∀ b ∈ bs, b < 0x80) → encode (decode bs) = bs
  | [], _ => rfl
  | b :: bs, h => by
    obtain ⟨hb, hbs⟩ := List.forall_mem_cons.1 h
    have ih := encode_decode_ascii hbs
    have hc : (Char.ofNat b.toNat).toNat < 0x80 := by
      rw [toNat_ofNat_ascii hb]
      exact UInt8.lt_iff_toNat_lt.1 hb
    simp only [encode, decode, String.toList_ofList] at ih ⊢
    rw [decodeFrom_ascii hb, List.flatMap_cons, utf8EncodeChar_ascii hc, toUInt8_ofNat_ascii hb, ih]
    rfl

/-- Every byte of a longer character is 0x80 or more. -/
theorem toNat_of_mem_utf8EncodeChar (hb : b ∈ String.utf8EncodeChar c) (h : b < 0x80) :
    c.toNat = b.toNat := by
  have hlt : b.toNat < 0x80 := UInt8.lt_iff_toNat_lt.1 h
  have hv : c.val.toNat = c.toNat := rfl
  unfold String.utf8EncodeChar at hb
  simp only [hv] at hb
  split at hb
  · rename_i hle
    rw [List.mem_singleton.1 hb, toNat_ofNat_of_lt (by omega)]
  · exfalso
    -- the bytes of the longer forms, each of them a sum with 0x80 or more
    split at hb
    · simp only [List.mem_cons, List.not_mem_nil, or_false] at hb
      rcases hb with rfl | rfl <;> rw [toNat_ofNat_of_lt (by omega)] at hlt <;> omega
    split at hb
    · simp only [List.mem_cons, List.not_mem_nil, or_false] at hb
      rcases hb with rfl | rfl | rfl <;> rw [toNat_ofNat_of_lt (by omega)] at hlt <;> omega
    · simp only [List.mem_cons, List.not_mem_nil, or_false] at hb
      rcases hb with rfl | rfl | rfl | rfl <;> rw [toNat_ofNat_of_lt (by omega)] at hlt <;> omega

/-- The byte of an ASCII character is written for that character only. -/
theorem mem_of_mem_encode {s : String} (h : c.toNat < 0x80) (hmem : c.toUInt8 ∈ encode s) :
    c ∈ s.toList := by
  obtain ⟨d, hd, hb⟩ := List.mem_flatMap.1 hmem
  have hlt : c.toUInt8 < 0x80 := by
    rw [UInt8.lt_iff_toNat_lt, toNat_toUInt8 h]
    exact h
  have := toNat_of_mem_utf8EncodeChar hb hlt
  rw [toNat_toUInt8 h] at this
  rwa [← Char.toNat_inj.1 this]

/-! ## ASCII characters are read from their byte only -/

/-- The character that is read lies beyond ASCII. -/
def Pending.Wide (p : Pending) : Prop :=
  2 ≤ p.bits ∨ 1 < p.missing ∧ (1 ≤ p.bits ∨ 0x90 ≤ p.low.toNat)

theorem wide_of_ofLead (h : Pending.ofLead b = some p) : p.Wide := by
  have hge : ∀ d : UInt8, ¬ b < d → d.toNat ≤ b.toNat := fun d hd =>
    UInt8.le_iff_toNat_le.1 (UInt8.not_lt.1 hd)
  have hne : ∀ d : UInt8, b ≠ d → b.toNat ≠ d.toNat := fun d hd heq => hd (UInt8.toNat_inj.1 heq)
  unfold Pending.ofLead at h
  split at h
  · cases h
  rename_i hC2
  split at h
  · have : 0xC2 ≤ b.toNat := hge _ hC2
    have hbits : 2 ≤ b.toNat - 0xC0 := by omega
    cases h
    exact .inl hbits
  rename_i hE0
  have hlead : 0xE0 ≤ b.toNat := hge _ hE0
  split at h
  · cases h
    exact .inr ⟨by decide, .inr (by decide)⟩
  rename_i hfirst
  have hfirst' : b.toNat ≠ 0xE0 := hne _ hfirst
  split at h
  · cases h
    exact .inl (by decide)
  split at h
  · have hbits : 1 ≤ b.toNat - 0xE0 := by omega
    cases h
    exact .inr ⟨Nat.lt_succ_self 1, .inl hbits⟩
  rename_i hF0
  have hlong : 0xF0 ≤ b.toNat := hge _ hF0
  split at h
  · cases h
    exact .inr ⟨by decide, .inr (by decide)⟩
  rename_i hfirst
  have hfirst' : b.toNat ≠ 0xF0 := hne _ hfirst
  split at h
  · have hbits : 1 ≤ b.toNat - 0xF0 := by omega
    have hmissing : 1 < 3 := by decide
    cases h
    exact .inr ⟨hmissing, .inl hbits⟩
  split at h
  · cases h
    exact .inl (by decide)
  · cases h

/-- What is read with a byte: an ASCII character is that byte, and what stays open is wide. The
character zero is left out, as it also stands for numbers that are no character. -/
def Faithful (b : UInt8) (r : List Char × Option Pending) : Prop :=
  (∀ c ∈ r.1, 0 < c.toNat → c.toNat < 0x80 → c.toUInt8 = b) ∧ ∀ p ∈ r.2, p.Wide

theorem toNat_ofNat_wide (h : 0x80 ≤ n) :
    (Char.ofNat n).toNat = 0 ∨ 0x80 ≤ (Char.ofNat n).toNat := by
  by_cases hvalid : n.isValidChar
  · right
    rw [Char.ofNat, dif_pos hvalid]
    exact h
  · left
    rw [Char.ofNat, dif_neg hvalid]
    rfl

theorem faithful_startByte (b : UInt8) : Faithful b (startByte b) := by
  unfold startByte
  split
  · rename_i hb
    refine ⟨fun c hc _ _ => ?_, by simp⟩
    rw [List.mem_singleton.1 hc, toUInt8_ofNat_ascii hb]
  split
  · rename_i p hlead
    exact ⟨by simp, by simpa using wide_of_ofLead hlead⟩
  · refine ⟨fun c hc _ hlt => ?_, by simp⟩
    rw [List.mem_singleton.1 hc] at hlt
    exact absurd hlt (by decide)

theorem faithful_next (hp : p.Wide) (b : UInt8) : Faithful b (p.next b) := by
  unfold Pending.next
  split
  · rename_i hallowed
    have hlow : p.low.toNat ≤ b.toNat := UInt8.le_iff_toNat_le.1 hallowed.1
    have hbits : 2 ≤ p.bits * 64 + (b.toNat - 0x80) := by
      rcases hp with h | ⟨-, h | h⟩ <;> omega
    simp only
    split
    · rename_i hmissing
      have hwide : 0x80 ≤ p.bits * 64 + (b.toNat - 0x80) := by
        rcases hp with h | ⟨h, -⟩ <;> omega
      refine ⟨fun c hc hpos hlt => ?_, by simp⟩
      rw [List.mem_singleton.1 hc] at hpos hlt
      rcases toNat_ofNat_wide hwide with h | h <;> omega
    · exact ⟨by simp, by simpa using .inl hbits⟩
  · obtain ⟨hout, hstate⟩ := faithful_startByte b
    refine ⟨fun c hc hpos hlt => ?_, hstate⟩
    rcases List.mem_cons.1 hc with rfl | hc
    · exact absurd hlt (by decide)
    · exact hout c hc hpos hlt

theorem mem_of_mem_decodeFrom (hpos : 0 < c.toNat) (hlt : c.toNat < 0x80) :
    ∀ {bs : List UInt8} {state : Option Pending}, (∀ p ∈ state, p.Wide) →
      c ∈ decodeFrom state bs → c.toUInt8 ∈ bs
  | [], none, _, hc => by cases hc
  | [], some _, _, hc => by
    rw [List.mem_singleton.1 hc] at hlt
    exact absurd hlt (by decide)
  | b :: bs, none, _, hc => by
    obtain ⟨hout, hstate⟩ := faithful_startByte b
    rcases List.mem_append.1 hc with hc | hc
    · rw [hout c hc hpos hlt]
      exact List.mem_cons_self
    · exact List.mem_cons_of_mem _ (mem_of_mem_decodeFrom hpos hlt hstate hc)
  | b :: bs, some p, hp, hc => by
    obtain ⟨hout, hstate⟩ := faithful_next (hp p rfl) b
    rcases List.mem_append.1 hc with hc | hc
    · rw [hout c hc hpos hlt]
      exact List.mem_cons_self
    · exact List.mem_cons_of_mem _ (mem_of_mem_decodeFrom hpos hlt hstate hc)

/-- An ASCII character is read from its byte only. -/
theorem mem_of_mem_decode (hpos : 0 < c.toNat) (hlt : c.toNat < 0x80)
    (hc : c ∈ (decode bs).toList) : c.toUInt8 ∈ bs := by
  rw [decode, String.toList_ofList] at hc
  exact mem_of_mem_decodeFrom hpos hlt (by simp) hc

end RouteScript.Text
