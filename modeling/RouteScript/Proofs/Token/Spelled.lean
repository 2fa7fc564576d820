import RouteScript.Proofs.Text.Utf8
import RouteScript.Proofs.Token.Lexeme
/-!
# Spellings

The bytes that spell a token are read as that token wherever the source ends or a blank stands after
them. For every kind of lexeme there is one spelling, the one that a reader sees.
-/
namespace RouteScript.Scan

/-- The source ends here, or a space comes next. -/
def Ends (rest : List UInt8) : Prop := ∀ b ∈ rest.head?, b = byte ' '

/-- The bytes spell the token: before a space or the end they are the whole head, and only strings
start with a quote. -/
structure Spells (bytes : List UInt8) (t : Token) : Prop where
  quoted : bytes.head? = some (byte '"') → t.kind = .string
  noGap : ∀ rest, Ends rest → gapLength (bytes ++ rest) = 0
  read : ∀ rest, Ends rest → lexeme? (bytes ++ rest) = some (.ok (t, bytes.length))

variable {b c : UInt8} {bs rest name family body : List UInt8} {t : Token} {n : Nat}

theorem takeWhile_append_of_stop {p : UInt8 → Bool} {body : List UInt8}
    (hbody : ∀ b ∈ body, p b = true) (hrest : ∀ b ∈ rest.head?, p b = false) :
    (body ++ rest).takeWhile p = body := by
  rw [List.takeWhile_append_of_pos hbody]
  cases rest with
  | nil => simp
  | cons b rest => simp [hrest b rfl]

theorem Ends.stops {p : UInt8 → Bool} (h : Ends rest) (hp : p (byte ' ') = false) :
    ∀ b ∈ rest.head?, p b = false := fun b hb => h b hb ▸ hp

theorem Spells.reads (options : ScanOptions) (h : Spells bs t) :
    Lexeme options t ∧ 0 < bs.length := by
  have hread := h.read [] (by simp [Ends])
  rw [List.append_nil] at hread
  obtain ⟨hlexeme, hpos, -⟩ := @readsFrom_lexeme? options bs t _ hread
  exact ⟨hlexeme, hpos⟩

/-! ## Readers that pass by their first byte -/

theorem integer?_eq_none (h : isDigit b = false) (bs : List UInt8) : integer? (b :: bs) = none := by
  simp [integer?, h]

theorem word?_eq_none (h : startsWord b = false) (bs : List UInt8) : word? (b :: bs) = none := by
  simp [word?, word, h]

theorem string?_eq_none (h : b ≠ byte '"') (bs : List UInt8) : string? (b :: bs) = none := by
  simp [string?, h]

theorem coreVariable?_eq_none (h : b ≠ byte '$') (bs : List UInt8) :
    coreVariable? (b :: bs) = none := by
  simp [coreVariable?, h]

/-- A byte that starts no integer, word or string. -/
def Plain (b : UInt8) : Prop := isDigit b = false ∧ startsWord b = false ∧ b ≠ byte '"'

instance (b : UInt8) : Decidable (Plain b) := inferInstanceAs (Decidable (_ ∧ _ ∧ _))

theorem lexeme?_of_plain (h : Plain b) (bs : List UInt8) : lexeme? (b :: bs) =
    (punctuation? (b :: bs) <|> coreVariable? (b :: bs) <|> operator? (b :: bs)
      <|> directive? (b :: bs)) := by
  rw [lexeme?, integer?_eq_none h.1, word?_eq_none h.2.1, string?_eq_none h.2.2]
  rfl

/-! ## Bytes that start no gap -/

/-- A byte that starts neither a run of blanks nor a comment. -/
def Solid (b : UInt8) : Prop := isBlank b = false ∧ b ≠ byte '/' ∧ b ≠ byte '#'

instance (b : UInt8) : Decidable (Solid b) := inferInstanceAs (Decidable (_ ∧ _ ∧ _))

theorem gapLength_of_solid (h : Solid b) (bs : List UInt8) : gapLength (b :: bs) = 0 := by
  obtain ⟨hblank, hslash, hhash⟩ := h
  simp [gapLength, hblank, hslash, hhash]

/-- Blanks, the slash and the hash sign come before the digits and the letters. -/
theorem solid_of_lt (h : (byte '/').toNat < b.toNat) : Solid b := by
  have hne : ∀ d : UInt8, d.toNat ≤ (byte '/').toNat → b ≠ d := by
    rintro d hd rfl
    omega
  have hblank : isBlank b = false := by
    simp only [isBlank, Bool.or_eq_false_iff, decide_eq_false_iff_not]
    exact ⟨⟨⟨⟨⟨hne _ (by decide), hne _ (by decide)⟩, hne _ (by decide)⟩, hne _ (by decide)⟩,
      hne _ (by decide)⟩, hne _ (by decide)⟩
  exact ⟨hblank, hne _ (by decide), hne _ (by decide)⟩

/-! ## Integers -/

/-- The decimal digits of a number. -/
def decimal (n : Nat) : List UInt8 := (Nat.toDigits 10 n).map Char.toUInt8

theorem toNat_lt_of_isDigit {c : Char} (h : c.isDigit = true) : c.toNat < 0x80 :=
  Nat.lt_of_le_of_lt (Char.isDigit_iff_toNat.1 h).2 (by decide)

theorem isDigit_toUInt8 {c : Char} (h : c.isDigit = true) : isDigit c.toUInt8 = true := by
  have hc : (byte '0').toNat ≤ c.toNat ∧ c.toNat ≤ (byte '9').toNat := Char.isDigit_iff_toNat.1 h
  have hbyte := Text.toNat_toUInt8 (toNat_lt_of_isDigit h)
  simpa [isDigit, UInt8.le_iff_toNat_le, hbyte] using hc

theorem isDigit_of_mem_toDigits {c : Char} (hc : c ∈ Nat.toDigits 10 n) : c.isDigit = true :=
  Nat.isDigit_of_mem_toDigits (by decide) (by decide) hc

theorem toNat_lt_of_mem_toDigits {c : Char} (hc : c ∈ Nat.toDigits 10 n) : c.toNat < 0x80 :=
  toNat_lt_of_isDigit (isDigit_of_mem_toDigits hc)

theorem isDigit_decimal : ∀ b ∈ decimal n, isDigit b = true := by
  intro b hb
  obtain ⟨c, hc, rfl⟩ := List.mem_map.1 hb
  exact isDigit_toUInt8 (isDigit_of_mem_toDigits hc)

theorem encode_repr (n : Nat) : Text.encode n.repr = decimal n := by
  rw [Nat.repr_eq_ofList_toDigits,
    Text.encode_ofList_ascii fun _ hc => toNat_lt_of_mem_toDigits hc]
  rfl

theorem foldl_toUInt8 : ∀ {cs : List Char}, (∀ c ∈ cs, c.toNat < 0x80) → ∀ m,
    (cs.map Char.toUInt8).foldl (fun n b => 10 * n + (b.toNat - (byte '0').toNat)) m =
      Nat.ofDigitChars 10 cs m
  | [], _, _ => rfl
  | c :: cs, h, m => by
    obtain ⟨hc, hcs⟩ := List.forall_mem_cons.1 h
    rw [List.map_cons, List.foldl_cons, foldl_toUInt8 hcs, Nat.ofDigitChars_cons,
      Text.toNat_toUInt8 hc]
    rfl

theorem digitsValue_decimal (n : Nat) : digitsValue (decimal n) = n :=
  (foldl_toUInt8 (fun _ hc => toNat_lt_of_mem_toDigits hc) 0).trans Nat.ofDigitChars_ten_toDigits

theorem solid_of_isDigit (h : isDigit b = true) : Solid b := by
  simp only [isDigit, Bool.and_eq_true, decide_eq_true_eq, UInt8.le_iff_toNat_le] at h
  exact solid_of_lt h.1

theorem ne_quote_of_isDigit (h : isDigit b = true) : b ≠ byte '"' := by
  rintro rfl
  cases h

theorem spells_decimal (h : n ≤ Word64.signedMax) :
    Spells (decimal n) ⟨.integer, .integer n⟩ := by
  obtain ⟨b, bs, hbs⟩ : ∃ b bs, decimal n = b :: bs :=
    List.exists_cons_of_ne_nil (by simp [decimal, Nat.toDigits_ne_nil])
  have hb : isDigit b = true := isDigit_decimal b (by rw [hbs]; exact List.mem_cons_self)
  refine ⟨fun hquote => ?_, fun rest _ => ?_, fun rest hrest => ?_⟩
  · rw [hbs, List.head?_cons] at hquote
    exact absurd (Option.some.inj hquote) (ne_quote_of_isDigit hb)
  · rw [hbs]
    exact gapLength_of_solid (solid_of_isDigit hb) _
  · have hread : (decimal n ++ rest).takeWhile isDigit = decimal n :=
      takeWhile_append_of_stop isDigit_decimal (hrest.stops rfl)
    have hinteger : integer? (decimal n ++ rest) =
        some (.ok (⟨.integer, .integer n⟩, (decimal n).length)) := by
      simp only [integer?, hread, digitsValue_decimal, if_pos h]
      simp [hbs]
    rw [lexeme?, hinteger]
    rfl

/-! ## Words -/

theorem lt_of_inWord (h : inWord b = true) : b < 0x80 := by
  have h9 : (byte '9').toNat = 57 := rfl
  have hz : (byte 'z').toNat = 122 := rfl
  have hZ : (byte 'Z').toNat = 90 := rfl
  have hline : (byte '_').toNat = 95 := rfl
  have hascii : (0x80 : UInt8).toNat = 128 := rfl
  simp only [inWord, startsWord, isLetter, isDigit, Bool.or_eq_true, Bool.and_eq_true,
    decide_eq_true_eq, UInt8.le_iff_toNat_le, ← UInt8.toNat_inj] at h
  rw [UInt8.lt_iff_toNat_lt]
  omega

theorem inWord_of_mem_word (h : b ∈ word bs) : inWord b = true := by
  cases bs with
  | nil => cases h
  | cons d ds =>
    rw [word] at h
    split at h
    · rename_i hstart
      rcases List.mem_cons.1 h with rfl | h
      · simp [inWord, hstart]
      · exact List.mem_takeWhile_imp h
    · cases h

theorem startsWord_of_word (h : word (b :: bs) = b :: bs) : startsWord b = true := by
  by_contra hb
  simp [word, hb] at h

/-- A word goes on up to the first byte that is no part of it. -/
theorem word_append (h : word name = name) (hrest : ∀ b ∈ rest.head?, inWord b = false) :
    word (name ++ rest) = name := by
  cases name with
  | nil =>
    cases rest with
    | nil => rfl
    | cons b rest =>
      have hb : startsWord b = false := by
        have := hrest b rfl
        simp only [inWord, Bool.or_eq_false_iff] at this
        exact this.1
      simp [word, hb]
  | cons b bs =>
    have hall : ∀ d ∈ b :: bs, inWord d = true := fun d hd => inWord_of_mem_word (by rwa [h])
    rw [List.cons_append, word, if_pos (startsWord_of_word h),
      takeWhile_append_of_stop (List.forall_mem_cons.1 hall).2 hrest]

theorem encode_decode_word (h : word name = name) : Text.encode (Text.decode name) = name :=
  Text.encode_decode_ascii fun b hb => lt_of_inWord (inWord_of_mem_word (by rwa [h]))

theorem toNat_of_startsWord (h : startsWord b = true) :
    (byte 'A').toNat ≤ b.toNat ∧ isDigit b = false := by
  have h9 : (byte '9').toNat = 57 := rfl
  have ha : (byte 'a').toNat = 97 := rfl
  have hA : (byte 'A').toNat = 65 := rfl
  have hline : (byte '_').toNat = 95 := rfl
  simp only [startsWord, isLetter, isDigit, Bool.or_eq_true, Bool.and_eq_true,
    Bool.and_eq_false_iff, decide_eq_true_eq, decide_eq_false_iff_not, UInt8.le_iff_toNat_le,
    ← UInt8.toNat_inj] at h ⊢
  omega

theorem spells_word (hne : name ≠ []) (h : word name = name) :
    Spells name (.ofText .identifier (Text.decode name)) := by
  obtain ⟨b, bs, rfl⟩ := List.exists_cons_of_ne_nil hne
  have hstart := startsWord_of_word h
  obtain ⟨hlow, hdigit⟩ := toNat_of_startsWord hstart
  have hsolid : Solid b := solid_of_lt (Nat.lt_of_lt_of_le (by decide) hlow)
  refine ⟨fun hquote => ?_, fun rest _ => gapLength_of_solid hsolid _, fun rest hrest => ?_⟩
  · rw [List.head?_cons] at hquote
    rw [Option.some.inj hquote] at hstart
    cases hstart
  · have hword : word? (b :: bs ++ rest) =
        some (.ok (.ofText .identifier (Text.decode (b :: bs)), (b :: bs).length)) := by
      simp only [word?, word_append h (hrest.stops rfl)]
      rfl
    rw [lexeme?, List.cons_append, integer?_eq_none hdigit, ← List.cons_append, hword]
    rfl

/-! ## Strings -/

theorem ne_quote_of_mem (h : byte '"' ∉ body) : ∀ b ∈ body, decide (b ≠ byte '"') = true := by
  intro b hb
  rw [decide_eq_true_iff]
  rintro rfl
  exact h hb

theorem takeWhile_quote (h : byte '"' ∉ body) (rest : List UInt8) :
    (body ++ byte '"' :: rest).takeWhile (· ≠ byte '"') = body :=
  takeWhile_append_of_stop (ne_quote_of_mem h) (by simp)

/-- A quote that is closed is a string up to the next quote. -/
theorem string?_closed (h : byte '"' ∉ body) (rest : List UInt8) :
    string? (byte '"' :: (body ++ byte '"' :: rest)) =
      some (.ok (.ofText .string (Text.decode body), body.length + 2)) := by
  simp only [string?, takeWhile_quote h]
  simp

theorem spells_string {s : String} (h : '"' ∉ s.toList) :
    Spells (byte '"' :: (Text.encode s ++ [byte '"'])) (.ofText .string s) := by
  have hbody : byte '"' ∉ Text.encode s := mt (Text.mem_of_mem_encode (by decide)) h
  refine ⟨fun _ => rfl, fun rest _ => gapLength_of_solid (by decide) _,
    fun rest _ => ?_⟩
  rw [List.cons_append, List.append_assoc, List.singleton_append, lexeme?, integer?_eq_none rfl,
    word?_eq_none rfl, string?_closed hbody, Text.decode_encode, List.length_cons,
    List.length_append, List.length_singleton]
  rfl

/-! ## Marks and operators -/

theorem encode_toString {c : Char} (h : c.toNat < 0x80) : Text.encode c.toString = [byte c] := by
  have hc : c.toString = String.ofList [c] := rfl
  rw [hc, Text.encode_ofList_ascii (by simpa using h)]
  rfl

/-- A table answers with each of its own entries. -/
theorem punctuation?_of_mem {c : Char} {kind : TokenKind} (h : (c, kind) ∈ punctuation)
    (bs : List UInt8) : punctuation? (byte c :: bs) = some (.ok (.ofText kind c.toString, 1)) := by
  have hfind : ∀ a ∈ punctuation, punctuation.find? (byte ·.1 = byte a.1) = some a := by decide
  rw [punctuation?, hfind _ h]
  rfl

theorem spells_mark {c : Char} {kind : TokenKind} (h : (c, kind) ∈ punctuation) :
    Spells [byte c] (.ofText kind c.toString) := by
  have htable : ∀ a ∈ punctuation, Plain (byte a.1) ∧ Solid (byte a.1) := by decide
  obtain ⟨hplain, hsolid⟩ := htable _ h
  refine ⟨fun hquote => absurd (Option.some.inj hquote) hplain.2.2,
    fun rest _ => gapLength_of_solid hsolid rest, fun rest _ => ?_⟩
  rw [List.singleton_append, lexeme?_of_plain hplain, punctuation?_of_mem h]
  rfl

/-- A byte that only operators and directives start with. -/
def StartsOperator (b : UInt8) : Prop :=
  Plain b ∧ b ≠ byte '$' ∧ punctuation.find? (byte ·.1 = b) = none

instance (b : UInt8) : Decidable (StartsOperator b) := inferInstanceAs (Decidable (_ ∧ _ ∧ _))

theorem lexeme?_of_startsOperator (h : StartsOperator b) (bs : List UInt8) :
    lexeme? (b :: bs) = (operator? (b :: bs) <|> directive? (b :: bs)) := by
  rw [lexeme?_of_plain h.1, coreVariable?_eq_none h.2.1, punctuation?, h.2.2]
  rfl

theorem spells_longOperator {c d : Char} {kind : TokenKind} (h : (c, d, kind) ∈ longOperators) :
    Spells [byte c, byte d] (.ofText kind (String.ofList [c, d])) := by
  have htable : ∀ a ∈ longOperators, StartsOperator (byte a.1) ∧ Solid (byte a.1) ∧
      byte a.2.1 ≠ byte '!' ∧
      (longOperators.find? fun e => byte e.1 = byte a.1 && byte e.2.1 = byte a.2.1) = some a := by
    decide
  obtain ⟨hstarts, hsolid, hbang, hfind⟩ := htable _ h
  refine ⟨fun hquote => absurd (Option.some.inj hquote) hstarts.1.2.2,
    fun rest _ => gapLength_of_solid hsolid _, fun rest _ => ?_⟩
  have hopens : opensDirective (byte c :: byte d :: rest) = false := by
    simp only [opensDirective, Bool.and_eq_false_iff, decide_eq_false_iff_not]
    exact .inr hbang
  have hlong : longOperator? (byte c :: byte d :: rest) =
      some (.ok (.ofText kind (String.ofList [c, d]), 2)) := by
    rw [longOperator?, hfind]
    rfl
  simp only [List.cons_append, List.nil_append]
  rw [lexeme?_of_startsOperator hstarts, operator?, hopens, hlong]
  rfl

theorem spells_shortOperator {c : Char} {kind : TokenKind} (h : (c, kind) ∈ shortOperators) :
    Spells [byte c] (.ofText kind c.toString) := by
  have htable : ∀ a ∈ shortOperators, StartsOperator (byte a.1) ∧ isBlank (byte a.1) = false ∧
      byte a.1 ≠ byte '#' ∧
      (longOperators.find? fun e => byte e.1 = byte a.1 && byte e.2.1 = byte ' ') = none ∧
      shortOperators.find? (byte ·.1 = byte a.1) = some a := by decide
  obtain ⟨hstarts, hblank, hhash, hnolong, hfind⟩ := htable _ h
  have hshort : ∀ bs, shortOperator? (byte c :: bs) = some (.ok (.ofText kind c.toString, 1)) := by
    intro bs
    rw [shortOperator?, hfind]
    rfl
  refine ⟨fun hquote => absurd (Option.some.inj hquote) hstarts.1.2.2, fun rest hrest => ?_,
    fun rest hrest => ?_⟩
  -- an operator of one byte may be the first of a longer one or of a comment, not before a space
  · cases rest with
    | nil => simp [gapLength, hblank, hhash]
    | cons b rest =>
      obtain rfl := hrest b rfl
      have hstar : byte ' ' ≠ byte '*' := by decide
      have hslash : byte ' ' ≠ byte '/' := by decide
      simp [gapLength, hblank, hhash, hstar, hslash]
  · rw [List.singleton_append, lexeme?_of_startsOperator hstarts, operator?]
    cases rest with
    | nil =>
      rw [hshort]
      rfl
    | cons b rest =>
      obtain rfl := hrest b rfl
      have hopens : opensDirective (byte c :: byte ' ' :: rest) = false := by
        simp [opensDirective, (by decide : byte ' ' ≠ byte '!')]
      rw [hopens, hshort, longOperator?, hnolong]
      rfl

/-! ## Directives and core variables -/

theorem directive?_of_opens {rest : List UInt8} (h : opensDirective (b :: c :: rest) = true) :
    directive? (b :: c :: rest) =
      some (.ok (.ofText .directive (Text.decode (word rest)), (word rest).length + 2)) :=
  if_pos h

theorem spells_directive (h : word name = name) :
    Spells (byte '#' :: byte '!' :: name) (.ofText .directive (Text.decode name)) := by
  have hstarts : StartsOperator (byte '#') := by decide
  refine ⟨fun hquote => absurd (Option.some.inj hquote) hstarts.1.2.2, fun rest _ => rfl,
    fun rest hrest => ?_⟩
  have hopens : opensDirective (byte '#' :: byte '!' :: (name ++ rest)) = true := rfl
  have hword : word (name ++ rest) = name := word_append h (hrest.stops rfl)
  simp only [List.cons_append]
  rw [lexeme?_of_startsOperator hstarts, directive?_of_opens hopens, hword]
  rfl

theorem lexeme?_of_sigil {r : Reading} (h : coreVariable? (byte '$' :: bs) = some r) :
    lexeme? (byte '$' :: bs) = some r := by
  have hplain : Plain (byte '$') := by decide
  have hmark : punctuation? (byte '$' :: bs) = none := rfl
  rw [lexeme?_of_plain hplain, hmark, h]
  rfl

theorem head?_append_isLetter (h : family.head?.any isLetter = true) (rest : List UInt8) :
    (family ++ rest).head?.any isLetter = true := by
  cases family with
  | nil => cases h
  | cons b bs => exact h

theorem coreVariable?_bare (hletter : family.head?.any isLetter = true)
    (hfamily : word (family ++ rest) = family) (hrest : rest.head? ≠ some (byte '(')) :
    coreVariable? (byte '$' :: (family ++ rest)) =
      some (.ok (⟨.coreVariable, .coreVariable (Text.decode family) ""⟩, family.length + 1)) := by
  simp only [coreVariable?, head?_append_isLetter hletter, hfamily, List.drop_left]
  cases rest with
  | nil => rfl
  | cons c rest =>
    have hc : c ≠ byte '(' := by simpa using hrest
    simp [hc]

theorem coreVariable?_named (hletter : family.head?.any isLetter = true)
    (hfamily : word family = family) (hname : word name = name) (rest : List UInt8) :
    coreVariable? (byte '$' :: (family ++ byte '(' :: (name ++ byte ')' :: rest))) =
      some (.ok (⟨.coreVariable, .coreVariable (Text.decode family) (Text.decode name)⟩,
        family.length + name.length + 3)) := by
  have hname' : word (name ++ byte ')' :: rest) = name := by
    refine word_append hname fun b hb => ?_
    cases hb
    rfl
  have hfamily' : word (family ++ byte '(' :: (name ++ byte ')' :: rest)) = family := by
    refine word_append hfamily fun b hb => ?_
    cases hb
    rfl
  simp only [coreVariable?, head?_append_isLetter hletter, hfamily', hname', List.drop_left]
  rfl

theorem spells_coreVariable (hletter : family.head?.any isLetter = true)
    (hfamily : word family = family) :
    Spells (byte '$' :: family) ⟨.coreVariable, .coreVariable (Text.decode family) ""⟩ := by
  refine ⟨fun hquote => absurd (Option.some.inj hquote) (by decide),
    fun rest _ => gapLength_of_solid (by decide) _, fun rest hrest => ?_⟩
  rw [List.cons_append]
  have hparenthesis : rest.head? ≠ some (byte '(') := fun h =>
    absurd (hrest _ h) (by decide)
  exact lexeme?_of_sigil
    (coreVariable?_bare hletter (word_append hfamily (hrest.stops rfl)) hparenthesis)

theorem spells_namedVariable (hletter : family.head?.any isLetter = true)
    (hfamily : word family = family) (hname : word name = name) :
    Spells (byte '$' :: (family ++ byte '(' :: (name ++ [byte ')'])))
      ⟨.coreVariable, .coreVariable (Text.decode family) (Text.decode name)⟩ := by
  refine ⟨fun hquote => absurd (Option.some.inj hquote) (by decide),
    fun rest _ => gapLength_of_solid (by decide) _, fun rest _ => ?_⟩
  have hlength : (byte '$' :: (family ++ byte '(' :: (name ++ [byte ')']))).length =
      family.length + name.length + 3 := by
    simp only [List.length_cons, List.length_append, List.length_nil]
    omega
  rw [hlength, List.cons_append, List.append_assoc, List.cons_append, List.append_assoc,
    List.singleton_append]
  exact lexeme?_of_sigil (coreVariable?_named hletter hfamily hname rest)

end RouteScript.Scan
