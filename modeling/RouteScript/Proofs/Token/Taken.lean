import RouteScript.Proofs.Token.Head
import RouteScript.Proofs.Token.Spelled
/-!
# What readers take

For each reader, when it passes the bytes by, and how the bytes that it takes are made up: an
integer is all the digits there are, a string ends with the next quote, a core variable is a family
and may have a name in parentheses, an operator does not hang on more than two bytes.
-/
namespace RouteScript.Scan

variable {options : ScanOptions} {joined : Bool} {b c : UInt8}
  {bs xs ys family name body piece rest : List UInt8} {t : Token} {n : Nat}

/-! ## Runs of bytes -/

theorem eq_of_prefix_append (h : bs <+: xs ++ ys) (hlength : bs.length = xs.length) : bs = xs := by
  obtain ⟨rest, hrest⟩ := h
  exact (List.append_inj hrest hlength).1

/-- A run that ends with the first part does not go on with the second. -/
theorem stop_of_takeWhile {p : UInt8 → Bool} (h : (xs ++ ys).takeWhile p = xs) :
    (∀ b ∈ xs, p b = true) ∧ ∀ b ∈ ys.head?, p b = false := by
  have hall : ∀ b ∈ xs, p b = true := fun b hb => List.mem_takeWhile_imp (h ▸ hb)
  refine ⟨hall, fun b hb => ?_⟩
  obtain ⟨rest, rfl⟩ := List.head?_eq_some_iff.1 (Option.mem_def.1 hb)
  rw [List.takeWhile_append_of_pos hall] at h
  by_contra hgoes
  simp [hgoes] at h

/-! ## Gaps -/

theorem isBlank_of_gapLength (h : gapLength (b :: bs) = 0) : isBlank b = false := by
  by_cases hb : isBlank b = true
  · simp [gapLength, hb] at h
  · simpa using hb

/-- What starts with a blank is a gap. -/
theorem isBlank_of_head {h : Head} (hhead : head options joined b bs = h)
    (hgap : ∀ n, h ≠ .gap n) : isBlank b = false := by
  cases head_eq_iff.1 hhead with
  | goesOn _ hquote => exact hquote ▸ rfl
  | gap _ _ => exact absurd rfl (hgap _)
  | lexeme _ hzero _ | broken _ hzero _ | kept _ hzero _ _ | illegal _ hzero _ _ =>
    exact isBlank_of_gapLength hzero

theorem gapLength_comment (bs : List UInt8) : gapLength (byte '/' :: byte '*' :: bs) =
    ((commentLength? bs).map (· + 2)).getD 0 := rfl

theorem gapLength_line (bs : List UInt8) :
    gapLength (byte '/' :: byte '/' :: bs) = 2 + lineLength bs := rfl

theorem gapLength_slash (hstar : c ≠ byte '*') (hslash : c ≠ byte '/') (bs : List UInt8) :
    gapLength (byte '/' :: c :: bs) = 0 := by
  simp [gapLength, hstar, hslash, (by decide : isBlank (byte '/') = false)]

theorem gapLength_feed (bs : List UInt8) : gapLength (byte '#' :: byte '\n' :: bs) = 2 := rfl

theorem gapLength_mark (bs : List UInt8) : gapLength (byte '#' :: byte '!' :: bs) = 0 := rfl

theorem gapLength_hash (hfeed : c ≠ byte '\n') (hmark : c ≠ byte '!') (bs : List UInt8) :
    gapLength (byte '#' :: c :: bs) = 2 + lineLength bs := by
  simp [gapLength, hfeed, hmark, (by decide : isBlank (byte '#') = false),
    (by decide : byte '#' ≠ byte '/')]

/-- A hash sign that starts no gap starts a directive. -/
theorem eq_mark_of_gapLength (h : gapLength (byte '#' :: c :: bs) = 0) : c = byte '!' := by
  by_cases hfeed : c = byte '\n'
  · subst hfeed
    rw [gapLength_feed] at h
    cases h
  by_contra hmark
  rw [gapLength_hash hfeed hmark] at h
  omega

/-- A gap of one byte is a blank, or a hash sign at the end. -/
theorem gapLength_ne_one (hb : isBlank b = false) (hbs : bs ≠ []) : gapLength (b :: bs) ≠ 1 := by
  obtain ⟨c, bs, rfl⟩ := List.exists_cons_of_ne_nil hbs
  by_cases hslash : b = byte '/'
  · subst hslash
    by_cases hstar : c = byte '*'
    · subst hstar
      rw [gapLength_comment]
      cases commentLength? bs <;> simp
    by_cases hline : c = byte '/'
    · subst hline
      rw [gapLength_line]
      omega
    · rw [gapLength_slash hstar hline]
      omega
  by_cases hhash : b = byte '#'
  · subst hhash
    by_cases hfeed : c = byte '\n'
    · subst hfeed
      rw [gapLength_feed]
      omega
    by_cases hmark : c = byte '!'
    · subst hmark
      rw [gapLength_mark]
      omega
    · rw [gapLength_hash hfeed hmark]
      omega
  · rw [gapLength_of_solid ⟨hb, hslash, hhash⟩]
    omega

/-! ## Integers and words -/

theorem integer?_eq_none_iff : integer? (b :: bs) = none ↔ isDigit b = false := by
  constructor
  · intro h
    by_contra hdigit
    simp only [integer?, List.takeWhile_cons, Bool.not_eq_false] at h hdigit
    rw [if_pos hdigit, if_neg (List.cons_ne_nil _ _)] at h
    split at h <;> cases h
  · exact fun h => integer?_eq_none h bs

theorem word?_eq_none_iff : word? (b :: bs) = none ↔ startsWord b = false := by
  constructor
  · intro h
    by_contra hstart
    simp [word?, word, hstart] at h
  · exact fun h => word?_eq_none h bs

/-- An integer is all the digits that it starts with. -/
theorem takeWhile_of_integer? (h : integer? (xs ++ ys) = some (.ok (t, xs.length))) :
    (xs ++ ys).takeWhile isDigit = xs := by
  refine eq_of_prefix_append (List.takeWhile_prefix _) ?_
  simp only [integer?] at h
  split at h
  · cases h
  split at h
  · exact (Prod.mk.inj (Except.ok.inj (Option.some.inj h))).2
  · cases h

theorem prefix_word (bs : List UInt8) : word bs <+: bs := by
  cases bs with
  | nil => exact List.prefix_refl []
  | cons b bs =>
    rw [word]
    split
    · exact (List.prefix_cons_inj b).2 (List.takeWhile_prefix _)
    · exact List.nil_prefix

theorem word_append_drop (bs : List UInt8) : word bs ++ bs.drop (word bs).length = bs :=
  List.prefix_iff_eq_append.1 (prefix_word bs)

theorem word_of_word? (h : word? (xs ++ ys) = some (.ok (t, xs.length))) :
    word (xs ++ ys) = xs := by
  refine eq_of_prefix_append (prefix_word _) ?_
  simp only [word?] at h
  split at h
  · cases h
  · exact (Prod.mk.inj (Except.ok.inj (Option.some.inj h))).2

/-! ## Strings -/

/-- A quote that is closed goes on with a string up to the next quote. -/
theorem continuation_closed (h : byte '"' ∉ body) (rest : List UInt8) :
    continuation (body ++ byte '"' :: rest) =
      (.ofText .string (Text.decode body), body.length + 2) := by
  simp only [continuation, takeWhile_quote h]
  simp

theorem takeWhile_open (h : byte '"' ∉ bs) : bs.takeWhile (· ≠ byte '"') = bs :=
  List.takeWhile_eq_self_iff.2 (ne_quote_of_mem h)

/-- A quote that is not closed goes on with a string up to the end of the source. -/
theorem continuation_open (h : byte '"' ∉ bs) :
    continuation bs = (.ofText .string (Text.decode bs), bs.length + 1) := by
  simp only [continuation, takeWhile_open h]
  simp

theorem string?_quote_eq_none_iff : string? (byte '"' :: bs) = none ↔ byte '"' ∉ bs := by
  constructor
  · intro h hquote
    obtain ⟨body, rest, rfl, hbody⟩ := List.eq_append_cons_of_mem hquote
    rw [string?_closed hbody] at h
    cases h
  · intro h
    simp only [string?, takeWhile_open h]
    simp

theorem string?_eq_some {a : Reading} (h : string? (b :: bs) = some a) :
    b = byte '"' ∧ ∃ body rest, bs = body ++ byte '"' :: rest ∧ byte '"' ∉ body ∧
      a = .ok (.ofText .string (Text.decode body), body.length + 2) := by
  by_cases hb : b = byte '"'
  · subst hb
    refine ⟨rfl, ?_⟩
    have hquote : byte '"' ∈ bs := by
      by_contra hnone
      rw [string?_quote_eq_none_iff.2 hnone] at h
      cases h
    obtain ⟨body, rest, rfl, hbody⟩ := List.eq_append_cons_of_mem hquote
    rw [string?_closed hbody] at h
    exact ⟨body, rest, rfl, hbody, (Option.some.inj h).symm⟩
  · rw [string?_eq_none hb] at h
    cases h

/-- The bytes of a closed string end with the quote that closes it. -/
theorem eq_body_append (h : piece ++ ys = body ++ byte '"' :: rest)
    (hlength : piece.length + 1 = body.length + 2) : piece = body ++ [byte '"'] := by
  rw [← List.singleton_append, ← List.append_assoc] at h
  exact (List.append_inj h (by simp; omega)).1

/-! ## Core variables -/

theorem coreVariable?_eq_none_iff :
    coreVariable? (b :: bs) = none ↔ ¬(b = byte '$' ∧ bs.head?.any isLetter = true) := by
  simp only [coreVariable?]
  constructor
  · intro h hsigil
    rw [if_pos hsigil] at h
    split at h
    · cases h
    · split at h
      · split at h <;> cases h
      · cases h
  · exact fun h => if_neg h

/-- A core variable is a sigil and its family, or a name in parentheses after them. -/
theorem coreVariable?_eq_some (h : coreVariable? (b :: bs) = some (.ok (t, n))) :
    b = byte '$' ∧ ∃ family rest, bs = family ++ rest ∧ word (family ++ rest) = family ∧
      family.head?.any isLetter = true ∧
      ((rest.head? ≠ some (byte '(') ∧ n = family.length + 1 ∧
          t = ⟨.coreVariable, .coreVariable (Text.decode family) ""⟩) ∨
        ∃ name tail, rest = byte '(' :: (name ++ byte ')' :: tail) ∧ word name = name ∧
          n = family.length + name.length + 3 ∧
          t = ⟨.coreVariable, .coreVariable (Text.decode family) (Text.decode name)⟩) := by
  have hsigil : b = byte '$' ∧ bs.head?.any isLetter = true := by
    by_contra hno
    rw [coreVariable?_eq_none_iff.2 hno] at h
    cases h
  obtain ⟨rfl, hletter⟩ := hsigil
  have hbs := word_append_drop bs
  refine ⟨rfl, word bs, bs.drop (word bs).length, hbs.symm, by rw [hbs],
    head?_word_of_isLetter hletter, ?_⟩
  simp only [coreVariable?, hletter, and_self, if_true] at h
  split at h
  · rename_i hdrop
    rw [hdrop]
    cases h
    exact .inl ⟨by simp, rfl, rfl⟩
  · rename_i c cs hdrop
    rw [hdrop]
    split at h
    · rename_i hc
      subst hc
      split at h
      · rename_i hclosed
        cases h
        obtain ⟨tail, htail⟩ := List.head?_eq_some_iff.1 hclosed
        refine .inr ⟨word cs, tail, ?_, word_word cs, rfl, rfl⟩
        rw [← htail, word_append_drop]
      · cases h
    · rename_i hc
      cases h
      exact .inl ⟨by simpa using hc, rfl, rfl⟩

/-! ## Operators and directives -/

theorem exists_of_opensDirective (h : opensDirective bs = true) : ∃ c d rest, bs = c :: d :: rest :=
  match bs, h with
  | c :: d :: rest, _ => ⟨c, d, rest, rfl⟩

theorem exists_of_longOperator? {a : Reading} (h : longOperator? bs = some a) :
    ∃ t, a = .ok (t, 2) := by
  unfold longOperator? at h
  split at h
  · obtain ⟨entry, -, rfl⟩ := Option.map_eq_some_iff.1 h
    exact ⟨_, rfl⟩
  · cases h

/-- An operator or a directive, whichever the bytes start with. -/
def operation? (bs : List UInt8) : Option Reading := operator? bs <|> directive? bs

theorem operation?_of_opens (h : opensDirective bs = true) : operation? bs = directive? bs := by
  rw [operation?, operator?, if_pos h]
  rfl

theorem operation?_of_not_opens (h : opensDirective bs = false) :
    operation? bs = (longOperator? bs <|> shortOperator? bs) := by
  rw [operation?, operator?, directive?, h]
  cases longOperator? bs <;> cases shortOperator? bs <;> rfl

/-- What does not take two bytes is no long operator. -/
theorem longOperator?_eq_none (hopens : opensDirective bs = false)
    (h : ∀ t, operation? bs ≠ some (.ok (t, 2))) : longOperator? bs = none := by
  cases hlong : longOperator? bs with
  | none => rfl
  | some a =>
    obtain ⟨t, rfl⟩ := exists_of_longOperator? hlong
    refine absurd ?_ (h t)
    rw [operation?_of_not_opens hopens, hlong]
    rfl

/-- Which operator it is does not hang on more than two bytes. -/
theorem operation?_congr (h : opensDirective (b :: c :: xs) = false) :
    operation? (b :: c :: ys) = operation? (b :: c :: xs) := by
  have hys : opensDirective (b :: c :: ys) = false := h
  rw [operation?_of_not_opens h, operation?_of_not_opens hys]
  rfl

end RouteScript.Scan
