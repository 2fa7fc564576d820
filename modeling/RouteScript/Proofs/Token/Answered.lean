import RouteScript.Proofs.Token.Numeral
/-!
# What readers answer

All readers but two answer with a token whenever they answer: digits may write a number that is too
large, and the name of a core variable may not be closed. `ScanError.Cause.At` says what stands at
the place of an error, by its cause. A string is read at a quote only.
-/
namespace RouteScript

/-- What the bytes from the place of an error on are, by the cause of the error. -/
inductive ScanError.Cause.At : ScanError.Cause → List UInt8 → Prop
  /-- No gap and no token starts with the byte. -/
  | illegalByte {b : UInt8} {bs : List UInt8} : Scan.gapLength (b :: bs) = 0 →
      Scan.lexeme? (b :: bs) = none →
      At (.illegalByte b (Text.decode ((b :: bs).take Scan.contextLength))) (b :: bs)
  | unterminatedVariable {c : UInt8} {bs : List UInt8} : Scan.isLetter c = true →
      At .unterminatedVariable (Scan.byte '$' :: c :: bs)
  /-- All the digits that stand there, as many as there are, write a number beyond 64 bits. -/
  | integerTooLarge {digits : String} {rest : List UInt8} : Scan.Numeral digits rest →
      Word64.signedMax < Scan.decimalValue digits →
      At (.integerTooLarge digits) (Text.encode digits ++ rest)

namespace ScanError.Cause

/-- Whether the cause is a byte that nothing starts with. -/
def isIllegal : ScanError.Cause → Bool
  | .illegalByte _ _ => true
  | _ => false

end ScanError.Cause

namespace Scan

variable {options : ScanOptions} {joined : Bool} {b : UInt8} {bs : List UInt8} {t : Token} {n : Nat}
  {r q : Option Reading} {cause : ScanError.Cause}

/-! ## Readers of no strings -/

/-- What is read, if anything, is a token and no string. -/
def ReadsBare (r : Option Reading) : Prop :=
  ∀ a, r = some a → ∃ t n, a = .ok (t, n) ∧ t.kind ≠ .string

theorem readsBare_none : ReadsBare none := fun _ h => by cases h

theorem readsBare_ofText {kind : TokenKind} (hkind : kind ≠ .string) (s : String) (n : Nat) :
    ReadsBare (some (.ok (.ofText kind s, n))) := by
  intro a h
  exact ⟨_, _, (Option.some.inj h).symm, hkind⟩

/-- A table of marks answers from its entries. -/
theorem readsBare_find? {α : Type} {table : List α} {p : α → Bool} {kind : α → TokenKind}
    (htable : ∀ a ∈ table, (kind a).isMark = true) (text : α → String) (n : Nat) :
    ReadsBare ((table.find? p).map fun a => .ok (.ofText (kind a) (text a), n)) := by
  cases hfind : table.find? p with
  | none => exact readsBare_none
  | some a =>
    have hmark := htable a (List.mem_of_find?_eq_some hfind)
    exact readsBare_ofText (TokenKind.ne_of_isMark hmark rfl) _ _

theorem ReadsBare.orElse (hr : ReadsBare r) (hq : ReadsBare q) : ReadsBare (r <|> q) := by
  cases r with
  | none => exact hq
  | some a => exact hr

theorem readsBare_word? (bs : List UInt8) : ReadsBare (word? bs) := by
  unfold word?
  dsimp only
  split
  · exact readsBare_none
  · exact readsBare_ofText (by decide) _ _

theorem readsBare_punctuation? (bs : List UInt8) : ReadsBare (punctuation? bs) := by
  cases bs with
  | nil => exact readsBare_none
  | cons b bs => exact readsBare_find? isMark_of_punctuation _ _

theorem readsBare_operator? (bs : List UInt8) : ReadsBare (operator? bs) := by
  unfold operator?
  split
  · exact readsBare_none
  refine ReadsBare.orElse ?_ ?_
  · unfold longOperator?
    split
    · exact readsBare_find? isMark_of_longOperators _ _
    · exact readsBare_none
  · cases bs with
    | nil => exact readsBare_none
    | cons b bs => exact readsBare_find? isMark_of_shortOperators _ _

theorem readsBare_directive? (bs : List UInt8) : ReadsBare (directive? bs) := by
  unfold directive?
  split
  · exact readsBare_ofText (by decide) _ _
  · exact readsBare_none

/-! ## The two that break off -/

/-- A numeral that does not fit. -/
theorem at_of_integer? (h : integer? bs = some (.error cause)) : cause.At bs := by
  have hdigits : bs.takeWhile isDigit ≠ [] := fun hnone => by
    simp [integer?, hnone] at h
  obtain ⟨digits, rest, rfl, hnumeral⟩ := exists_numeral hdigits
  rw [hnumeral.integer?_eq] at h
  split at h
  · cases h
  · rename_i hlarge
    cases h
    exact .integerTooLarge hnumeral (Nat.lt_of_not_le hlarge)

/-- A dollar sign and a letter. -/
theorem at_of_coreVariable? (h : coreVariable? bs = some (.error cause)) : cause.At bs := by
  cases bs with
  | nil => cases h
  | cons b bs =>
    simp only [coreVariable?] at h
    split at h
    · rename_i hsigil
      obtain ⟨rfl, hletter⟩ := hsigil
      split at h
      · cases h
      split at h
      · split at h
        · cases h
        cases h
        cases bs with
        | nil => cases hletter
        | cons c bs => exact .unterminatedVariable (by simpa using hletter)
      · cases h
    · cases h

/-! ## Lexemes and heads -/

theorem ReadsBare.whole (h : ReadsBare r) : r ≠ some (.error cause) := fun herror => by
  obtain ⟨t, n, hok, -⟩ := h _ herror
  cases hok

theorem ReadsBare.kind (h : ReadsBare r) (hread : r = some (.ok (t, n))) : t.kind ≠ .string := by
  obtain ⟨u, m, hok, hkind⟩ := h _ hread
  cases hok
  exact hkind

theorem eq_some_of_orElse {a : Reading} (h : (r <|> q) = some a) : r = some a ∨ q = some a := by
  cases r with
  | none => exact .inr h
  | some _ => exact .inl h

theorem string?_ne_error (bs : List UInt8) : string? bs ≠ some (.error cause) := by
  cases bs with
  | nil => simp [string?]
  | cons b bs =>
    intro h
    obtain ⟨-, body, rest, -, -, ha⟩ := string?_eq_some h
    cases ha

theorem kind_of_integer? (h : integer? bs = some (.ok (t, n))) : t.kind = .integer := by
  simp only [integer?] at h
  split at h
  · cases h
  split at h
  · cases h
    rfl
  · cases h

theorem kind_of_coreVariable? (h : coreVariable? (b :: bs) = some (.ok (t, n))) :
    t.kind = .coreVariable := by
  obtain ⟨-, family, rest, -, -, -, ⟨-, -, rfl⟩ | ⟨name, tail, -, -, -, rfl⟩⟩ :=
    coreVariable?_eq_some h <;> rfl

/-- A lexeme that breaks off is an integer or a core variable. -/
theorem at_of_lexeme? (h : lexeme? bs = some (.error cause)) : cause.At bs := by
  rw [lexeme?] at h
  rcases eq_some_of_orElse h with h | h
  · exact at_of_integer? h
  replace h := (eq_some_of_orElse h).resolve_left (readsBare_word? bs).whole
  replace h := (eq_some_of_orElse h).resolve_left (string?_ne_error bs)
  replace h := (eq_some_of_orElse h).resolve_left (readsBare_punctuation? bs).whole
  rcases eq_some_of_orElse h with h | h
  · exact at_of_coreVariable? h
  · exact absurd h ((readsBare_operator? bs).orElse (readsBare_directive? bs)).whole

/-- Only a quote starts a string. -/
theorem kind_of_lexeme? (hb : b ≠ byte '"') (h : lexeme? (b :: bs) = some (.ok (t, n))) :
    t.kind ≠ .string := by
  rw [lexeme?, string?_eq_none hb] at h
  rcases eq_some_of_orElse h with h | h
  · simp [kind_of_integer? h]
  rcases eq_some_of_orElse h with h | h
  · exact (readsBare_word? _).kind h
  rcases eq_some_of_orElse h with h | h
  · cases h
  rcases eq_some_of_orElse h with h | h
  · exact (readsBare_punctuation? _).kind h
  rcases eq_some_of_orElse h with h | h
  · simp [kind_of_coreVariable? h]
  · exact ((readsBare_operator? _).orElse (readsBare_directive? _)).kind h

theorem isIllegal_of_at (h : cause.At bs) (hread : lexeme? bs ≠ none) :
    cause.isIllegal = false := by
  cases h with
  | illegalByte _ hnone => exact absurd hnone hread
  | unterminatedVariable _ | integerTooLarge _ _ => rfl

/-- Where a scan faults, a lexeme breaks off, whatever the options are, or a byte is illegal that
would be kept with other options. -/
theorem fault_cases (h : head options joined b bs = .fault cause) :
    (cause.isIllegal = false ∧ cause.At (b :: bs) ∧
      ∀ other, head other joined b bs = .fault cause) ∨
    (options.keepIllegal = false ∧ cause.At (b :: bs) ∧
      cause = .illegalByte b (Text.decode ((b :: bs).take contextLength)) ∧
      head ⟨true⟩ joined b bs = .token (.ofText .illegal (Text.decode [b])) 1 false) := by
  cases head_eq_iff.1 h with
  | broken hfresh hgap hread =>
    have hat := at_of_lexeme? hread
    exact .inl ⟨isIllegal_of_at hat (by simp [hread]), hat,
      fun _ => (HeadIs.broken hfresh hgap hread).eq⟩
  | illegal hfresh hgap hread hkeep =>
    have hkept := (HeadIs.kept hfresh hgap hread rfl : HeadIs ⟨true⟩ joined b bs _).eq
    exact .inr ⟨hkeep, .illegalByte hgap hread, rfl, hkept⟩

theorem at_of_fault (h : head options joined b bs = .fault cause) : cause.At (b :: bs) := by
  rcases fault_cases h with ⟨-, hat, -⟩ | ⟨-, hat, -, -⟩ <;> exact hat

end Scan
end RouteScript
