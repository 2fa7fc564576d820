import RouteScript.Proofs.Token.Lexeme
/-!
# What a head can be

`HeadIs` lists all that bytes can start with, and when: a string that goes on, a gap, a lexeme, a
lexeme that is no good, and a byte that nothing starts with, which is kept or ends the scan. Later
proofs go by these cases instead of by the tests that find them.
-/
namespace RouteScript.Scan

/-- What the bytes `b :: bs` start with. -/
inductive HeadIs (options : ScanOptions) (joined : Bool) (b : UInt8) (bs : List UInt8) :
    Head → Prop
  | goesOn : joined = true → b = byte '"' →
      HeadIs options joined b bs (.token (continuation bs).1 (continuation bs).2 false)
  | gap : (joined = true → b ≠ byte '"') → 0 < gapLength (b :: bs) →
      HeadIs options joined b bs (.gap (gapLength (b :: bs)))
  | lexeme {t : Token} {n : Nat} : (joined = true → b ≠ byte '"') → gapLength (b :: bs) = 0 →
      lexeme? (b :: bs) = some (.ok (t, n)) →
      HeadIs options joined b bs (.token t n (t.kind = .string))
  /-- A lexeme that breaks off, or does not fit. -/
  | broken {cause : ScanError.Cause} : (joined = true → b ≠ byte '"') →
      gapLength (b :: bs) = 0 → lexeme? (b :: bs) = some (.error cause) →
      HeadIs options joined b bs (.fault cause)
  | kept : (joined = true → b ≠ byte '"') → gapLength (b :: bs) = 0 → lexeme? (b :: bs) = none →
      options.keepIllegal = true →
      HeadIs options joined b bs (.token (.ofText .illegal (Text.decode [b])) 1 false)
  | illegal : (joined = true → b ≠ byte '"') → gapLength (b :: bs) = 0 →
      lexeme? (b :: bs) = none → options.keepIllegal = false →
      HeadIs options joined b bs
        (.fault (.illegalByte b (Text.decode ((b :: bs).take contextLength))))

variable {options : ScanOptions} {joined : Bool} {b : UInt8} {bs : List UInt8} {h : Head}

theorem headIs_head (options : ScanOptions) (joined : Bool) (b : UInt8) (bs : List UInt8) :
    HeadIs options joined b bs (head options joined b bs) := by
  unfold head
  split
  · rename_i hgoes
    obtain ⟨hjoined, hquote⟩ : joined = true ∧ b = byte '"' := by simpa using hgoes
    exact .goesOn hjoined hquote
  rename_i hgoes
  have hfresh : joined = true → b ≠ byte '"' := by simpa using hgoes
  split
  · rename_i hgap
    exact .gap hfresh hgap
  rename_i hgap
  have hzero : gapLength (b :: bs) = 0 := Nat.eq_zero_of_not_pos hgap
  cases hread : lexeme? (b :: bs) with
  | some a =>
    cases a with
    | ok a => exact .lexeme hfresh hzero hread
    | error cause => exact .broken hfresh hzero hread
  | none =>
    rw [Option.getD_none, illegal]
    split
    · rename_i hillegal
      split at hillegal
      · rename_i hkeep
        cases hillegal
        exact .kept hfresh hzero hread hkeep
      · cases hillegal
    · rename_i hillegal
      split at hillegal
      · cases hillegal
      · rename_i hkeep
        cases hillegal
        exact .illegal hfresh hzero hread (by simpa using hkeep)

theorem HeadIs.eq (hh : HeadIs options joined b bs h) : head options joined b bs = h := by
  have hgoes : (joined = true → b ≠ byte '"') → (joined && decide (b = byte '"')) = false := by
    simp
  cases hh with
  | goesOn hjoined hquote => rw [head, hjoined, hquote]; rfl
  | gap hfresh hgap => rw [head, hgoes hfresh, if_pos hgap]; rfl
  | lexeme hfresh hgap hread => rw [head, hgoes hfresh, hgap, hread]; rfl
  | broken hfresh hgap hread => rw [head, hgoes hfresh, hgap, hread]; rfl
  | kept hfresh hgap hread hkeep =>
    rw [head, hgoes hfresh, hgap, hread]
    simp [Scan.illegal, hkeep, Token.ofText]
  | illegal hfresh hgap hread hkeep =>
    rw [head, hgoes hfresh, hgap, hread]
    simp [Scan.illegal, hkeep]

theorem head_eq_iff : head options joined b bs = h ↔ HeadIs options joined b bs h :=
  ⟨fun hh => hh ▸ headIs_head options joined b bs, HeadIs.eq⟩

end RouteScript.Scan
