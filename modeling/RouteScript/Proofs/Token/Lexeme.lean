import Mathlib.Data.List.TakeWhile
import RouteScript.Proofs.Token.Gap
/-!
# Lexemes

One lemma for each reader of a token says what it answers: which tokens it makes, and that it takes
one byte at least and none beyond the end of the source. `Lexeme` is what they make together.
-/
namespace RouteScript

/-- Whether the kind says which text its tokens have: a separator, a bracket or an operator. -/
def TokenKind.isMark (k : TokenKind) : Bool := k.isPunctuation || k.isOperator

theorem TokenKind.ne_of_isMark {k l : TokenKind} (hk : k.isMark = true) (hl : l.isMark = false) :
    k ≠ l := by
  rintro rfl
  rw [hk] at hl
  cases hl

namespace Scan

/-- A token as one of the readers makes it. -/
inductive Lexeme (options : ScanOptions) : Token → Prop
  | integer {n : Nat} : n ≤ Word64.signedMax → Lexeme options ⟨.integer, .integer n⟩
  | identifier {name : List UInt8} : name ≠ [] → word name = name →
      Lexeme options (.ofText .identifier (Text.decode name))
  | string {body : List UInt8} : byte '"' ∉ body →
      Lexeme options (.ofText .string (Text.decode body))
  | mark {c : Char} {kind : TokenKind} : (c, kind) ∈ punctuation →
      Lexeme options (.ofText kind c.toString)
  /-- A family starts with a letter; the name may be empty. -/
  | coreVariable {family name : List UInt8} : family.head?.any isLetter = true →
      word family = family → word name = name →
      Lexeme options ⟨.coreVariable, .coreVariable (Text.decode family) (Text.decode name)⟩
  | longOperator {c d : Char} {kind : TokenKind} : (c, d, kind) ∈ longOperators →
      Lexeme options (.ofText kind (String.ofList [c, d]))
  | shortOperator {c : Char} {kind : TokenKind} : (c, kind) ∈ shortOperators →
      Lexeme options (.ofText kind c.toString)
  | directive {name : List UInt8} : word name = name →
      Lexeme options (.ofText .directive (Text.decode name))
  | illegal {b : UInt8} : options.keepIllegal = true →
      Lexeme options (.ofText .illegal (Text.decode [b]))

/-- What is read is a lexeme, of one byte at least and of none that is not there. -/
def ReadsFrom (options : ScanOptions) (bs : List UInt8) (r : Option Reading) : Prop :=
  ∀ t n, r = some (.ok (t, n)) → Lexeme options t ∧ 0 < n ∧ n ≤ bs.length

variable {options : ScanOptions} {joined joins : Bool} {b : UInt8} {bs : List UInt8} {t : Token}
  {n : Nat}

theorem isMark_of_punctuation : ∀ a ∈ punctuation, a.2.isMark = true := by decide

theorem isMark_of_longOperators : ∀ a ∈ longOperators, a.2.2.isMark = true := by decide

theorem isMark_of_shortOperators : ∀ a ∈ shortOperators, a.2.isMark = true := by decide

/-! ## Words -/

theorem length_word_le (bs : List UInt8) : (word bs).length ≤ bs.length := by
  cases bs with
  | nil => exact Nat.le_refl _
  | cons b bs =>
    have := (List.takeWhile_prefix (l := bs) inWord).length_le
    rw [word]
    split
    · simp only [List.length_cons]
      omega
    · simp

/-- A word is read whole. -/
theorem word_word (bs : List UInt8) : word (word bs) = word bs := by
  cases bs with
  | nil => rfl
  | cons b bs =>
    by_cases hb : startsWord b = true
    · simp [word, hb, List.takeWhile_idem]
    · simp [word, hb]

theorem head?_word_of_isLetter (h : bs.head?.any isLetter = true) :
    (word bs).head?.any isLetter = true := by
  cases bs with
  | nil => cases h
  | cons b bs =>
    have hb : isLetter b = true := by simpa using h
    simp [word, startsWord, hb]

/-! ## Readers -/

theorem readsFrom_orElse {r q : Option Reading} (hr : ReadsFrom options bs r)
    (hq : ReadsFrom options bs q) : ReadsFrom options bs (r <|> q) := by
  intro t n h
  cases r with
  | some a => exact hr t n h
  | none => exact hq t n h

theorem readsFrom_integer? (bs : List UInt8) : ReadsFrom options bs (integer? bs) := by
  intro t n h
  have hle := (List.takeWhile_prefix (l := bs) isDigit).length_le
  unfold integer? at h
  simp only at h
  split at h
  · cases h
  · rename_i hne
    split at h
    · rename_i hfits
      cases h
      exact ⟨.integer hfits, List.length_pos_iff.2 hne, hle⟩
    · cases h

theorem readsFrom_word? (bs : List UInt8) : ReadsFrom options bs (word? bs) := by
  intro t n h
  unfold word? at h
  simp only at h
  split at h
  · cases h
  · rename_i hne
    cases h
    exact ⟨.identifier hne (word_word bs), List.length_pos_iff.2 hne, length_word_le bs⟩

/-- No quote stands before the first one. -/
theorem quote_notMem_body (bs : List UInt8) : byte '"' ∉ bs.takeWhile (· ≠ byte '"') := by
  intro h
  simpa using List.mem_takeWhile_imp h

theorem readsFrom_string? (bs : List UInt8) : ReadsFrom options bs (string? bs) := by
  intro t n h
  unfold string? at h
  split at h
  · cases h
  · rename_i b bs
    simp only at h
    split at h
    · rename_i hclosed
      cases h
      refine ⟨.string (quote_notMem_body bs), by omega, ?_⟩
      simp only [List.length_cons]
      omega
    · cases h

/-- A table of marks answers from its entries. -/
theorem readsFrom_find? {α : Type} {table : List α} {p : α → Bool} {kind : α → TokenKind}
    {text : α → String} {length : Nat}
    (htable : ∀ a ∈ table, Lexeme options (.ofText (kind a) (text a))) (hpos : 0 < length)
    (hle : length ≤ bs.length) :
    ReadsFrom options bs
      ((table.find? p).map fun a => .ok (.ofText (kind a) (text a), length)) := by
  intro t n h
  obtain ⟨a, ha, he⟩ := Option.map_eq_some_iff.1 h
  cases he
  exact ⟨htable a (List.mem_of_find?_eq_some ha), hpos, hle⟩

theorem readsFrom_punctuation? (bs : List UInt8) :
    ReadsFrom options bs (punctuation? bs) := by
  cases bs with
  | nil => intro t n h; cases h
  | cons b bs => exact readsFrom_find? (fun _ ha => .mark ha) (by omega) (by simp)

theorem readsFrom_coreVariable? (bs : List UInt8) :
    ReadsFrom options bs (coreVariable? bs) := by
  intro t n h
  cases bs with
  | nil => cases h
  | cons b bs =>
    have hfamily := length_word_le bs
    have hlength := List.length_drop (i := (word bs).length) (l := bs)
    simp only [coreVariable?] at h
    split at h
    · rename_i hsigil
      have hletter := head?_word_of_isLetter hsigil.2
      have hnameless : Lexeme options ⟨.coreVariable,
          .coreVariable (Text.decode (word bs)) (Text.decode [])⟩ :=
        .coreVariable hletter (word_word bs) rfl
      split at h
      · cases h
        refine ⟨hnameless, by omega, ?_⟩
        simp only [List.length_cons]
        omega
      · rename_i d ds hdrop
        rw [hdrop, List.length_cons] at hlength
        split at h
        · have hname := length_word_le ds
          split at h
          · rename_i hclosed
            -- the closing parenthesis is one more byte
            have hmore : (word ds).length < ds.length := by
              refine Nat.lt_of_le_of_ne hname fun heq => ?_
              rw [heq, List.drop_length] at hclosed
              cases hclosed
            cases h
            refine ⟨.coreVariable hletter (word_word bs) (word_word ds), by omega, ?_⟩
            simp only [List.length_cons]
            omega
          · cases h
        · cases h
          refine ⟨hnameless, by omega, ?_⟩
          simp only [List.length_cons]
          omega
    · cases h

theorem readsFrom_longOperator? (bs : List UInt8) :
    ReadsFrom options bs (longOperator? bs) := by
  unfold longOperator?
  split
  · exact readsFrom_find? (fun _ ha => .longOperator ha) (by omega) (by simp)
  · intro t n h; cases h

theorem readsFrom_shortOperator? (bs : List UInt8) :
    ReadsFrom options bs (shortOperator? bs) := by
  cases bs with
  | nil => intro t n h; cases h
  | cons b bs => exact readsFrom_find? (fun _ ha => .shortOperator ha) (by omega) (by simp)

theorem readsFrom_operator? (bs : List UInt8) : ReadsFrom options bs (operator? bs) := by
  unfold operator?
  split
  · intro t n h; cases h
  · exact readsFrom_orElse (readsFrom_longOperator? bs) (readsFrom_shortOperator? bs)

theorem length_of_opensDirective (h : opensDirective bs = true) : 2 ≤ bs.length := by
  unfold opensDirective at h
  split at h
  · simp
  · cases h

theorem readsFrom_directive? (bs : List UInt8) : ReadsFrom options bs (directive? bs) := by
  intro t n h
  unfold directive? at h
  split at h
  · rename_i hopens
    have hmark := length_of_opensDirective hopens
    have hname := length_word_le (bs.drop 2)
    rw [List.length_drop] at hname
    cases h
    exact ⟨.directive (word_word _), by omega, by omega⟩
  · cases h

theorem readsFrom_lexeme? (bs : List UInt8) : ReadsFrom options bs (lexeme? bs) := by
  unfold lexeme?
  repeat' apply readsFrom_orElse
  · exact readsFrom_integer? bs
  · exact readsFrom_word? bs
  · exact readsFrom_string? bs
  · exact readsFrom_punctuation? bs
  · exact readsFrom_coreVariable? bs
  · exact readsFrom_operator? bs
  · exact readsFrom_directive? bs

theorem readsFrom_illegal (b : UInt8) (bs : List UInt8) :
    ReadsFrom options (b :: bs) (some (illegal options b bs)) := by
  intro t n h
  unfold illegal at h
  split at h
  · rename_i hkeep
    cases h
    exact ⟨.illegal hkeep, by omega, by simp⟩
  · cases h

/-! ## Heads -/

/-- A token at the head is a lexeme. -/
theorem lexeme_of_head (h : head options joined b bs = .token t n joins) :
    Lexeme options t ∧ 0 < n ∧ n ≤ (b :: bs).length := by
  unfold head at h
  split at h
  · cases h
    refine ⟨.string (quote_notMem_body bs), ?_, ?_⟩
    · simp only [continuation]
      omega
    · simp only [continuation, List.length_cons]
      omega
  split at h
  · cases h
  split at h
  · rename_i hread
    cases h
    have hlexeme : ReadsFrom options (b :: bs) (lexeme? (b :: bs)) := readsFrom_lexeme? _
    refine readsFrom_orElse hlexeme (readsFrom_illegal b bs) t n ?_
    cases hr : lexeme? (b :: bs) with
    | some r => rw [hr] at hread; exact congrArg some hread
    | none => rw [hr] at hread; exact congrArg some hread
  · cases h

theorem gapLength_of_head (h : head options joined b bs = .gap n) :
    n = gapLength (b :: bs) ∧ 0 < n ∧ n ≤ (b :: bs).length := by
  unfold head at h
  split at h
  · cases h
  split at h
  · rename_i hpos
    cases h
    obtain ⟨gap, rest, hbs, hlength, -⟩ := gapped (b :: bs)
    refine ⟨rfl, hpos, ?_⟩
    rw [hlength, hbs, List.length_append]
    omega
  · split at h <;> cases h

end Scan
end RouteScript
