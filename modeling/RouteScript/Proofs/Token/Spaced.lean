import RouteScript.Proofs.Token.Scanned
import RouteScript.Proofs.Token.Settled
import RouteScript.Proofs.Token.Spelled
/-!
# Spellings with spaces between them

Spellings of tokens, with a space between them, are scanned as these tokens. A string after a string
would be read as one that goes on, so no two of them may stand side by side.
-/
namespace RouteScript.Scan

variable {options : ScanOptions} {joined : Bool} {bytes bs rest : List UInt8} {t : Token}

/-- The kind of a string comes with its text. -/
theorem Lexeme.stringText?_ne_none (h : Lexeme options t) (hkind : t.kind = .string) :
    t.stringText? ≠ none := by
  obtain ⟨s, rfl⟩ := h.scanned.eq_ofText hkind (by decide) (by decide)
  simp

theorem head_of_spells (h : Spells bytes t) (hrest : Ends rest)
    (hjoined : joined = true → t.stringText? = none) :
    ∃ b bs, bytes ++ rest = b :: bs ∧
      head options joined b bs = .token t bytes.length (t.kind = .string) := by
  obtain ⟨hlexeme, hpos⟩ := h.reads options
  obtain ⟨b, bs, rfl⟩ := List.exists_cons_of_ne_nil (List.length_pos_iff.1 hpos)
  refine ⟨b, bs ++ rest, rfl, ?_⟩
  have hgoes : (joined && decide (b = byte '"')) = false := by
    cases joined with
    | false => rfl
    | true =>
      refine decide_eq_false ?_
      rintro rfl
      exact hlexeme.stringText?_ne_none (h.quoted rfl) (hjoined rfl)
  have hgap := h.noGap rest hrest
  have hread := h.read rest hrest
  rw [List.cons_append] at hgap hread
  rw [head, hgoes, hgap, hread]
  rfl

/-- One space before what is no blank is a gap of its own. -/
theorem head_space (h : gapLength bs = 0) : head options joined (byte ' ') bs = .gap 1 := by
  have hblanks : bs.takeWhile isBlank = [] := by
    cases bs with
    | nil => rfl
    | cons b bs =>
      by_cases hb : isBlank b = true
      · simp [gapLength, hb] at h
      · simp [hb]
  have hgap : gapLength (byte ' ' :: bs) = 1 := by
    simp [gapLength, hblanks, (by decide : isBlank (byte ' ') = true)]
  have hgoes : (joined && decide (byte ' ' = byte '"')) = false := Bool.and_false joined
  rw [head, hgoes, hgap]
  rfl

variable {spellings : List (List UInt8)} {ts : List Token} {position : Nat}
  {tokens : List LocatedToken}

theorem Walked.spelled (h : Spells bytes t) (hrest : Ends rest)
    (hjoined : joined = true → t.stringText? = none)
    (hwalk : Walked options (t.kind = .string) (position + bytes.length) rest tokens) :
    Walked options joined position (bytes ++ rest)
      (⟨t, position, position + bytes.length⟩ :: tokens) := by
  obtain ⟨b, bs, hbs, hhead⟩ := @head_of_spells options joined bytes rest t h hrest hjoined
  rw [hbs]
  refine .token hhead ?_
  rwa [← hbs, List.drop_left]

/-- The spellings, each of them after a space. -/
def spaced (spellings : List (List UInt8)) : List UInt8 := spellings.flatMap (byte ' ' :: ·)

theorem ends_spaced (spellings : List (List UInt8)) : Ends (spaced spellings) := by
  cases spellings with
  | nil => simp [spaced, Ends]
  | cons bytes spellings => simp [spaced, Ends]

theorem intercalate_eq_spaced : ∀ (bytes : List UInt8) (spellings : List (List UInt8)),
    [byte ' '].intercalate (bytes :: spellings) = bytes ++ spaced spellings
  | bytes, [] => by simp [spaced]
  | bytes, next :: spellings => by
    rw [List.intercalate_cons_cons, intercalate_eq_spaced next spellings]
    simp [spaced]

/-- No token goes on with the one before it, which left a string open where `joined` is set. -/
def Unjoined (joined : Bool) (ts : List Token) : Prop :=
  (joined = true → ∀ t ∈ ts.head?, t.stringText? = none) ∧
    ts.IsChain fun t u => t.stringText? = none ∨ u.stringText? = none

theorem Unjoined.tail (h : Unjoined joined (t :: ts)) (ht : Lexeme options t) :
    Unjoined (t.kind = .string) ts := by
  obtain ⟨hnext, hrest⟩ := List.isChain_cons.1 h.2
  refine ⟨fun hkind u hu => ?_, hrest⟩
  exact (hnext u hu).resolve_left (ht.stringText?_ne_none (of_decide_eq_true hkind))

theorem walked_spaced (h : List.Forall₂ Spells spellings ts) :
    ∀ {joined : Bool}, Unjoined joined ts → ∀ position, ∃ tokens,
      Walked options joined position (spaced spellings) tokens ∧ tokens.map (·.token) = ts := by
  induction h with
  | nil => exact fun _ _ => ⟨[], .done, rfl⟩
  | @cons bytes t spellings ts hspells _ ih =>
    intro joined hunjoined position
    obtain ⟨tokens, hwalk, rfl⟩ :=
      ih (hunjoined.tail (hspells.reads options).1) (position + 1 + bytes.length)
    have hends := ends_spaced spellings
    have hspelled := Walked.spelled hspells hends (fun hj => hunjoined.1 hj t rfl) hwalk
    exact ⟨_, .gap (head_space (hspells.noGap _ hends)) hspelled, rfl⟩

/-- Spellings with a space between them are scanned as the tokens they spell. -/
theorem walked_intercalate (h : List.Forall₂ Spells spellings ts) (hunjoined : Unjoined false ts) :
    ∃ tokens, Walked options false 0 ([byte ' '].intercalate spellings) tokens ∧
      tokens.map (·.token) = ts := by
  cases h with
  | nil => exact ⟨[], .done, rfl⟩
  | @cons bytes t spellings ts hspells hrest =>
    obtain ⟨tokens, hwalk, rfl⟩ := walked_spaced hrest
      (hunjoined.tail (hspells.reads options).1) (0 + bytes.length)
    rw [intercalate_eq_spaced]
    exact ⟨_, .spelled hspells (ends_spaced spellings) (by simp) hwalk, rfl⟩

end RouteScript.Scan
