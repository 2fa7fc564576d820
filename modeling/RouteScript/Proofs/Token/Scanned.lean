import RouteScript.Proofs.Token.Settled
/-!
# Scanned tokens

In the stream of a source every literal goes with the kind of its token, and the only token that
closes the stream is its last one.
-/
namespace RouteScript

/-- A token as a scan makes it: integers carry a number and core variables a family and a name, all
others their text. -/
inductive Token.Scanned : Token → Prop
  | text {kind : TokenKind} {s : String} : kind ≠ .integer → kind ≠ .coreVariable →
      kind ≠ .endOfInput → Scanned (.ofText kind s)
  | integer {n : Int} : Scanned ⟨.integer, .integer n⟩
  | coreVariable {family name : String} : Scanned ⟨.coreVariable, .coreVariable family name⟩

namespace Token.Scanned

variable {t : Token}

theorem isEnd (h : t.Scanned) : t.isEnd = false := by
  cases h with
  | text _ _ h => simp [Token.isEnd, ofText, h]
  | integer | coreVariable => rfl

/-- The text of a token that is no integer and no core variable. -/
theorem eq_ofText {kind : TokenKind} (h : t.Scanned) (hk : t.kind = kind) (hi : kind ≠ .integer)
    (hv : kind ≠ .coreVariable) : ∃ s, t = .ofText kind s := by
  subst hk
  cases h with
  | text => exact ⟨_, rfl⟩
  | integer => exact absurd rfl hi
  | coreVariable => exact absurd rfl hv

theorem kind_of_coreVariable {family name : String} (h : t.Scanned)
    (hl : t.literal = .coreVariable family name) :
    t = ⟨.coreVariable, .coreVariable family name⟩ := by
  cases h with
  | text | integer => cases hl
  | coreVariable => cases hl; rfl

end Token.Scanned

theorem Token.Scanned.mark {kind : TokenKind} {s : String} (h : kind.isMark = true) :
    Scanned (.ofText kind s) :=
  .text (TokenKind.ne_of_isMark h rfl) (TokenKind.ne_of_isMark h rfl) (TokenKind.ne_of_isMark h rfl)

/-- Every lexeme carries what its kind asks for. -/
theorem Scan.Lexeme.scanned {options : ScanOptions} {t : Token} (h : Lexeme options t) :
    t.Scanned := by
  cases h with
  | integer _ => exact .integer
  | coreVariable _ _ _ => exact .coreVariable
  | identifier _ _ | string _ | directive _ | illegal _ =>
    exact .text (by decide) (by decide) (by decide)
  | mark h => exact .mark (isMark_of_punctuation _ h)
  | longOperator h => exact .mark (isMark_of_longOperators _ h)
  | shortOperator h => exact .mark (isMark_of_shortOperators _ h)

/-- A scan makes no line breaks: they are skipped with the blanks. -/
theorem Scan.Lexeme.kind_ne_lineBreak {options : ScanOptions} {t : Token}
    (h : Lexeme options t) : t.kind ≠ .lineBreak := by
  cases h with
  | integer _ | coreVariable _ _ _ | identifier _ _ | string _ | directive _ | illegal _ =>
    simp [Token.ofText]
  | mark h => exact TokenKind.ne_of_isMark (isMark_of_punctuation _ h) rfl
  | longOperator h => exact TokenKind.ne_of_isMark (isMark_of_longOperators _ h) rfl
  | shortOperator h => exact TokenKind.ne_of_isMark (isMark_of_shortOperators _ h) rfl

/-! ## Settled streams -/

theorem Token.Scanned.classified {t : Token} (h : t.Scanned) : t.classified.Scanned := by
  unfold Token.classified
  split
  · rename_i name hkind hlit
    have hword : ∀ k ∈ [TokenKind.keyword, .route, .directive, .identifier],
        k ≠ .integer ∧ k ≠ .coreVariable ∧ k ≠ .endOfInput := by decide
    obtain ⟨hi, hv, hend⟩ := hword _ (wordKind_mem name)
    rw [hlit]
    exact .text hi hv hend
  · exact h

theorem scanned_settleBefore {t : LocatedToken} {settled : List LocatedToken}
    (ht : t.token.Scanned) (h : ∀ u ∈ settled, u.token.Scanned) :
    ∀ u ∈ settleBefore t settled, u.token.Scanned := by
  unfold settleBefore
  split
  · exact h
  split
  · split
    · exact List.forall_mem_cons.2
        ⟨.text (by decide) (by decide) (by decide), (List.forall_mem_cons.1 h).2⟩
    · exact List.forall_mem_cons.2 ⟨ht, h⟩
  · exact List.forall_mem_cons.2 ⟨ht.classified, h⟩

theorem scanned_settle : ∀ {tokens : List LocatedToken}, (∀ t ∈ tokens, t.token.Scanned) →
    ∀ t ∈ settle tokens, t.token.Scanned
  | [], _ => by simp [settle]
  | t :: tokens, h =>
    have ⟨ht, hrest⟩ := List.forall_mem_cons.1 h
    scanned_settleBefore ht (scanned_settle hrest)

theorem tokenStream_eq_ok_iff {options : ScanOptions} {source : List UInt8}
    {tokens : List LocatedToken} :
    tokenStream options source = .ok tokens ↔
      ∃ scanned, scan options source = .ok scanned ∧
        tokens = settle scanned ++ [.endAt source.length] := by
  unfold tokenStream
  cases scan options source with
  | error e => simp [Except.map]
  | ok scanned =>
    constructor
    · intro h
      cases h
      exact ⟨scanned, rfl, rfl⟩
    · rintro ⟨_, h, rfl⟩
      cases h
      rfl

/-- The stream of a source is scanned tokens and the one that closes it. -/
theorem tokenStream_eq_ok {options : ScanOptions} {source : List UInt8} {tokens : List LocatedToken}
    (h : tokenStream options source = .ok tokens) :
    ∃ body, tokens = body ++ [.endAt source.length] ∧ ∀ t ∈ body, t.token.Scanned := by
  obtain ⟨scanned, hscan, rfl⟩ := tokenStream_eq_ok_iff.1 h
  exact ⟨settle scanned, rfl,
    scanned_settle fun t ht => ((scan_eq_ok_iff.1 hscan).lexeme t ht).scanned⟩

end RouteScript
