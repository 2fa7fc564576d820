import RouteScript.Proofs.Token.Settled
/-!
# Streams settled in pieces

A stream may be cut anywhere, inside a run of strings or of line breaks too: its pieces are settled
one by one, what they become is put together and settled again, and that comes to what the whole
stream settles to. Settling what is settled so changes nothing, and a pass from the front, which
joins a string to the token it put down last, comes to the same as the one from the end.
-/
namespace RouteScript

variable {t u : LocatedToken} {tokens settled rest : List LocatedToken}

namespace Token

theorem wordKind_eq_identifier {name : String} (h : wordKind name = .identifier) :
    name ∉ keywords ∧ name ∉ routeWords ∧ name ∉ directiveWords := by
  unfold wordKind at h
  split at h
  · cases h
  · rename_i hkeyword
    split at h
    · cases h
    · rename_i hroute
      split at h
      · cases h
      · rename_i hdirective
        exact ⟨hkeyword, hroute, hdirective⟩

/-- An identifier gets the kind of its name, and no other token is touched. -/
theorem classified_cases (t : Token) : (t.kind ≠ .identifier ∧ t.classified = t) ∨
    (t.classified = t ∧ t.literal.text? = none) ∨
    ∃ name, t = .ofText .identifier name ∧ t.classified = .ofText (wordKind name) name := by
  by_cases hkind : t.kind = .identifier
  · obtain ⟨kind, literal⟩ := t
    obtain rfl : kind = .identifier := hkind
    cases literal with
    | text name => exact .inr (.inr ⟨name, rfl, rfl⟩)
    | absent | integer _ | coreVariable _ _ => exact .inr (.inl ⟨rfl, rfl⟩)
  · exact .inl ⟨hkind, classified_of_ne hkind⟩

@[simp] theorem classified_classified (t : Token) : t.classified.classified = t.classified := by
  rcases classified_cases t with ⟨-, h⟩ | ⟨h, -⟩ | ⟨name, -, h⟩
  · rw [h, h]
  · rw [h, h]
  · rw [h]
    by_cases hkind : wordKind name = .identifier
    · rw [hkind, classified_ofText_identifier, hkind]
    · exact classified_of_ne hkind

theorem kind_classified_eq_lineBreak (t : Token) :
    t.classified.kind = .lineBreak ↔ t.kind = .lineBreak := by
  rcases classified_cases t with ⟨-, h⟩ | ⟨h, -⟩ | ⟨name, rfl, h⟩
  · rw [h]
  · rw [h]
  · have hword : wordKind name ≠ .lineBreak :=
      ne_of_mem_of_not_mem (wordKind_mem name) (by decide)
    rw [h]
    exact iff_of_false hword fun heq => by cases heq

/-- The token is no line break, and no identifier that is a reserved word. -/
def Clear (t : Token) : Prop :=
  t.kind ≠ .lineBreak ∧ ∀ name, t = .ofText .identifier name → wordKind name = .identifier

theorem clear_ofText_string (s : String) : (ofText .string s).Clear :=
  ⟨(by decide : TokenKind.string ≠ .lineBreak), fun name h => by cases congrArg Token.kind h⟩

theorem clear_classified {t : Token} (h : t.kind ≠ .lineBreak) : t.classified.Clear := by
  refine ⟨mt (kind_classified_eq_lineBreak t).1 h, fun name heq => ?_⟩
  rcases classified_cases t with ⟨hkind, hsame⟩ | ⟨hsame, hnone⟩ | ⟨word, -, hword⟩
  · rw [hsame] at heq
    exact absurd (congrArg Token.kind heq) hkind
  · rw [hsame] at heq
    rw [heq] at hnone
    cases hnone
  · obtain ⟨hkind, hname⟩ := Token.mk.inj (hword.symm.trans heq)
    exact Literal.text.inj hname ▸ hkind

end Token

/-! ## One token after another -/

theorem settleBefore_lineBreak (h : t.kind = .lineBreak) (settled : List LocatedToken) :
    settleBefore t settled = settled := if_pos h

/-- Telling a token apart by its name beforehand makes no difference. -/
theorem settleBefore_classified (t : LocatedToken) (settled : List LocatedToken) :
    settleBefore { t with token := t.token.classified } settled = settleBefore t settled := by
  simp only [settleBefore, LocatedToken.kind, Token.kind_classified_eq_lineBreak,
    Token.stringText?_classified, Token.classified_classified]
  split
  · rfl
  · split
    · rename_i left u rest hleft
      rw [Token.stringText?_eq_some_iff.1 hleft, Token.classified_ofText_string,
        ← Token.stringText?_eq_some_iff.1 hleft]
    · rfl

/-- Two strings that were joined before are joined with what follows as they would be one after the
other. -/
theorem settleBefore_joined {left right : String} (ht : t.token = .ofText .string left)
    (hu : u.token = .ofText .string right) (settled : List LocatedToken) :
    settleBefore ⟨.ofText .string (left ++ right), t.range.start, u.range.stop⟩ settled =
      settleBefore t (settleBefore u settled) := by
  have hbreak : ∀ s, (Token.ofText .string s).kind ≠ .lineBreak := fun s h => by cases h
  cases settled with
  | nil => simp [settleBefore, LocatedToken.kind, ht, hu, hbreak]
  | cons v settled =>
    cases hvtext : v.token.stringText? with
    | none => simp [settleBefore, LocatedToken.kind, ht, hu, hbreak, hvtext]
    | some more =>
      simp [settleBefore, LocatedToken.kind, ht, hu, hbreak, hvtext, String.append_assoc]

/-- It makes no difference whether a token is settled with what comes right after it or with all
that comes after it. -/
theorem foldr_settleBefore (t : LocatedToken) (settled rest : List LocatedToken) :
    (settleBefore t settled).foldr settleBefore rest =
      settleBefore t (settled.foldr settleBefore rest) := by
  rcases settleBefore_cases t settled with
    ⟨hbreak, heq⟩ | ⟨-, heq⟩ | ⟨left, right, u, us, ht, rfl, hu, heq⟩
  · rw [heq, settleBefore_lineBreak hbreak]
  · rw [heq, List.foldr_cons, settleBefore_classified]
  · rw [heq, List.foldr_cons, List.foldr_cons, settleBefore_joined ht hu]

/-- Tokens may be settled by themselves before they are put in front of others. -/
theorem foldr_settle (rest : List LocatedToken) : ∀ tokens : List LocatedToken,
    (settle tokens).foldr settleBefore rest = tokens.foldr settleBefore rest
  | [] => rfl
  | t :: tokens => by
    show (settleBefore t (settle tokens)).foldr settleBefore rest = _
    rw [foldr_settleBefore, foldr_settle rest tokens, List.foldr_cons]

theorem settle_settle (tokens : List LocatedToken) : settle (settle tokens) = settle tokens :=
  foldr_settle [] tokens

theorem settle_append (tokens rest : List LocatedToken) :
    settle (tokens ++ rest) = tokens.foldr settleBefore (settle rest) := by
  rw [settle, List.foldr_append]
  rfl

/-! ## What is left -/

theorem mem_settleBefore (h : u ∈ settleBefore t settled) : u ∈ settled ∨
    (t.kind ≠ .lineBreak ∧ u.token = t.token.classified) ∨ ∃ s, u.token = .ofText .string s := by
  by_cases hbreak : t.kind = .lineBreak
  · rw [settleBefore_lineBreak hbreak] at h
    exact .inl h
  · rcases settleBefore_cases t settled with
      ⟨hkind, -⟩ | ⟨-, heq⟩ | ⟨left, right, v, us, -, rfl, -, heq⟩
    · exact absurd hkind hbreak
    · rw [heq] at h
      rcases List.mem_cons.1 h with rfl | h
      · exact .inr (.inl ⟨hbreak, rfl⟩)
      · exact .inl h
    · rw [heq] at h
      rcases List.mem_cons.1 h with rfl | h
      · exact .inr (.inr ⟨_, rfl⟩)
      · exact .inl (List.mem_cons_of_mem _ h)

theorem clear_settle : ∀ (tokens : List LocatedToken), ∀ t ∈ settle tokens, t.token.Clear
  | t :: tokens, u, h => by
    have hmem : u ∈ settleBefore t (settle tokens) := h
    rcases mem_settleBefore hmem with h | ⟨hbreak, heq⟩ | ⟨s, heq⟩
    · exact clear_settle tokens u h
    · rw [heq]
      exact Token.clear_classified hbreak
    · rw [heq]
      exact Token.clear_ofText_string s

/-! ## From the front -/

/-- A token put behind a settled stream: a string goes on with one that ends the stream. -/
def settleBehind (settled : List LocatedToken) (t : LocatedToken) : List LocatedToken :=
  if t.kind = .lineBreak then settled
  else
    match t.token.stringText?, settled.getLast? with
    | some right, some u =>
      match u.token.stringText? with
      | some left =>
        settled.dropLast ++ [⟨.ofText .string (left ++ right), u.range.start, t.range.stop⟩]
      | none => settled ++ [t]
    | _, _ => settled ++ [{ t with token := t.token.classified }]

/-- What comes after a stream that is not empty stays as it is, if its first token is settled with
the last one of that stream already. -/
theorem foldr_settleBefore_append (rest : List LocatedToken) (hne : settled ≠ []) :
    ∀ tokens : List LocatedToken, tokens.foldr settleBefore settled ≠ [] ∧
      tokens.foldr settleBefore (settled ++ rest) = tokens.foldr settleBefore settled ++ rest
  | [] => ⟨hne, rfl⟩
  | t :: tokens => by
    obtain ⟨ih, heq⟩ := foldr_settleBefore_append rest hne tokens
    rw [List.foldr_cons, List.foldr_cons, heq]
    refine ⟨?_, settleBefore_append ih rest⟩
    rcases settleBefore_cases t (tokens.foldr settleBefore settled) with
      ⟨-, h⟩ | ⟨-, h⟩ | ⟨_, _, _, _, -, -, -, h⟩
    · rwa [h]
    · rw [h]
      exact List.cons_ne_nil _ _
    · rw [h]
      exact List.cons_ne_nil _ _

theorem settleBehind_string {left right : String} (hu : u.token = .ofText .string left)
    (ht : t.token = .ofText .string right) (front : List LocatedToken) :
    settleBehind (front ++ [u]) t =
      front ++ [⟨.ofText .string (left ++ right), u.range.start, t.range.stop⟩] := by
  have hbreak : (Token.ofText .string right).kind ≠ .lineBreak := fun h => by cases h
  simp [settleBehind, LocatedToken.kind, ht, hu, hbreak]

/-- A token behind one that it is not joined with stays a token by itself. -/
theorem settleBehind_alone (hbreak : t.kind ≠ .lineBreak)
    (hapart : ¬∃ left right, u.token = .ofText .string left ∧ t.token = .ofText .string right)
    (front : List LocatedToken) :
    settleBehind (front ++ [u]) t = front ++ [u] ++ [{ t with token := t.token.classified }] := by
  rw [settleBehind, if_neg hbreak, List.getLast?_concat]
  cases htext : t.token.stringText? with
  | none => rfl
  | some right =>
    have ht := Token.stringText?_eq_some_iff.1 htext
    cases hutext : u.token.stringText? with
    | none =>
      have hsame : t.token.classified = t.token := by rw [ht, Token.classified_ofText_string]
      simp only [hutext, hsame]
    | some left => exact absurd ⟨left, right, Token.stringText?_eq_some_iff.1 hutext, ht⟩ hapart

/-- A token in front of one that it is not joined with stays a token by itself. -/
theorem settleBefore_alone (hbreak : u.kind ≠ .lineBreak)
    (hapart : ¬∃ left right, u.token = .ofText .string left ∧ t.token = .ofText .string right) :
    settleBefore u [{ t with token := t.token.classified }] =
      [{ u with token := u.token.classified }] ++ [{ t with token := t.token.classified }] := by
  rcases settleBefore_cases u [{ t with token := t.token.classified }] with
    ⟨h, -⟩ | ⟨-, heq⟩ | ⟨left, right, v, us, hu, hv, hright, -⟩
  · exact absurd h hbreak
  · exact heq
  · obtain ⟨rfl, -⟩ := List.cons.inj hv
    have htext := Token.stringText?_eq_some_iff.2 hright
    rw [Token.stringText?_classified] at htext
    exact absurd ⟨left, right, hu, Token.stringText?_eq_some_iff.1 htext⟩ hapart

/-- If tokens are settled in front of a string, then they are in front of any that begins where it
does. -/
theorem foldr_settleBefore_string {front : List LocatedToken} {s : String} {first stop : Nat}
    (h : front.foldr settleBefore [⟨.ofText .string s, first, stop⟩] =
      front ++ [⟨.ofText .string s, first, stop⟩]) (s' : String) (stop' : Nat) :
    front.foldr settleBefore [⟨.ofText .string s', first, stop'⟩] =
      front ++ [⟨.ofText .string s', first, stop'⟩] := by
  obtain ⟨before, text, start, hstring⟩ := exists_foldr_string first front
  obtain ⟨rfl, hend⟩ := List.append_inj' ((hstring s stop).symm.trans h) rfl
  obtain ⟨htoken, hplace⟩ := LocatedToken.mk.inj (List.cons.inj hend).1
  obtain rfl : text = "" := by simpa [Token.ofText] using htoken
  obtain rfl : start = first := congrArg ByteRange.start hplace
  rw [hstring, String.empty_append]

/-- A token behind a stream is settled with the last token of what the stream settles to. -/
theorem settle_concat (tokens : List LocatedToken) (t : LocatedToken) :
    settle (tokens ++ [t]) = settleBehind (settle tokens) t := by
  rw [settle_append, ← foldr_settle]
  have hsame := settle_settle tokens
  have hclear := clear_settle tokens
  generalize settle tokens = settled at hsame hclear
  by_cases hbreak : t.kind = .lineBreak
  · show settled.foldr settleBefore (settleBefore t []) = _
    rw [settleBehind, if_pos hbreak, settleBefore_lineBreak hbreak]
    exact hsame
  rcases List.eq_nil_or_concat settled with rfl | ⟨front, u, rfl⟩
  · simp [settleBehind, settle, settleBefore, hbreak]
  rw [List.concat_eq_append] at hsame hclear ⊢
  have hubreak : u.kind ≠ .lineBreak := (hclear u (by simp)).1
  have hfront : front.foldr settleBefore [{ u with token := u.token.classified }] =
      front ++ [u] := by
    rw [settle, List.foldr_append] at hsame
    simpa [settleBefore, hubreak] using hsame
  have hlast : settle [t] = [{ t with token := t.token.classified }] := by
    simp [settle, settleBefore, hbreak]
  rw [List.foldr_append, List.foldr_cons, List.foldr_nil, hlast]
  by_cases hjoin : ∃ left right, u.token = .ofText .string left ∧ t.token = .ofText .string right
  · obtain ⟨left, right, hu, ht⟩ := hjoin
    obtain ⟨token, place⟩ := u
    obtain rfl : token = .ofText .string left := hu
    have hboth : settleBefore ⟨.ofText .string left, place⟩
        [{ t with token := t.token.classified }] =
          [⟨.ofText .string (left ++ right), place.start, t.range.stop⟩] := by
      simp [settleBefore, hubreak, ht]
    rw [hboth, foldr_settleBefore_string hfront, settleBehind_string rfl ht]
  · rw [settleBefore_alone hubreak hjoin,
      (foldr_settleBefore_append _ (List.cons_ne_nil _ _) front).2, hfront,
      settleBehind_alone hbreak hjoin]

/-- A pass from the front comes to the same. -/
theorem settle_eq_foldl (tokens : List LocatedToken) :
    settle tokens = tokens.foldl settleBehind [] := by
  induction tokens using List.reverseRecOn with
  | nil => rfl
  | append_singleton tokens t ih => rw [settle_concat, ih, List.foldl_concat]

/-- A stream can be settled in pieces, and settling twice is settling once. What is settled holds no
line break, no two strings side by side and no reserved word that is an identifier. -/
theorem settle_piecewise (tokens rest : List LocatedToken) :
    settle (tokens ++ rest) = settle (settle tokens ++ settle rest) ∧
      settle (settle tokens) = settle tokens ∧
      (∀ t ∈ settle tokens, t.kind ≠ .lineBreak) ∧
      (settle tokens).IsChain (fun t u =>
        ¬∃ left right, t.token = .ofText .string left ∧ u.token = .ofText .string right) ∧
      ∀ t ∈ settle tokens, ∀ name, t.token = .ofText .identifier name →
        name ∉ keywords ∧ name ∉ routeWords ∧ name ∉ directiveWords := by
  have hclear := clear_settle tokens
  refine ⟨?_, settle_settle tokens, fun t ht => (hclear t ht).1, ?_, fun t ht name hname =>
    Token.wordKind_eq_identifier ((hclear t ht).2 name hname)⟩
  · rw [settle_append, settle_append, settle_settle, foldr_settle]
  · refine (apart_settle tokens).imp fun t u hapart => ?_
    rintro ⟨left, right, ht, hu⟩
    rcases hapart with h | h
    · rw [ht] at h
      cases h
    · rw [hu] at h
      cases h

end RouteScript
