import Mathlib.Data.List.Chain
import Mathlib.Data.List.Forall2
import RouteScript.Proofs.Token.Laid
import RouteScript.Token.Settle
/-!
# Settled tokens and what they were read from

Settling keeps the order of the tokens and where they stand. A settled token comes from one scanned
token, or from a run of strings: it then starts where the first of them starts and ends where the
last one ends. No two strings are left side by side.
-/
namespace RouteScript

variable {t u : LocatedToken} {settled tokens : List LocatedToken}

/-- The kinds that the name of an identifier tells apart. -/
theorem wordKind_mem (name : String) :
    wordKind name ∈ [TokenKind.keyword, .route, .directive, .identifier] := by
  unfold wordKind
  repeat' split
  all_goals decide

namespace Token

variable {t : Token} {s : String}

theorem stringText?_eq_some_iff : t.stringText? = some s ↔ t = .ofText .string s := by
  obtain ⟨kind, literal⟩ := t
  cases literal <;> simp [stringText?, Literal.text?, ofText]

@[simp] theorem stringText?_ofText (s : String) : (ofText .string s).stringText? = some s := rfl

@[simp] theorem classified_ofText_identifier (name : String) :
    (ofText .identifier name).classified = ofText (wordKind name) name := rfl

@[simp] theorem classified_ofText_string (s : String) :
    (ofText .string s).classified = ofText .string s := rfl

/-- Only identifiers are told apart by their name. -/
theorem classified_of_ne (h : t.kind ≠ .identifier) : t.classified = t := by
  unfold classified
  split
  · contradiction
  · rfl

theorem wordKind_ne_string (name : String) : wordKind name ≠ .string :=
  ne_of_mem_of_not_mem (wordKind_mem name) (by decide)

@[simp] theorem stringText?_classified (t : Token) : t.classified.stringText? = t.stringText? := by
  unfold classified
  split
  · rename_i name hkind _
    simp [stringText?, hkind, wordKind_ne_string]
  · rfl

end Token

/-- What putting a token in front of a settled stream does: a line break is dropped, a string before
a string goes on with it, and all else stays a token by itself. -/
theorem settleBefore_cases (t : LocatedToken) (settled : List LocatedToken) :
    (t.kind = .lineBreak ∧ settleBefore t settled = settled) ∨
    ((t.token.stringText? = none ∨ ∀ u ∈ settled.head?, u.token.stringText? = none) ∧
      settleBefore t settled = { t with token := t.token.classified } :: settled) ∨
    ∃ left right u rest, t.token = .ofText .string left ∧ settled = u :: rest ∧
      u.token = .ofText .string right ∧ settleBefore t settled =
        ⟨.ofText .string (left ++ right), t.range.start, u.range.stop⟩ :: rest := by
  unfold settleBefore
  split
  · rename_i hbreak
    exact .inl ⟨hbreak, rfl⟩
  right
  split
  · rename_i left u rest hleft
    have htoken := Token.stringText?_eq_some_iff.1 hleft
    split
    · rename_i right hright
      exact .inr ⟨left, right, u, rest, htoken, rfl, Token.stringText?_eq_some_iff.1 hright, rfl⟩
    · rename_i hright
      refine .inl ⟨.inr (by simpa using hright), ?_⟩
      rw [htoken, Token.classified_ofText_string, ← htoken]
  · rename_i hnone
    refine .inl ⟨?_, rfl⟩
    cases htext : t.token.stringText? with
    | none => exact .inl rfl
    | some left =>
      right
      rintro u hu
      obtain ⟨rest, rfl⟩ := List.head?_eq_some_iff.1 (Option.mem_def.1 hu)
      exact absurd rfl (hnone left u rest htext)

/-! ## Places -/

theorem inOrder_settleBefore {low high : Nat} (hlow : low ≤ t.range.start)
    (ht : t.range.start ≤ t.range.stop)
    (h : ByteRange.InOrder t.range.stop (settled.map (·.range)) high) :
    ByteRange.InOrder low ((settleBefore t settled).map (·.range)) high := by
  rcases settleBefore_cases t settled with
    ⟨-, heq⟩ | ⟨-, heq⟩ | ⟨left, right, u, rest, -, rfl, -, heq⟩
  · rw [heq]
    exact h.mono (Nat.le_trans hlow ht)
  · rw [heq]
    exact ⟨hlow, ht, h⟩
  · rw [heq]
    obtain ⟨hbetween, hu, hrest⟩ := h
    exact ⟨hlow, ht.trans (hbetween.trans hu), hrest⟩

/-- Settling keeps ranges in order. -/
theorem inOrder_settle {high : Nat} : ∀ {low : Nat} {tokens : List LocatedToken},
    ByteRange.InOrder low (tokens.map (·.range)) high →
      ByteRange.InOrder low ((settle tokens).map (·.range)) high
  | _, [], h => h
  | _, _ :: _, ⟨hlow, ht, h⟩ => inOrder_settleBefore hlow ht (inOrder_settle h)

theorem nonempty_settleBefore {low high : Nat} (ht : t.range.start < t.range.stop)
    (h : ByteRange.InOrder low (settled.map (·.range)) high) (hlow : t.range.stop ≤ low)
    (hne : ∀ u ∈ settled, u.range.start < u.range.stop) :
    ∀ u ∈ settleBefore t settled, u.range.start < u.range.stop := by
  rcases settleBefore_cases t settled with
    ⟨-, heq⟩ | ⟨-, heq⟩ | ⟨left, right, u, rest, -, rfl, -, heq⟩
  · rwa [heq]
  · rw [heq]
    exact List.forall_mem_cons.2 ⟨ht, hne⟩
  · rw [heq]
    obtain ⟨hbetween, hu, -⟩ := h
    refine List.forall_mem_cons.2 ⟨?_, (List.forall_mem_cons.1 hne).2⟩
    exact Nat.lt_of_lt_of_le ht (hlow.trans (hbetween.trans hu))

/-- Tokens of one byte at least settle to such tokens. -/
theorem nonempty_settle {high : Nat} : ∀ {low : Nat} {tokens : List LocatedToken},
    ByteRange.InOrder low (tokens.map (·.range)) high →
      (∀ t ∈ tokens, t.range.start < t.range.stop) →
      ∀ t ∈ settle tokens, t.range.start < t.range.stop
  | _, [], _, h => h
  | _, _ :: _, ⟨_, _, h⟩, hne => by
    obtain ⟨ht, hrest⟩ := List.forall_mem_cons.1 hne
    exact nonempty_settleBefore ht (inOrder_settle h) (Nat.le_refl _) (nonempty_settle h hrest)

/-! ## Runs -/

/-- What a run of scanned tokens becomes: a token by itself is told apart by its name, and strings
become one string around all of them. -/
inductive SettlesTo : List LocatedToken → LocatedToken → Prop
  | alone {t : LocatedToken} : t.token.stringText? = none →
      SettlesTo [t] { t with token := t.token.classified }
  | strings {run : List LocatedToken} {texts : List String} (hne : run ≠ []) :
      run.map (·.token) = texts.map (Token.ofText .string) →
      SettlesTo run ⟨.ofText .string (String.join texts), (run.head hne).range.start,
        (run.getLast hne).range.stop⟩

theorem settlesTo_classified (t : LocatedToken) :
    SettlesTo [t] { t with token := t.token.classified } := by
  cases htext : t.token.stringText? with
  | none => exact .alone htext
  | some s =>
    have htoken := Token.stringText?_eq_some_iff.1 htext
    have hrun : SettlesTo [t] ⟨.ofText .string (String.join [s]), t.range.start, t.range.stop⟩ :=
      .strings (by simp) (by simp [htoken])
    rw [htoken, Token.classified_ofText_string]
    simpa using hrun

/-- A string that starts where another one ends goes on with its run. -/
theorem SettlesTo.join {run : List LocatedToken} {left right : String} (h : SettlesTo run u)
    (ht : t.token = .ofText .string left) (hu : u.token = .ofText .string right) :
    SettlesTo (t :: run)
      ⟨.ofText .string (left ++ right), t.range.start, u.range.stop⟩ := by
  cases h with
  | alone hnone =>
    rw [← Token.stringText?_classified] at hnone
    exact absurd (hnone.symm.trans (congrArg Token.stringText? hu)) (by simp)
  | @strings run texts hne hrun =>
    obtain rfl : String.join texts = right := by simpa [Token.ofText] using hu
    have hall : SettlesTo (t :: run) ⟨.ofText .string (String.join (left :: texts)),
        t.range.start, ((t :: run).getLast (by simp)).range.stop⟩ :=
      .strings (List.cons_ne_nil _ _) (by rw [List.map_cons, List.map_cons, ht, hrun])
    rwa [String.join_cons, List.getLast_cons hne] at hall

/-- A settled stream is the runs of the stream, each of them settled. -/
theorem exists_runs : ∀ {tokens : List LocatedToken}, (∀ t ∈ tokens, t.kind ≠ .lineBreak) →
    ∃ runs : List (List LocatedToken), runs.flatten = tokens ∧
      List.Forall₂ SettlesTo runs (settle tokens)
  | [], _ => ⟨[], rfl, .nil⟩
  | t :: tokens, h => by
    obtain ⟨hbreak, hrest⟩ := List.forall_mem_cons.1 h
    obtain ⟨runs, rfl, hruns⟩ := exists_runs hrest
    show ∃ all, _ ∧ List.Forall₂ SettlesTo all (settleBefore t (settle runs.flatten))
    rcases settleBefore_cases t (settle runs.flatten) with
      ⟨h, -⟩ | ⟨-, heq⟩ | ⟨left, right, u, rest, ht, hsettled, hu, heq⟩
    · exact absurd h hbreak
    · rw [heq]
      exact ⟨[t] :: runs, rfl, .cons (settlesTo_classified t) hruns⟩
    · rw [heq]
      rw [hsettled] at hruns
      obtain ⟨run, others, hrun, hothers, rfl⟩ := List.forall₂_cons_right_iff.1 hruns
      exact ⟨(t :: run) :: others, rfl, .cons (hrun.join ht hu) hothers⟩

/-- No two strings stand side by side. -/
def Apart (tokens : List LocatedToken) : Prop :=
  tokens.IsChain fun t u => t.token.stringText? = none ∨ u.token.stringText? = none

theorem apart_settle : ∀ tokens : List LocatedToken, Apart (settle tokens)
  | [] => .nil
  | t :: tokens => by
    have ih := apart_settle tokens
    show Apart (settleBefore t (settle tokens))
    rcases settleBefore_cases t (settle tokens) with
      ⟨-, heq⟩ | ⟨hapart, heq⟩ | ⟨left, right, u, rest, ht, hsettled, hu, heq⟩
    · rwa [heq]
    · rw [heq]
      refine List.isChain_cons.2 ⟨fun u hmem => ?_, ih⟩
      rw [Token.stringText?_classified]
      exact hapart.imp_right fun h => h u hmem
    · rw [heq]
      rw [hsettled] at ih
      obtain ⟨hnext, hrest⟩ := List.isChain_cons.1 ih
      refine List.isChain_cons.2 ⟨fun v hmem => ?_, hrest⟩
      refine (hnext v hmem).imp_left fun h => ?_
      rw [hu] at h
      cases h

/-- Where no two strings stand side by side, nothing is joined. -/
theorem settle_of_apart : ∀ {tokens : List LocatedToken}, Apart tokens →
    (∀ t ∈ tokens, t.kind ≠ .lineBreak) →
      settle tokens = tokens.map fun t => { t with token := t.token.classified }
  | [], _, _ => rfl
  | t :: tokens, hapart, h => by
    obtain ⟨hbreak, hrest⟩ := List.forall_mem_cons.1 h
    obtain ⟨hnext, htail⟩ := List.isChain_cons.1 hapart
    have ih := settle_of_apart htail hrest
    show settleBefore t (settle tokens) = _
    rcases settleBefore_cases t (settle tokens) with
      ⟨h, -⟩ | ⟨-, heq⟩ | ⟨left, right, u, rest, ht, hsettled, hu, -⟩
    · exact absurd h hbreak
    · rw [heq, ih, List.map_cons]
    · rw [ih] at hsettled
      cases tokens with
      | nil => cases hsettled
      | cons v tokens =>
        obtain ⟨rfl, -⟩ := List.cons.inj hsettled
        rcases hnext v rfl with hnone | hnone
        · rw [ht] at hnone
          cases hnone
        · rw [← Token.stringText?_classified] at hnone
          exact absurd (hnone.symm.trans (congrArg Token.stringText? hu)) (by simp)

/-! ## A string at the end -/

/-- A token put in front does not look beyond the first one that is there. -/
theorem settleBefore_append (hne : settled ≠ []) (more : List LocatedToken) :
    settleBefore t (settled ++ more) = settleBefore t settled ++ more := by
  obtain ⟨u, rest, rfl⟩ := List.exists_cons_of_ne_nil hne
  by_cases hbreak : t.kind = .lineBreak
  · simp [settleBefore, hbreak]
  · cases hleft : t.token.stringText? <;> cases hright : u.token.stringText? <;>
      simp [settleBefore, hbreak, hleft, hright]

/-- What tokens become in front of a string: all of it but the end of its text and of its range does
not hang on that string. -/
theorem exists_foldr_string (first : Nat) : ∀ tokens : List LocatedToken,
    ∃ front text start, ∀ s stop,
      tokens.foldr settleBefore [⟨.ofText .string s, first, stop⟩] =
        front ++ [⟨.ofText .string (text ++ s), start, stop⟩]
  | [] => ⟨[], "", first, fun s stop => by simp⟩
  | t :: tokens => by
    obtain ⟨front, text, start, ih⟩ := exists_foldr_string first tokens
    simp only [List.foldr_cons, ih]
    by_cases hne : front = []
    · subst hne
      by_cases hbreak : t.kind = .lineBreak
      · exact ⟨[], text, start, fun s stop => if_pos hbreak⟩
      cases htext : t.token.stringText? with
      | none =>
        exact ⟨[{ t with token := t.token.classified }], text, start, fun s stop => by
          simp [settleBefore, hbreak, htext]⟩
      | some left =>
        exact ⟨[], left ++ text, t.range.start, fun s stop => by
          simp [settleBefore, hbreak, htext, String.append_assoc]⟩
    · exact ⟨settleBefore t front, text, start, fun s stop => settleBefore_append hne _⟩

/-- A string behind a stream that ends with a string goes on with that. -/
theorem settle_append_string {left : String} (hlast : tokens.getLast? = some t)
    (ht : t.token = .ofText .string left) (right : String) (range : ByteRange) :
    ∃ front text start, settle tokens = front ++ [⟨.ofText .string text, start, t.range.stop⟩] ∧
      settle (tokens ++ [⟨.ofText .string right, range⟩]) =
        front ++ [⟨.ofText .string (text ++ right), start, range.stop⟩] := by
  obtain ⟨before, rfl⟩ := List.getLast?_eq_some_iff.1 hlast
  obtain ⟨token, place⟩ := t
  obtain rfl : token = .ofText .string left := ht
  obtain ⟨front, text, start, hfront⟩ := exists_foldr_string place.start before
  refine ⟨front, text ++ left, start, ?_, ?_⟩
  · rw [settle, List.foldr_append]
    exact hfront left place.stop
  · rw [settle, List.foldr_append, List.foldr_append, String.append_assoc]
    exact hfront (left ++ right) range.stop

end RouteScript
