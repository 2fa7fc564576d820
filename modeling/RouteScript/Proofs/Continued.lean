import RouteScript.Proofs.Token.Answered
import RouteScript.Proofs.Token.Scanned
import RouteScript.Proofs.Token.Settled
import RouteScript.Proofs.Token.Unmoved
/-!
# Strings that go on

A quote right after a string goes on with that string, even to the end of the source. The string
that is made of it does not let the next quote do the same: a quote that is not closed goes on with
the strings before it if they are odd in number, and is illegal if they are even. A quote that is
closed is the same token either way.
-/
namespace RouteScript

namespace Scan

variable {options : ScanOptions} {joined joins : Bool} {b : UInt8}
  {bs body passed ahead : List UInt8} {t : Token} {n position : Nat}
  {tokens : List LocatedToken}

/-! ## Which quote goes on -/

/-- Whether a string goes on at a quote after a token, by what it did at the token. -/
def joinsAfter (joined : Bool) (t : Token) : Bool := decide (t.kind = .string) && !joined

/-- A quote goes on with a string that did not go on with one itself. -/
theorem joins_of_head (h : head options joined b bs = .token t n joins) :
    joins = joinsAfter joined t := by
  cases head_eq_iff.1 h with
  | goesOn hjoined _ => simp [joinsAfter, hjoined]
  | lexeme hfresh _ hread =>
    cases joined with
    | false => simp [joinsAfter]
    | true => simp [joinsAfter, kind_of_lexeme? (hfresh rfl) hread]
  | kept _ _ _ _ => rfl

theorem Passed.joins_eq_foldl (h : Passed options ahead joined position passed tokens joins) :
    joins = (tokens.map (·.token)).foldl joinsAfter joined := by
  induction h with
  | start => rfl
  | gap _ _ ih => exact ih
  | token hhead _ ih =>
    rw [List.map_cons, List.foldl_cons, ← joins_of_head hhead]
    exact ih

/-- The number of strings at the end of the tokens. -/
def trailing (tokens : List LocatedToken) : Nat :=
  (tokens.reverse.takeWhile (·.kind = .string)).length

theorem trailing_append (tokens : List LocatedToken) (t : LocatedToken) :
    trailing (tokens ++ [t]) = if t.kind = .string then trailing tokens + 1 else 0 := by
  by_cases ht : t.kind = .string <;> simp [trailing, ht]

/-- Each string at the end turns the flag round. -/
theorem foldl_joinsAfter (tokens : List LocatedToken) :
    (tokens.map (·.token)).foldl joinsAfter false = decide (trailing tokens % 2 = 1) := by
  induction tokens using List.reverseRecOn with
  | nil => rfl
  | append_singleton tokens t ih =>
    rw [List.map_append, List.foldl_append, ih, trailing_append]
    by_cases ht : t.kind = .string
    · rw [if_pos ht]
      rcases Nat.mod_two_eq_zero_or_one (trailing tokens) with h | h <;>
        simp [joinsAfter, ht, h, Nat.add_mod]
    · simp [joinsAfter, ht]

/-- A string goes on at a quote if the strings before that are odd in number. -/
theorem Passed.joins_eq (h : Passed options ahead false position passed tokens joins) :
    joins = decide (trailing tokens % 2 = 1) :=
  h.joins_eq_foldl.trans (foldl_joinsAfter tokens)

/-! ## Quotes -/

/-- A quote that is closed is the same token, wherever it stands. -/
theorem string?_eq_continuation (h : byte '"' ∈ bs) :
    string? (byte '"' :: bs) = some (.ok (continuation bs)) := by
  obtain ⟨body, rest, rfl, hbody⟩ := List.eq_append_cons_of_mem h
  rw [string?_closed hbody, continuation_closed hbody]

theorem walk_open (h : byte '"' ∉ body) (position : Nat) :
    walk options true position 0 (byte '"' :: body) =
      .ok [⟨.ofText .string (Text.decode body), position, position + (body.length + 1)⟩] := by
  have hhead : head options true (byte '"') (body ++ []) =
      .token (.ofText .string (Text.decode body)) (body.length + 1) false := by
    rw [List.append_nil, (HeadIs.goesOn rfl rfl).eq, continuation_open h]
  have hwalk := walk_token hhead position
  rwa [List.append_nil, walk] at hwalk

theorem lexeme?_open (h : byte '"' ∉ body) : lexeme? (byte '"' :: body) = none := by
  rw [lexeme?, integer?_eq_none (by decide), word?_eq_none (by decide),
    string?_quote_eq_none_iff.2 h, coreVariable?_eq_none (by decide)]
  cases body <;> rfl

/-- A quote that nothing goes on at, and that is not closed, is illegal. -/
theorem walk_illegal (h : byte '"' ∉ body) (position : Nat) :
    walk .default false position 0 (byte '"' :: body) = .error ⟨.illegalByte (byte '"')
      (Text.decode ((byte '"' :: body).take contextLength)), position⟩ :=
  walk_fault (HeadIs.illegal (by simp) (gapLength_of_solid (by decide) _) (lexeme?_open h) rfl).eq _

end Scan

open Scan

variable {before body : List UInt8} {tokens : List LocatedToken} {joins : Bool}

/-- The quote behind `before` makes a string of all that comes after it, which goes on with the last
string of the stream. -/
structure GoesOn (before body : List UInt8) (tokens : List LocatedToken) : Prop where
  scanned : scan .default (before ++ byte '"' :: body) = .ok (tokens ++
    [⟨.ofText .string (Text.decode body), before.length, before.length + (body.length + 1)⟩])
  stream : ∃ front text start stop,
    settle tokens = front ++ [⟨.ofText .string text, start, stop⟩] ∧
    tokenStream .default (before ++ byte '"' :: body) = .ok (front ++
      [⟨.ofText .string (text ++ Text.decode body), start, before.length + (body.length + 1)⟩,
        .endAt (before.length + (body.length + 1))])

theorem goesOn_of_scanned (hbefore : scan .default before = .ok tokens)
    (hlast : ∃ t ∈ tokens.getLast?, t.kind = .string)
    (hscan : scan .default (before ++ byte '"' :: body) = .ok (tokens ++
      [⟨.ofText .string (Text.decode body), before.length, before.length + (body.length + 1)⟩])) :
    GoesOn before body tokens where
  scanned := hscan
  stream := by
    obtain ⟨t, ht, hkind⟩ := hlast
    have hlexeme := (scan_eq_ok_iff.1 hbefore).lexeme t (List.mem_of_getLast? ht)
    obtain ⟨left, hleft⟩ := hlexeme.scanned.eq_ofText hkind (by decide) (by decide)
    obtain ⟨front, text, start, hsettle, hjoined⟩ := settle_append_string ht hleft
      (Text.decode body) ⟨before.length, before.length + (body.length + 1)⟩
    refine ⟨front, text, start, _, hsettle, tokenStream_eq_ok_iff.2 ⟨_, hscan, ?_⟩⟩
    rw [hjoined, List.append_assoc, List.length_append, List.length_cons]
    rfl

/-- A quote right after a string, with no quote behind it, goes on with that string exactly if the
strings before it are odd in number; otherwise the scan fails there. A quote that is closed is the
same token whether it goes on with a string or not. -/
theorem goesOn_iff
    (hpassed : Passed .default (byte '"' :: body) false 0 before tokens joins)
    (hlast : ∃ t ∈ tokens.getLast?, t.kind = .string) (hbody : byte '"' ∉ body) :
    (GoesOn before body tokens ↔ trailing tokens % 2 = 1) ∧
    (trailing tokens % 2 = 0 → scan .default (before ++ byte '"' :: body) =
      .error ⟨.illegalByte (byte '"') (Text.decode ((byte '"' :: body).take contextLength)),
        before.length⟩) ∧
    ∀ bs, byte '"' ∈ bs → string? (byte '"' :: bs) = some (.ok (continuation bs)) := by
  have hscan : scan .default (before ++ byte '"' :: body) = _ := hpassed.walk_eq
  rw [hpassed.joins_eq, Nat.zero_add] at hscan
  have hfails (heven : trailing tokens % 2 = 0) : scan .default (before ++ byte '"' :: body) =
      .error ⟨.illegalByte (byte '"') (Text.decode ((byte '"' :: body).take contextLength)),
        before.length⟩ := by
    rw [hscan, heven]
    exact congrArg (Except.map (tokens ++ ·)) (walk_illegal hbody before.length)
  refine ⟨⟨fun h => ?_, fun hodd => ?_⟩, hfails, fun bs => string?_eq_continuation⟩
  · by_contra hodd
    have hclash := h.scanned.symm.trans (hfails (by omega))
    cases hclash
  · refine goesOn_of_scanned (hpassed.scan_eq (by decide)) hlast ?_
    rw [hscan, hodd]
    exact congrArg (Except.map (tokens ++ ·)) (walk_open hbody before.length)

/-- One string, a comment, and a quote that is not closed. -/
theorem goesOn_comment :
    let string : LocatedToken := ⟨.ofText .string "a", 0, 3⟩
    GoesOn [34, 97, 34, 47, 42, 42, 47] [98, 99] [string] ∧
      tokenStream .default [34, 97, 34, 47, 42, 42, 47, 34, 98, 99] =
        .ok [⟨.ofText .string "abc", 0, 10⟩, .endAt 10] := by
  intro string
  have hpassed : Passed .default [34, 98, 99] false 0
      (34 :: ([97, 34] ++ 47 :: ([42, 42, 47] ++ []))) [string] true :=
    .token rfl (.gap rfl .start)
  refine ⟨(goesOn_iff hpassed ⟨string, rfl, rfl⟩ (by decide)).1.2 (by decide +kernel), ?_⟩
  decide +kernel

/-- Two strings, the second of which goes on with the first: a quote right after them does not go
on with either. -/
theorem goesOn_two_strings :
    let before : List UInt8 := [34, 97, 34, 34, 98, 34]
    let tokens : List LocatedToken := [⟨.ofText .string "a", 0, 3⟩, ⟨.ofText .string "b", 3, 6⟩]
    Passed .default [34, 99] false 0 before tokens false ∧
      (∃ t ∈ tokens.getLast?, t.kind = .string) ∧ byte '"' ∉ ([99] : List UInt8) ∧
      scan .default (before ++ [34, 99]) = .error ⟨.illegalByte 34 "\"c", 6⟩ ∧
      ¬GoesOn before [99] tokens := by
  intro before tokens
  have hpassed : Passed .default [34, 99] false 0
      (34 :: ([97, 34] ++ 34 :: ([98, 34] ++ []))) tokens false :=
    .token rfl (.token rfl .start)
  have hscan : scan .default (before ++ [34, 99]) = .error ⟨.illegalByte 34 "\"c", 6⟩ := by
    decide +kernel
  refine ⟨hpassed, ⟨_, rfl, rfl⟩, by decide, hscan, fun h => ?_⟩
  have hclash := h.scanned.symm.trans hscan
  cases hclash

end RouteScript
