import RouteScript.Parse
import RouteScript.Proofs.Grammar.Level
import RouteScript.Proofs.Tree.Alike
/-!
# What a parse does not see

A parse sees the tokens of its stream up to the first end of input, and of these tokens their kinds
and literals only. Streams that agree on that have the same tree but for its ranges, which are the
only thing in a tree that tells where it was read.
-/
namespace RouteScript

open Grammar

variable {ts us : List LocatedToken} {e : LocatedToken}

/-! ## Streams that read the same -/

/-- Nothing behind an end of input is read. -/
theorem readable_append_end (he : e.isEnd = true) (ts us : List LocatedToken) :
    readable (ts ++ e :: us) = readable ts := by
  induction ts with
  | nil => simp [readable, he]
  | cons t ts ih =>
    rw [List.cons_append]
    cases hend : t.isEnd with
    | true => simp [readable, hend]
    | false => rw [readable_cons hend, readable_cons hend, ih]

/-- The token that closes a stream is not read. -/
theorem readable_splitClosing (tokens : List LocatedToken) :
    readable (splitClosing tokens).1 = readable tokens := by
  rcases List.eq_nil_or_concat tokens with rfl | ⟨ts, t, rfl⟩
  · rfl
  · rw [splitClosing, List.concat_eq_append, List.getLast?_concat]
    simp only [List.dropLast_concat]
    split
    · rename_i hend
      exact (readable_append_end hend ts []).symm
    · rfl

theorem map_token_readable (tokens : List LocatedToken) :
    (readable tokens).map (·.token) = (tokens.map (·.token)).takeWhile fun t => !t.isEnd := by
  rw [readable, List.takeWhile_map]
  rfl

/-! ## The tree they have in common -/

theorem parseTokens_eq (options : ParseOptions) (tokens : List LocatedToken) :
    parseTokens options tokens =
      (script (.ofTokens options tokens) (.ofTokens tokens)).2.tree.setRoot
        (script (.ofTokens options tokens) (.ofTokens tokens)).1 := rfl

/-- Streams that read the same have the same tree but for its ranges. -/
theorem clearRanges_parseTokens (options : ParseOptions)
    (h : (readable ts).map (·.token) = (readable us).map (·.token)) :
    (parseTokens options ts).clearRanges = (parseTokens options us).clearRanges := by
  have hc : (Context.ofTokens options ts).Level (.ofTokens options us) :=
    ⟨rfl, closed_ofTokens options ts, closed_ofTokens options us⟩
  rw [← readable_splitClosing ts, ← readable_splitClosing us] at h
  have hs : InStep ⟨_, _, [], ended_beyond _, ended_beyond _⟩ (State.ofTokens ts) (.ofTokens us) :=
    ⟨parallel_of_readable h, rfl, rfl, rfl, rfl, List.nil_prefix⟩
  obtain ⟨hroot, hlast⟩ := inStep_script hc hs
  rw [parseTokens_eq, parseTokens_eq, Tree.clearRanges_setRoot, Tree.clearRanges_setRoot, hroot,
    hlast.tree]

/-- Ranges have no part in what a tree is: streams with the same tokens at any ranges have the same
tree once its ranges are dropped. The tree of tokens that come from nowhere is that tree, and it is
alike all of them. -/
theorem structure_regardless_of_ranges (options : ParseOptions)
    (h : ts.map (·.token) = us.map (·.token)) :
    (parseTokens options ts).clearRanges = (parseTokens options us).clearRanges ∧
      parseUnlocated (ts.map (·.token)) = (parseTokens .default us).clearRanges ∧
      (parseUnlocated (ts.map (·.token))).alike (parseTokens .default us) = true ∧
      (parseTokens .default us).alike (parseUnlocated (ts.map (·.token))) = true := by
  have hsame : ∀ {xs ys : List LocatedToken} (o : ParseOptions),
      xs.map (·.token) = ys.map (·.token) →
        (parseTokens o xs).clearRanges = (parseTokens o ys).clearRanges := fun o hxy =>
    clearRanges_parseTokens o (by rw [map_token_readable, map_token_readable, hxy])
  have hnowhere : parseUnlocated (ts.map (·.token)) = (parseTokens .default us).clearRanges := by
    rw [parseUnlocated]
    refine hsame .default ?_
    rw [List.map_map, ← h]
    simp [Function.comp_def]
  refine ⟨hsame options h, hnowhere, ?_, ?_⟩
  · rw [hnowhere, Tree.clearRanges_alike, Tree.alike_self]
  · rw [hnowhere, Tree.alike_clearRanges, Tree.alike_self]

/-- A route without a name whose block breaks off, where it was read. -/
def brokenOff : List LocatedToken :=
  [⟨.ofText .route "route", 0, 5⟩, ⟨.ofText .leftBrace "\x7b", 5, 6⟩,
   ⟨.ofText .identifier "a", 6, 7⟩, ⟨.ofText .assign "=", 7, 8⟩, .endAt 8]

/-- The tokens of `brokenOff` at ranges that run backwards or lie anywhere. -/
def brokenOffAstray : List LocatedToken :=
  [⟨.ofText .route "route", 9, 2⟩, ⟨.ofText .leftBrace "\x7b", 40, 50⟩,
   ⟨.ofText .identifier "a", 3, 3⟩, ⟨.ofText .assign "=", 1, 0⟩, .endAt 7]

theorem structure_regardless_of_ranges_brokenOff :
    brokenOff.map (·.token) = brokenOffAstray.map (·.token) ∧
    parseTokens .default brokenOff ≠ parseTokens .default brokenOffAstray ∧
    (parseTokens .default brokenOff).clearRanges =
      (parseTokens .default brokenOffAstray).clearRanges := by
  have h : brokenOff.map (·.token) = brokenOffAstray.map (·.token) := by decide
  exact ⟨h, by decide +kernel, (structure_regardless_of_ranges .default h).1⟩

/-! ## The first end of input -/

variable {α : Type}

/-- The step moves no cursor past an end of input: from the first one on, all that was ahead still
is. -/
def KeepsEnd (p : Parse α) : Prop := ∀ (c : Context) (s : State), c.Closed →
  beyond (p c s).2.pending = beyond s.pending

theorem keepsEnd_of_level {p : Parse α} (hp : ∀ a, Level a p p) : KeepsEnd p :=
  fun _ s hc => beyond_run hp hc s

theorem keepsEnd_readToken : KeepsEnd readToken := fun _ s hc =>
  beyond_run (fun _ => related_readToken) hc s

/-- A token is taken by reading it, so an end of input is not left behind even if it is asked
for. -/
theorem keepsEnd_takeIf? (kind : TokenKind) : KeepsEnd (takeIf? kind) := by
  intro c s hc
  have hread := keepsEnd_readToken c s hc
  rw [readToken_run] at hread
  rw [takeIf?_run]
  split
  · exact hread
  · rfl

/-- The first end of input ends a file. What comes behind it has no part in the tree, and apart from
ranges neither has it itself. No rule and no loop moves the cursor past it, nor does any of the
steps by which they move it forward; only when all of them are over the parse skips what is left. -/
theorem first_end_is_barrier (options : ParseOptions) (ts us : List LocatedToken)
    (he : e.isEnd = true) :
    (parseTokens options (ts ++ e :: us)).clearRanges =
        (parseTokens options (ts ++ [e])).clearRanges ∧
      (parseTokens options (ts ++ e :: us)).clearRanges = (parseTokens options ts).clearRanges ∧
      (∀ name : RuleName, KeepsEnd name.rule) ∧
      (∀ node, KeepsEnd (whileAdvancing (blockRound node))) ∧
      (∀ root, KeepsEnd (whileAdvancing (scriptRound root))) ∧
      KeepsEnd readToken ∧ (∀ kind, KeepsEnd (takeIf? kind)) ∧
      (∀ inBlock, KeepsEnd (restart inBlock)) ∧ KeepsEnd skipName := by
  refine ⟨?_, ?_, ?_, ?_, ?_, keepsEnd_readToken, keepsEnd_takeIf?, ?_, ?_⟩
  · refine clearRanges_parseTokens options ?_
    rw [readable_append_end he, readable_append_end he]
  · refine clearRanges_parseTokens options ?_
    rw [readable_append_end he]
  · exact fun name => keepsEnd_of_level fun _ => level_rule name
  · exact fun node => keepsEnd_of_level fun _ => (level_blockRound node).whileAdvancing
  · exact fun root => keepsEnd_of_level fun _ => (level_scriptRound root).whileAdvancing
  · exact fun inBlock => keepsEnd_of_level fun _ => level_restart inBlock
  · exact keepsEnd_of_level fun _ => level_skipName

/-- A brace and a core variable, which may not stand at the top level. -/
def leftOver : List LocatedToken :=
  [⟨.ofText .rightBrace "\x7d", 8, 9⟩, ⟨⟨.coreVariable, .coreVariable "ru" ""⟩, 9, 12⟩, .endAt 12]

theorem first_end_is_barrier_brokenOff : (LocatedToken.endAt 8).isEnd = true ∧
    (parseTokens .default (brokenOff ++ leftOver)).clearRanges =
      (parseTokens .default (brokenOff.dropLast)).clearRanges ∧
    (parseTokens .default (brokenOff.dropLast ++ leftOver)).clearRanges ≠
      (parseTokens .default (brokenOff.dropLast)).clearRanges := by
  have hend : (LocatedToken.endAt 8).isEnd = true := by decide
  exact ⟨hend, (first_end_is_barrier .default brokenOff.dropLast leftOver hend).2.1,
    by decide +kernel⟩

end RouteScript
