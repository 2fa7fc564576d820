import RouteScript.Proofs.Grammar.Complete
import RouteScript.Proofs.Parsed
/-!
# The language that is parsed

A source is parsed without a mistake exactly if its tokens are a sentence of the grammar, and then
the tree is the tree of the derivation.
-/
namespace RouteScript

open Grammar

namespace Grammar

variable {options : ParseOptions} {body : List LocatedToken} {offset : Nat} {x : Item}

theorem derives_readTokens (hbody : ∀ t ∈ body, t.token.Scanned)
    (hclean : (readTokens options (body ++ [.endAt offset])).1.Clean) :
    ∃ x, Derives.Script ((body ++ [LocatedToken.endAt offset]).map (·.token)) x := by
  obtain ⟨xs, hxs⟩ := Reading.derives_script (closed_ofTokens options _)
    (by rw [Stand.Scanned, pending_ofTokens]; exact hbody) rfl hclean
  rw [pending_ofTokens] at hxs
  rw [List.map_append]
  exact ⟨_, .intro hxs⟩

theorem derived_readTokens (hbody : ∀ t ∈ body, t.token.Scanned)
    (h : Derives.Script ((body ++ [LocatedToken.endAt offset]).map (·.token)) x) :
    (readTokens options (body ++ [.endAt offset])).1.unranged = x := by
  generalize htokens : (body ++ [LocatedToken.endAt offset]).map (·.token) = tokens at h
  obtain ⟨hxs⟩ := h
  rw [List.map_append] at htokens
  have hts := (List.append_inj' htokens rfl).1
  subst hts
  refine Reading.derived_script (closed_ofTokens options _) ?_ rfl ?_
  · rw [Stand.Scanned, pending_ofTokens]
    exact hbody
  · rw [pending_ofTokens]
    exact hxs

end Grammar

/-- Parsing the tokens of a source meets no mistake exactly if they derive from the grammar, and
then the tree, its ranges left out, is that of the derivation. -/
theorem parse_iff_derives {scanOptions : ScanOptions} {source : List UInt8}
    {tokens : List LocatedToken} (options : ParseOptions)
    (h : tokenStream scanOptions source = .ok tokens) :
    ((parseTokens options tokens).hasErrors = false ↔
      ∃ x, Derives.Script (tokens.map (·.token)) x) ∧
    ∀ x, Derives.Script (tokens.map (·.token)) x →
      (parseTokens options tokens).clearRanges.rootItem? = some x := by
  obtain ⟨body, rfl, hbody⟩ := tokenStream_eq_ok h
  refine ⟨?_, fun x hx => ?_⟩
  · rw [hasErrors_eq_false]
    refine ⟨derives_readTokens hbody, fun ⟨x, hx⟩ => Item.clean_unranged.1 ?_⟩
    rw [derived_readTokens hbody hx]
    exact hx.clean
  · rw [Tree.rootItem?_clearRanges, rootItem?_parseTokens, Option.map_some,
      derived_readTokens hbody hx]

/-- The source `route[1]{a=2;}b=3`, byte by byte. -/
def sampleSource : List UInt8 :=
  [114, 111, 117, 116, 101, 91, 49, 93, 123, 97, 61, 50, 59, 125, 98, 61, 51]

/-- Its tokens: a named route with one statement, and an assignment without a semicolon. -/
def sampleTokens : List LocatedToken :=
  [⟨.ofText .route "route", 0, 5⟩, ⟨.ofText .leftBracket "[", 5, 6⟩,
   ⟨⟨.integer, .integer 1⟩, 6, 7⟩, ⟨.ofText .rightBracket "]", 7, 8⟩,
   ⟨.ofText .leftBrace "\x7b", 8, 9⟩, ⟨.ofText .identifier "a", 9, 10⟩,
   ⟨.ofText .assign "=", 10, 11⟩, ⟨⟨.integer, .integer 2⟩, 11, 12⟩,
   ⟨.ofText .semicolon ";", 12, 13⟩, ⟨.ofText .rightBrace "\x7d", 13, 14⟩,
   ⟨.ofText .identifier "b", 14, 15⟩, ⟨.ofText .assign "=", 15, 16⟩,
   ⟨⟨.integer, .integer 3⟩, 16, 17⟩, .endAt 17]

theorem parse_iff_derives_sample :
    tokenStream .default sampleSource = .ok sampleTokens ∧
    (parseTokens .strict sampleTokens).hasErrors = false ∧
    ∃ x, x.label.kind = .root ∧
      (parseTokens .strict sampleTokens).clearRanges.rootItem? = some x := by
  have h : tokenStream .default sampleSource = .ok sampleTokens := by decide +kernel
  have hfirst : Derives.Assignment
      [.ofText .identifier "a", .ofText .assign "=", ⟨.integer, .integer 2⟩] _ :=
    .intro .identifier rfl .number
  have hname : Derives.Name
      [.ofText .leftBracket "[", ⟨.integer, .integer 1⟩, .ofText .rightBracket "]"] _ :=
    .intro rfl .number rfl
  have hstatements : Derives.Statements (_ ++ .ofText .semicolon ";" :: _) _ :=
    .cons hfirst rfl .nil
  have hblock : Derives.Block
      (.ofText .leftBrace "\x7b" :: (_ ++ [.ofText .rightBrace "\x7d"])) _ :=
    .intro rfl hstatements rfl
  have hroute : Derives.Route (.ofText .route "route" :: (_ ++ _)) _ := .named rfl hname hblock
  have hsecond : Derives.Assignment
      [.ofText .identifier "b", .ofText .assign "=", ⟨.integer, .integer 3⟩] _ :=
    .intro .identifier rfl .number
  have hscript : Derives.Script (sampleTokens.map (·.token)) _ :=
    .intro (.cons (.route hroute) (.cons (.assignment hsecond) .nil))
  have key := parse_iff_derives .strict h
  exact ⟨h, key.1.2 ⟨_, hscript⟩, _, rfl, key.2 _ hscript⟩

end RouteScript
