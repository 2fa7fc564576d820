import RouteScript.Proofs.Grammar.Cut
import RouteScript.Proofs.Parsed
/-!
# What the budget of mistakes decides

A parse that stops after fewer mistakes is the beginning of one that stops after more: it tells of
the first of the same mistakes, and up to the end of input a walk shows the same. With budget left
over the trees are equal.
-/
namespace RouteScript

open Grammar

variable {options options' : ParseOptions} {tokens : List LocatedToken} {limit : Nat}

/-! ## What is shown of a parsed tree -/

theorem walk_parseTokens (options : ParseOptions) (tokens : List LocatedToken) :
    (parseTokens options tokens).walk =
      ((readTokens options tokens).1.trace 0).map (·.visit) := by
  obtain ⟨root, hsound, hroot, hlt, hitem, -⟩ := parseTokens_spec options tokens
  rw [Tree.walk_eq hsound hroot hlt (onTop_parseTokens options tokens hroot).zero, hitem]

theorem reports_parseTokens (options : ParseOptions) (tokens : List LocatedToken) :
    (parseTokens options tokens).reports =
      ((readTokens options tokens).1.trace 0).filterMap Mark.report? := by
  obtain ⟨root, hsound, hroot, hlt, hitem, -⟩ := parseTokens_spec options tokens
  rw [Tree.reports_eq hsound hroot hlt (onTop_parseTokens options tokens hroot).zero, hitem]

theorem mistakes_readTokens (options : ParseOptions) (tokens : List LocatedToken) :
    (readTokens options tokens).2.mistakes = (readTokens options tokens).1.mistakes :=
  (Reading.mistakes_script (closed_ofTokens options tokens) (.ofTokens tokens)).trans
    (Nat.zero_add _)

/-- A parse tells of each mistake that it has kept. -/
theorem length_reports_parseTokens (options : ParseOptions) (tokens : List LocatedToken) :
    (parseTokens options tokens).reports.length = (readTokens options tokens).2.mistakes := by
  obtain ⟨root, hsound, -⟩ := parseTokens_spec options tokens
  rw [mistakes_readTokens, Item.mistakes, ← map_item_reachable, List.countP_map, Tree.reports,
    List.length_map, Tree.errors, ← List.countP_eq_length_filter]
  generalize parseTokens options tokens = t at hsound
  refine List.countP_congr fun id _ => ?_
  simp only [Node.isError, Function.comp, Tree.label_item hsound]
  rfl

/-! ## Trees that are equal -/

/-- Options that answer alike up to more mistakes than a parse keeps give the same tree. -/
theorem parseTokens_congr
    (h : (Context.ofTokens options tokens).Alike limit (.ofTokens options' tokens))
    (hlt : (parseTokens options' tokens).reports.length < limit) :
    parseTokens options tokens = parseTokens options' tokens := by
  obtain ⟨_, -, -, -, -, hst⟩ := parseTokens_spec options' tokens
  have hmistakes := congrArg Stand.mistakes hst
  rw [length_reports_parseTokens, ← hmistakes] at hlt
  rw [parseTokens, parseTokens, steady_script.same h hlt]

theorem goesOn_eq_true {m n : Nat} : goesOn ⟨true, m⟩ n = true ↔ n < m := by
  simp [goesOn]

/-- Even a parse without any budget keeps the mistake that it stops at. -/
theorem stricter_ofTokens {m m' : Nat} (h : m ≤ m') (tokens : List LocatedToken) :
    (Context.ofTokens ⟨true, m⟩ tokens).Stricter (max 1 m) (.ofTokens ⟨true, m'⟩ tokens) where
  closing := rfl
  stops n hn := goesOn_eq_true.trans (by omega)
  goesOn n hn hlt := goesOn_eq_true.2 (by omega)

/-- A parse that does not recover stops at the first mistake, whatever its budget. -/
theorem parseTokens_of_not_recover (n : Nat) (tokens : List LocatedToken) :
    parseTokens ⟨false, n⟩ tokens = parseTokens ⟨true, 1⟩ tokens := by
  refine parseTokens_congr ⟨rfl, fun k hk _ => ?_⟩ (Nat.lt_succ_self _)
  have hone : goesOn ⟨true, 1⟩ k = false :=
    Bool.eq_false_iff.2 fun hgo => Nat.not_lt.2 hk (goesOn_eq_true.1 hgo)
  exact hone.symm

/-! ## The shorter parse and the longer one -/

/-- What is shown of a file with these items before its end. -/
def fileMarks (xs : List Item) : List Mark := ⟨⟨.root, 0, none, none⟩, none⟩ :: Item.traceAll 1 xs

theorem trace_file (closing : LocatedToken) (xs : List Item) :
    (Reading.file closing xs).trace 0 = fileMarks xs ++ [⟨⟨.endOfInput, 1, none, none⟩, none⟩] := by
  rw [Reading.file, Item.covered, Item.trace_bundle, Item.traceAll_append]
  rfl

theorem fileMarks_prefix {xs ys : List Item} (h : Item.Begins xs ys) :
    fileMarks xs <+: fileMarks ys :=
  List.cons_prefix_cons.2 ⟨rfl, h 1⟩

/-- The end of input is no mistake. -/
theorem reports_file (closing : LocatedToken) (xs : List Item) :
    ((Reading.file closing xs).trace 0).filterMap Mark.report? =
      (fileMarks xs).filterMap Mark.report? := by
  rw [trace_file, List.filterMap_append]
  exact List.append_nil _

theorem cut_readTokens {m m' : Nat} (h : m ≤ m') (tokens : List LocatedToken) :
    ∃ xs ys, (readTokens ⟨true, m⟩ tokens).1 = Reading.file (splitClosing tokens).2 xs ∧
      (readTokens ⟨true, m'⟩ tokens).1 = Reading.file (splitClosing tokens).2 ys ∧
      Item.Begins xs ys ∧ ((readTokens ⟨true, m⟩ tokens).2.mistakes = max 1 m ∨
        (readTokens ⟨true, m⟩ tokens).2.mistakes < max 1 m ∧ xs = ys) :=
  Reading.cut_script (stricter_ofTokens h tokens) (closed_ofTokens _ tokens)
    ⟨rfl, Nat.lt_of_lt_of_le Nat.one_pos (Nat.le_max_left ..)⟩

/-- The budget only truncates: with less of it a parse tells of the first mistakes only, of one at
least, and its walk up to the end of input is the beginning of the longer one. Where the longer
parse has budget left of the smaller one, the trees are equal. Not to recover is to have a budget of
one. -/
theorem parse_budget_truncates (tokens : List LocatedToken) {m m' : Nat} (h : m ≤ m') :
    (parseTokens ⟨true, m⟩ tokens).reports =
        (parseTokens ⟨true, m'⟩ tokens).reports.take (max 1 m) ∧
      (∃ seen, (parseTokens ⟨true, m⟩ tokens).walk = seen ++ [⟨.endOfInput, 1, none, none⟩] ∧
        seen <+: (parseTokens ⟨true, m'⟩ tokens).walk) ∧
      ((parseTokens ⟨true, m'⟩ tokens).reports.length < max 1 m →
        parseTokens ⟨true, m⟩ tokens = parseTokens ⟨true, m'⟩ tokens) ∧
      ∀ n, parseTokens ⟨false, n⟩ tokens = parseTokens ⟨true, 1⟩ tokens := by
  obtain ⟨xs, ys, hxs, hys, hbegins, hcount⟩ := cut_readTokens h tokens
  have hseen := fileMarks_prefix hbegins
  refine ⟨?_, ⟨(fileMarks xs).map (·.visit), ?_, ?_⟩,
    fun hlt => parseTokens_congr (stricter_ofTokens h tokens).alike hlt,
    fun n => parseTokens_of_not_recover n tokens⟩
  · have hreports : (parseTokens ⟨true, m⟩ tokens).reports <+:
        (parseTokens ⟨true, m'⟩ tokens).reports := by
      rw [reports_parseTokens, reports_parseTokens, hxs, hys, reports_file, reports_file]
      exact hseen.filterMap _
    rw [← length_reports_parseTokens] at hcount
    rcases hcount with hspent | ⟨hlt, rfl⟩
    · rw [← hspent]
      exact List.prefix_iff_eq_take.1 hreports
    · have hsame : (parseTokens ⟨true, m⟩ tokens).reports =
          (parseTokens ⟨true, m'⟩ tokens).reports := by
        rw [reports_parseTokens, reports_parseTokens, hxs, hys]
      rw [← hsame, List.take_of_length_le (Nat.le_of_lt hlt)]
  · rw [walk_parseTokens, hxs, trace_file, List.map_append]
    rfl
  · rw [walk_parseTokens, hys, trace_file]
    exact (hseen.trans (List.prefix_append ..)).map _

/-- Three semicolons, none of which may stand at the top level. -/
def strayTokens : List LocatedToken :=
  [⟨.ofText .semicolon ";", 0, 1⟩, ⟨.ofText .semicolon ";", 1, 2⟩, ⟨.ofText .semicolon ";", 2, 3⟩,
   .endAt 3]

theorem parse_budget_truncates_stray : 2 ≤ 64 ∧
    (parseTokens ⟨true, 64⟩ strayTokens).reports.length = 3 ∧
    (parseTokens ⟨true, 2⟩ strayTokens).reports =
      (parseTokens ⟨true, 64⟩ strayTokens).reports.take 2 := by
  refine ⟨by decide, by decide +kernel, ?_⟩
  exact (parse_budget_truncates strayTokens (show 2 ≤ 64 by decide)).1

end RouteScript
