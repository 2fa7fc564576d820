import RouteScript.Diagnostic
import RouteScript.Proofs.Grammar.Rising
import RouteScript.Proofs.Positions
import RouteScript.Proofs.Ranges
/-!
# The order of what is told

The mistakes of a tree are listed as a walk meets them. That is the order in which they begin in the
source, unless a parse goes back into a name that it has skipped: a route whose name holds a place
to go on fails behind its brackets, and the mistakes that are met between them are told after it.
-/
namespace RouteScript

open Grammar

namespace Tree

variable {t : Tree} {source : List UInt8}

/-- Every mistake has a range, and the mistakes are listed in the order in which they begin. -/
def ListsInOrder (t : Tree) : Prop :=
  ∃ ranges : List ByteRange, (t.errors.map fun id => (t.node id).range) = ranges.map some ∧
    (ranges.map (·.start)).Pairwise (· ≤ ·)

/-- Every diagnostic has a place, and none of them begins before an earlier one, by line and
column. -/
def TellsInOrder (t : Tree) (source : List UInt8) : Prop :=
  ∃ spans : List Span, (t.diagnostics source).map (·.span) = spans.map some ∧
    spans.Pairwise fun earlier later => later.start.before earlier.start = false

theorem span_diagnostics (t : Tree) (source : List UInt8) :
    (t.diagnostics source).map (·.span) =
      (t.errors.map fun id => (t.node id).range).map (·.map (LineTable.ofSource source).span) := by
  rw [diagnostics, List.map_map, List.map_map]
  rfl

/-- Diagnostics come in the order of the mistakes that they tell of. -/
theorem ListsInOrder.tellsInOrder (h : t.ListsInOrder) (source : List UInt8) :
    t.TellsInOrder source := by
  obtain ⟨ranges, hranges, hsorted⟩ := h
  refine ⟨ranges.map (LineTable.ofSource source).span, ?_, ?_⟩
  · rw [span_diagnostics, hranges, List.map_map, List.map_map]
    rfl
  · refine List.pairwise_map.2 ((List.pairwise_map.1 hsorted).imp fun hle => ?_)
    exact LineTable.position_mono source hle

/-- Mistakes that begin in the source are told in order only if they are listed in order. -/
theorem TellsInOrder.listsInOrder (h : t.TellsInOrder source)
    (hin : ∀ id ∈ t.errors, ∃ r, (t.node id).range = some r ∧ r.start ≤ source.length) :
    t.ListsInOrder := by
  obtain ⟨spans, hspans, hsorted⟩ := h
  rw [span_diagnostics] at hspans
  have hin : ∀ range ∈ t.errors.map fun id => (t.node id).range, ∃ r, range = some r ∧
      r.start ≤ source.length := List.forall_mem_map.2 hin
  rw [ListsInOrder]
  generalize (t.errors.map fun id => (t.node id).range) = listed at hspans hin ⊢
  obtain ⟨ranges, rfl⟩ : ∃ ranges : List ByteRange, listed = ranges.map some := by
    refine ⟨listed.filterMap id, ?_⟩
    rw [List.map_filterMap_some_eq_filter_map_isSome, List.map_id, List.filter_eq_self.2]
    intro range hrange
    obtain ⟨r, rfl, -⟩ := hin range hrange
    rfl
  obtain rfl : ranges.map (LineTable.ofSource source).span = spans := by
    refine (List.map_inj_right fun _ _ => Option.some.inj).1 ?_
    rw [← hspans, List.map_map, List.map_map]
    rfl
  refine ⟨ranges, rfl, List.pairwise_map.2 ?_⟩
  refine (List.pairwise_map.1 hsorted).imp_of_mem fun {earlier later} hmem _ hafter => ?_
  obtain ⟨_, heq, hle⟩ := hin _ (List.mem_map_of_mem hmem)
  cases heq
  refine Nat.not_lt.1 fun hlt => ?_
  exact absurd ((LineTable.before_position_of_lt hlt hle).symm.trans hafter) (by decide)

end Tree

variable {settings : Settings} {source : List UInt8} {tokens : List LocatedToken} {t : Tree}

/-- The mistakes that a parsed tree lists are those in the item that is read. -/
theorem range_errors (options : ParseOptions) (tokens : List LocatedToken) :
    ((parseTokens options tokens).errors.map fun id => ((parseTokens options tokens).node id).range)
      = (readTokens options tokens).1.faultRanges := by
  obtain ⟨root, hsound, -⟩ := parseTokens_spec options tokens
  rw [Item.faultRanges, ← map_item_reachable]
  generalize parseTokens options tokens = t at hsound
  rw [List.filter_map, List.map_map, Tree.errors]
  simp only [Node.isError, Function.comp_def, Tree.label_item hsound]
  rfl

/-- The mistakes of a source are listed in its order exactly if the parse nowhere goes back. -/
theorem listsInOrder_iff (htokens : tokenStream settings.scan source = .ok tokens) :
    (parseTokens settings.parse tokens).ListsInOrder ↔
      keepsPlaces settings.parse tokens = true := by
  rw [Tree.ListsInOrder, range_errors, keepsPlaces, List.all_eq_true]
  simp only [Bool.not_eq_true']
  exact Reading.script_rises_iff (closed_ofTokens settings.parse tokens)
    (ahead_of_tokenStream htokens settings.parse)

/-- Every mistake of a source begins in it. -/
theorem range_error_of_parse (h : parse settings source = .ok t) :
    ∀ id ∈ t.errors, ∃ r, (t.node id).range = some r ∧ r.start ≤ source.length := by
  obtain ⟨root, hs, hroot, hlt, hlies⟩ := exists_root_of_parse h
  intro id hid
  have hwithin := (Tree.mem_reachable hs hroot hlt).1 (List.mem_of_mem_filter hid)
  obtain ⟨r, hrange, hin, -⟩ := Tree.range_of_within hs hlies hwithin
  exact ⟨r, hrange, hin.valid.trans hin.le_stop⟩

/-- What is told of a source comes in its order, by offsets and by lines and columns, exactly if the
parse nowhere goes back. It does not if no name of a route holds a place to go on. -/
theorem errors_in_order_iff (h : parse settings source = .ok t)
    (htokens : tokenStream settings.scan source = .ok tokens) :
    (t.ListsInOrder ↔ keepsPlaces settings.parse tokens = true) ∧
    (t.TellsInOrder source ↔ keepsPlaces settings.parse tokens = true) ∧
    ((∀ p, p <:+ (splitClosing tokens).1 → losesPlace p = false) →
      keepsPlaces settings.parse tokens = true) := by
  have hrange := range_error_of_parse h
  obtain ⟨_, htokens', rfl⟩ := parse_eq_ok_iff.1 h
  obtain rfl := Except.ok.inj (htokens.symm.trans htokens')
  have hlists := listsInOrder_iff htokens
  refine ⟨hlists, Iff.trans ⟨fun h => h.listsInOrder hrange, (·.tellsInOrder source)⟩ hlists,
    fun hnames => ?_⟩
  refine List.all_eq_true.2 fun u hu => ?_
  rw [Reading.goesBack_eq_false_of_names (closed_ofTokens settings.parse tokens) hnames hu]
  rfl

/-- The bytes of `route[a;route[b]=;route`, a brace and `c`: a name that holds a place to go on,
with a route in it that fails behind the same brackets, and a block with a statement that breaks
off. -/
def faulty : List UInt8 :=
  [114, 111, 117, 116, 101, 91, 97, 59, 114, 111, 117, 116, 101, 91, 98, 93, 61, 59, 114, 111, 117,
   116, 101, 123, 99]

/-- The tokens of `faulty`. -/
def faultyTokens : List LocatedToken :=
  [⟨.ofText .route "route", 0, 5⟩, ⟨.ofText .leftBracket "[", 5, 6⟩,
   ⟨.ofText .identifier "a", 6, 7⟩, ⟨.ofText .semicolon ";", 7, 8⟩,
   ⟨.ofText .route "route", 8, 13⟩, ⟨.ofText .leftBracket "[", 13, 14⟩,
   ⟨.ofText .identifier "b", 14, 15⟩, ⟨.ofText .rightBracket "]", 15, 16⟩,
   ⟨.ofText .assign "=", 16, 17⟩, ⟨.ofText .semicolon ";", 17, 18⟩,
   ⟨.ofText .route "route", 18, 23⟩, ⟨.ofText .leftBrace "\x7b", 23, 24⟩,
   ⟨.ofText .identifier "c", 24, 25⟩, .endAt 25]

theorem errors_in_order_iff_faulty :
    parse .default faulty = .ok (parseTokens .default faultyTokens) ∧
    tokenStream .default faulty = .ok faultyTokens ∧
    losesPlace faultyTokens = true ∧ keepsPlaces .default faultyTokens = true ∧
    (parseTokens .default faultyTokens).errors.length = 5 ∧
    (parseTokens .default faultyTokens).ListsInOrder ∧
    (parseTokens .default faultyTokens).TellsInOrder faulty := by
  have htokens : tokenStream .default faulty = .ok faultyTokens := by decide +kernel
  have hparse : parse .default faulty = .ok (parseTokens .default faultyTokens) :=
    parse_eq_ok_iff.2 ⟨faultyTokens, htokens, rfl⟩
  obtain ⟨hlists, htells, -⟩ := errors_in_order_iff hparse htokens
  have hkeeps : keepsPlaces .default faultyTokens = true := by decide +kernel
  exact ⟨hparse, htokens, by decide +kernel, hkeeps, by decide +kernel, hlists.2 hkeeps,
    htells.2 hkeeps⟩

/-- The bytes of `route[a;b]x`: the name breaks off at a semicolon, and no block comes after it. -/
def jumbled : List UInt8 := [114, 111, 117, 116, 101, 91, 97, 59, 98, 93, 120]

/-- The tokens of `jumbled`. -/
def jumbledTokens : List LocatedToken :=
  [⟨.ofText .route "route", 0, 5⟩, ⟨.ofText .leftBracket "[", 5, 6⟩,
   ⟨.ofText .identifier "a", 6, 7⟩, ⟨.ofText .semicolon ";", 7, 8⟩,
   ⟨.ofText .identifier "b", 8, 9⟩, ⟨.ofText .rightBracket "]", 9, 10⟩,
   ⟨.ofText .identifier "x", 10, 11⟩, .endAt 11]

/-- The missing brace behind the brackets is told before the mistake inside them. -/
theorem jumbled_out_of_order :
    parse .default jumbled = .ok (parseTokens .default jumbledTokens) ∧
    keepsPlaces .default jumbledTokens = false ∧
    ¬(parseTokens .default jumbledTokens).ListsInOrder ∧
    ¬(parseTokens .default jumbledTokens).TellsInOrder jumbled := by
  have htokens : tokenStream .default jumbled = .ok jumbledTokens := by decide +kernel
  have hranges : ((parseTokens .default jumbledTokens).errors.map fun id =>
      ((parseTokens .default jumbledTokens).node id).range) =
        [⟨10, 11⟩, ⟨9, 10⟩].map some := by decide +kernel
  have hspans : ((parseTokens .default jumbledTokens).diagnostics jumbled).map (·.span) =
      [⟨⟨0, 10⟩, ⟨0, 11⟩⟩, ⟨⟨0, 9⟩, ⟨0, 10⟩⟩].map some := by decide +kernel
  refine ⟨parse_eq_ok_iff.2 ⟨jumbledTokens, htokens, rfl⟩, by decide +kernel, ?_, ?_⟩
  · rintro ⟨ranges, hlisted, hsorted⟩
    obtain rfl := (List.map_inj_right fun _ _ => Option.some.inj).1 (hranges.symm.trans hlisted)
    exact absurd hsorted (by decide)
  · rintro ⟨spans, htold, hsorted⟩
    obtain rfl := (List.map_inj_right fun _ _ => Option.some.inj).1 (hspans.symm.trans htold)
    exact absurd hsorted (by decide)

end RouteScript
