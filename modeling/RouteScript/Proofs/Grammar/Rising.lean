import RouteScript.Proofs.Grammar.Brackets
/-!
# Mistakes in the order of the source

A parse keeps its mistakes in the order in which it meets them, and it goes on at the token of a
mistake or behind it. So they start one after the other, each where the one before it starts or
further down, unless the parse goes back into the brackets of a route. Then it tells of a mistake in
front of the one it has told of before, so that it is exactly the parses that do not go back whose
mistakes are in order.
-/
namespace RouteScript

/-- Ranges, none of them missing, that start one after the other, from `low` to `high`. -/
def ByteRange.Rising : Nat → List (Option ByteRange) → Nat → Prop
  | low, [], high => low ≤ high
  | low, some r :: rs, high => low ≤ r.start ∧ Rising r.start rs high
  | _, none :: _, _ => False

/-- The first range does not start behind the second, if there are both. -/
def ByteRange.NotAfter (r s : Option ByteRange) : Prop := ∀ a ∈ r, ∀ b ∈ s, a.start ≤ b.start

namespace ByteRange

variable {low mid high : Nat} {rs ss : List (Option ByteRange)}

theorem Rising.mono {less : Nat} (h : Rising low rs high) (hle : less ≤ low) :
    Rising less rs high := by
  match rs, h with
  | [], h => exact Nat.le_trans hle h
  | some _ :: _, h => exact ⟨Nat.le_trans hle h.1, h.2⟩

theorem Rising.append : ∀ {low : Nat} {rs : List (Option ByteRange)}, Rising low rs mid →
    Rising mid ss high → Rising low (rs ++ ss) high
  | _, [], h, k => k.mono h
  | _, some _ :: _, h, k => ⟨h.1, h.2.append k⟩

theorem Rising.exists_ranges : ∀ {low : Nat} {rs : List (Option ByteRange)}, Rising low rs high →
    ∃ ranges : List ByteRange, rs = ranges.map some ∧ (∀ r ∈ ranges, low ≤ r.start) ∧
      (ranges.map (·.start)).Pairwise (· ≤ ·)
  | _, [], _ => ⟨[], rfl, by simp, .nil⟩
  | _, some r :: rs, ⟨hlow, hrest⟩ => by
    obtain ⟨ranges, rfl, hle, hsorted⟩ := hrest.exists_ranges
    refine ⟨r :: ranges, rfl, List.forall_mem_cons.2 ⟨hlow, fun s hs => ?_⟩, ?_⟩
    · exact Nat.le_trans hlow (hle s hs)
    · exact .cons (List.forall_mem_map.2 hle) hsorted

end ByteRange

namespace Item

variable {l : Label} {x : Item} {xs ys : List Item}

/-- Where the mistakes in an item lie, in the order of a walk. -/
def faultRanges (x : Item) : List (Option ByteRange) :=
  (x.parts.filter fun y => y.label.kind = .error).map (·.label.range)

/-- Where the mistakes in several items lie. -/
def faultRangesAll (xs : List Item) : List (Option ByteRange) := xs.flatMap faultRanges

@[simp] theorem faultRangesAll_nil : faultRangesAll [] = [] := rfl

@[simp] theorem faultRangesAll_cons (x : Item) (xs : List Item) :
    faultRangesAll (x :: xs) = x.faultRanges ++ faultRangesAll xs :=
  List.flatMap_cons

@[simp] theorem faultRangesAll_append (xs ys : List Item) :
    faultRangesAll (xs ++ ys) = faultRangesAll xs ++ faultRangesAll ys :=
  List.flatMap_append

theorem Clean.faultRanges (h : x.Clean) : x.faultRanges = [] := by
  have hnone : x.parts.filter (fun y => y.label.kind = .error) = [] :=
    List.filter_eq_nil_iff.2 fun y hy => by simpa using h y hy
  rw [Item.faultRanges, hnone, List.map_nil]

theorem faultRangesAll_of_clean (h : ∀ x ∈ xs, x.Clean) : faultRangesAll xs = [] :=
  List.flatMap_eq_nil_iff.2 fun x hx => (h x hx).faultRanges

/-- A node that is no mistake itself has those of the items below it. -/
theorem faultRanges_bundle (h : l.kind ≠ .error) :
    (bundle l xs).faultRanges = faultRangesAll xs := by
  cases xs with
  | nil => exact (clean_bare.2 h).faultRanges
  | cons x xs =>
    have hhead : ¬(list l (x :: xs)).label.kind = .error := h
    rw [bundle, faultRanges, parts, List.filter_cons_of_neg (by simpa using hhead),
      partsAll_eq_flatMap, List.filter_flatMap, List.map_flatMap]
    rfl

theorem faultRanges_list (h : l.kind ≠ .error) (x : Item) (xs : List Item) :
    (list l (x :: xs)).faultRanges = faultRangesAll (x :: xs) := by
  rw [← faultRanges_bundle h, bundle]

end Item

namespace Grammar

open Item ByteRange

variable {c : Context} {s after : Stand} {x : Item} {xs : List Item} {e : Fault} {low high : Nat}
  {rs : List ByteRange} {kind : NodeKind} {l : Label} {h : Reading.Header}
  {q here pending : List LocatedToken}

@[simp] theorem faultRanges_fault (e : Fault) : e.item.faultRanges = [some e.range] := rfl

/-- The parse has stopped, or all that it has still to read lies from `low` on. -/
def Going (c : Context) (low : Nat) (s : Stand) (high : Nat) : Prop :=
  s.stopped = true ∨ Ahead c low s.pending high

/-- A fault at a token that is ahead, and what is ahead from that token on. -/
theorem Ahead.from_fault (ha : Ahead c low pending high) (hhere : here <:+ pending)
    (hat : e.At c here) : low ≤ e.range.start ∧ Ahead c e.range.start here high := by
  rw [hat]
  exact ⟨(ha.suffix hhere).head_inside.start_le, (ha.suffix hhere).from_head⟩

namespace Reading

/-! ## Blocks -/

/-- Statements that are found have no mistake in them. -/
theorem Gathered.faultRangesAll_append (hg : Gathered statement c s xs after) (ys : List Item) :
    faultRangesAll (xs ++ ys) = faultRangesAll ys := by
  rw [Item.faultRangesAll_append, faultRangesAll_of_clean hg.clean_statements, List.nil_append]

/-- The parse goes on behind the mistake in a statement. -/
theorem Gathered.from_fault (hg : Gathered statement c s xs after) (hc : c.Closed)
    (ha : Ahead c low s.pending high) (he : statement c after = .fault e) :
    low ≤ e.range.start ∧ Ahead c e.range.start (after.restart true c).pending high := by
  have hahead := ha.suffix (hg.suffix onward_statement hc)
  obtain ⟨here, hhere, hat, hrestart⟩ := (behind_statement hc hahead.scanned he).restart true
  obtain ⟨hle, hfrom⟩ := hahead.from_fault hhere hat
  exact ⟨hle, hfrom.suffix hrestart⟩

/-- The mistakes in a block start one after the other, and the parse goes on behind the last. -/
theorem Bodied.rising (hc : c.Closed) (h : Bodied c s xs rs after) : ∀ {low : Nat},
    Ahead c low s.pending high →
      ∃ mid, Rising low (faultRangesAll xs) mid ∧ Going c mid after high := by
  induction h with
  | @closed s here xs hg =>
    intro low ha
    refine ⟨low, ?_, .inr (ha.suffix ?_)⟩
    · rw [faultRangesAll_of_clean hg.clean_statements]
      exact Nat.le_refl low
    · exact (Stand.suffix_advance c here).trans (hg.suffix onward_statement hc)
  | @unclosed s here xs hg =>
    intro low ha
    have hahead := ha.suffix (hg.suffix onward_statement hc)
    refine ⟨(here.current c).range.start, ?_, .inr hahead.from_head⟩
    rw [hg.faultRangesAll_append]
    exact ⟨hahead.current_inside.start_le, Nat.le_refl _⟩
  | @halted s here xs e hg _ _ he hstop =>
    intro low ha
    refine ⟨e.range.start, ?_, .inl hstop⟩
    rw [hg.faultRangesAll_append]
    exact ⟨(hg.from_fault hc ha he).1, Nat.le_refl _⟩
  | @resumed s here after xs ys rs e hg _ _ he _ _ ih =>
    intro low ha
    obtain ⟨hle, hahead⟩ := hg.from_fault hc ha he
    obtain ⟨mid, hrising, hgoing⟩ := ih hahead
    refine ⟨mid, ?_, hgoing⟩
    rw [hg.faultRangesAll_append, faultRangesAll_cons]
    exact ⟨hle, hrising⟩

theorem rising_openBlock (hc : c.Closed) (ha : Ahead c low s.pending high) :
    ∃ mid, Rising low (openBlock c s).1.faultRanges mid ∧ Going c mid (openBlock c s).2 high := by
  rw [openBlock, faultRanges_bundle (by simp)]
  exact (bodied_body hc (s.advance c)).rising hc (ha.suffix (Stand.suffix_advance c s))

/-! ## Routes -/

/-- The mistake in the header of a route, if there is one. -/
def Header.faultRanges (h : Header) : List (Option ByteRange) :=
  h.error.toList.map fun e => some e.range

/-- The block of a route lies behind the mistake in its header. -/
theorem Headed.rising (hh : Headed kind c s h) (hc : c.Closed) (ha : Ahead c low s.pending high)
    (hbrace : (h.after.current c).kind = .leftBrace) :
    ∃ mid, Rising low h.faultRanges mid ∧ Ahead c mid h.after.pending high := by
  cases hh with
  | named hname => exact ⟨low, Nat.le_refl low, ha.suffix (suffix_routeName hname)⟩
  | nameless => exact ⟨low, Nat.le_refl low, ha⟩
  | unnamed =>
    exact ⟨_, ⟨ha.current_inside.start_le, Nat.le_refl _⟩, ha.from_head⟩
  | @misnamed e hopen hname =>
    obtain ⟨here, hhere, hat, hafter⟩ := at_routeName hc ha.scanned hopen hname
    obtain ⟨hle, hfrom⟩ := ha.from_fault hhere hat
    refine ⟨e.range.start, ⟨hle, Nat.le_refl _⟩, ?_⟩
    cases hq : afterBracket? s.pending with
    | none =>
      rw [hq, Option.getD_none, Stand.goTo_pending, hopen] at hbrace
      cases hbrace
    | some q => exact hfrom.suffix (hafter q hq)

theorem rising_routeFrom (hc : c.Closed) (hl : l.kind ≠ .error) {mid : Nat}
    (herror : Rising low h.faultRanges mid) (ha : Ahead c mid h.after.pending high) :
    ∃ last, Rising low (routeFrom l c h).1.faultRanges last ∧
      Going c last (routeFrom l c h).2 high := by
  rw [routeFrom]
  rw [Header.faultRanges] at herror
  cases he : h.error with
  | none =>
    rw [he] at herror
    obtain ⟨last, hrising, hgoing⟩ := rising_openBlock hc (ha.mono herror)
    refine ⟨last, ?_, hgoing⟩
    rw [faultRanges_list (by rwa [Label.kind_over]), faultRangesAll_cons, faultRangesAll_nil,
      List.append_nil]
    exact hrising
  | some e =>
    rw [he] at herror
    simp only
    by_cases hstop : (h.after.keep c).stopped = true
    · rw [if_pos hstop]
      refine ⟨mid, ?_, .inl hstop⟩
      rw [faultRanges_list (l := l.widen e.range) hl]
      exact herror
    · rw [if_neg hstop]
      obtain ⟨last, hrising, hgoing⟩ := rising_openBlock (s := h.after.keep c) hc ha
      refine ⟨last, ?_, hgoing⟩
      rw [faultRanges_list (by rwa [Label.kind_over]), faultRangesAll_cons, faultRangesAll_cons,
        faultRangesAll_nil, List.append_nil]
      exact herror.append hrising

theorem rising_route (hc : c.Closed) (ha : Ahead c low s.pending high)
    (hx : route c s = .found x after) :
    ∃ mid, Rising low x.faultRanges mid ∧ Going c mid after high := by
  obtain ⟨kind, hkind, hbrace, hx⟩ := route_eq_found.1 hx
  obtain ⟨rfl, rfl⟩ : x = _ ∧ after = _ := Prod.ext_iff.1 hx
  obtain ⟨-, word, -, hword⟩ := kind_of_routeKind? hkind
  have hne := NodeKind.ne_error_of_outcome
    (NodeKind.outcome_of_isRoute (NodeKind.isRoute_ofRouteWord? hword))
  obtain ⟨mid, herror, hahead⟩ := (headed_header kind c (s.advance c)).rising hc
    (ha.suffix (Stand.suffix_advance c s)) hbrace
  exact rising_routeFrom hc hne herror hahead

/-! ## Whole files -/

theorem rising_topLevel (hc : c.Closed) (ha : Ahead c low s.pending high)
    (hx : topLevel c s = .found x after) :
    ∃ mid, Rising low x.faultRanges mid ∧ Going c mid after high := by
  obtain ⟨-, y, hy, rfl⟩ := topLevel_eq_found.1 hx
  have hwrapped : (covered .topLevel [y]).faultRanges = y.faultRanges := by
    rw [covered, faultRanges_bundle (by simp), faultRangesAll_cons, faultRangesAll_nil,
      List.append_nil]
  have hclean : y.Clean → after.pending <:+ s.pending →
      ∃ mid, Rising low y.faultRanges mid ∧ Going c mid after high := fun hclean hsuffix =>
    ⟨low, hclean.faultRanges ▸ Nat.le_refl low, .inr (ha.suffix hsuffix)⟩
  rw [hwrapped]
  rcases construct_eq_found.1 hy with hy | ⟨-, hy | ⟨-, hy⟩⟩
  · exact hclean (clean_fileStarter hy) (takesOne_fileStarter.onward c _ _ _ hc hy)
  · exact hclean (clean_topLevelAssignment hy) (onward_topLevelAssignment c _ _ _ hc hy)
  · exact rising_route hc ha hy

theorem Gathered.rising (hc : c.Closed) (h : Gathered topLevel c s xs after) : ∀ {low : Nat},
    Going c low s high → ∃ mid, Rising low (faultRangesAll xs) mid ∧ Going c mid after high := by
  induction h with
  | stop => exact fun {low} hgoing => ⟨low, Nat.le_refl low, hgoing⟩
  | @more s u after x xs hx _ ih =>
    intro low hgoing
    rcases hgoing with hstop | ha
    · obtain ⟨hgoes, -⟩ := topLevel_eq_found.1 hx
      exact absurd hstop (by simp [(Bool.or_eq_false_iff.1 hgoes).2])
    obtain ⟨mid, hfirst, hgoing⟩ := rising_topLevel hc ha hx
    obtain ⟨last, hrest, hgoing⟩ := ih hgoing
    exact ⟨last, by rw [faultRangesAll_cons]; exact hfirst.append hrest, hgoing⟩

/-- The parse goes on at `low` or behind it; or it goes on inside brackets that end there, and what
fails next is a route that is named in them. -/
inductive Poised (c : Context) (low : Nat) (s : Stand) (high : Nat) : Prop
  | ahead : Going c low s high → Poised c low s high
  | inside {less : Nat} {q : List LocatedToken} : Ahead c less s.pending high →
      InBrackets c q s.pending → low ≤ (q.headD c.closing).range.start →
      opensName (collect topLevel c s).2.pending = true → Poised c low s high

theorem Gathered.rising_poised (hc : c.Closed) (hg : Gathered topLevel c s xs after)
    (hp : Poised c low s high) : ∃ mid, Rising low (faultRangesAll xs) mid := by
  cases hp with
  | ahead hgoing =>
    obtain ⟨mid, hrising, -⟩ := hg.rising hc hgoing
    exact ⟨mid, hrising⟩
  | inside ha hin =>
    obtain ⟨hclean, -⟩ := hin.gathered hc hg ha.scanned
    exact ⟨low, faultRangesAll_of_clean hclean ▸ Nat.le_refl low⟩

/-- What was gathered before a construct that fails, and the mistake itself. -/
theorem Gathered.rising_fault (hc : c.Closed) (hg : Gathered topLevel c s xs after)
    (hp : Poised c low s high) (hend : ((after.current c).isEnd || after.stopped) = false)
    (he : topLevel c after = .fault e) :
    Rising low (faultRangesAll xs ++ [some e.range]) e.range.start ∧
      ∃ less, Ahead c less after.pending high := by
  cases hp with
  | ahead hgoing =>
    obtain ⟨mid, hrising, hgoing⟩ := hg.rising hc hgoing
    rcases hgoing with hstop | ha
    · exact absurd hstop (by simp [(Bool.or_eq_false_iff.1 hend).2])
    obtain ⟨there, hthere, hat, -⟩ := met_topLevel hc ha.scanned he
    exact ⟨hrising.append ⟨(ha.from_fault hthere hat).1, Nat.le_refl _⟩, mid, ha⟩
  | inside ha hin hle hname =>
    obtain ⟨hclean, hin, -⟩ := hin.gathered hc hg ha.scanned
    rw [hg.collect_eq forward_topLevel hc] at hname
    have hat : e.range = _ := hin.fault_of_opensName hc hname he
    refine ⟨?_, _, ha.suffix (hg.suffix onward_topLevel hc)⟩
    rw [faultRangesAll_of_clean hclean, List.nil_append]
    exact ⟨hat ▸ hle, Nat.le_refl _⟩

/-- Unless it goes back, the parse is poised at the mistake it goes on after. -/
theorem poised_restart (hc : c.Closed) (ha : Ahead c low s.pending high)
    (he : topLevel c s = .fault e) (hkeeps : goesBack c s = false) :
    Poised c e.range.start (s.restart false c) high := by
  cases hloses : losesPlace s.pending with
  | false =>
    obtain ⟨there, hthere, hat, hrestart⟩ := met_topLevel hc ha.scanned he
    exact .ahead (.inr ((ha.from_fault hthere hat).2.suffix (hrestart hloses)))
  | true =>
    obtain ⟨q, hat, hin⟩ := inBrackets_of_losesPlace hc hloses he
    rw [goesBack, hloses, Bool.true_and, Bool.not_eq_false'] at hkeeps
    exact .inside (ha.suffix (suffix_restart false c s)) hin (Nat.le_of_eq (congrArg _ hat)) hkeeps

/-- The mistakes of a file start one after the other if the parse nowhere goes back. -/
theorem Constructed.rising (hc : c.Closed) (h : Constructed c s xs after) : ∀ {low : Nat},
    (∀ u ∈ failures c s, goesBack c u = false) → Poised c low s high →
      ∃ mid, Rising low (faultRangesAll xs) mid := by
  induction h with
  | ended hg => exact fun _ hp => hg.rising_poised hc hp
  | @halted s here xs e hg hend he =>
    intro low _ hp
    refine ⟨e.range.start, ?_⟩
    rw [faultRangesAll_append]
    exact (hg.rising_fault hc hp hend he).1
  | @resumed s here after xs ys e hg hend he hgo _ ih =>
    intro low hkeeps hp
    rw [hg.failures_eq_cons hc (Bool.or_eq_false_iff.2 ⟨(Bool.or_eq_false_iff.1 hend).1, hgo⟩)]
      at hkeeps
    obtain ⟨hhere, hlater⟩ := List.forall_mem_cons.1 hkeeps
    obtain ⟨hrising, less, hahead⟩ := hg.rising_fault hc hp hend he
    obtain ⟨mid, hrest⟩ := ih hlater (poised_restart hc hahead he hhere)
    refine ⟨mid, ?_⟩
    rw [faultRangesAll_append, faultRangesAll_cons, ← List.append_assoc]
    exact hrising.append hrest

/-! ## Going back -/

/-- Inside brackets the parse meets its next mistake. -/
theorem Constructed.fault_inBrackets (hc : c.Closed) (h : Constructed c s xs after)
    (hs : s.Scanned) (hin : InBrackets c q s.pending) (hgo : s.stopped = false) :
    ∃ e rs, topLevel c (collect topLevel c s).2 = .fault e ∧
      InBrackets c q (collect topLevel c s).2.pending ∧ (collect topLevel c s).2.Scanned ∧
      faultRangesAll xs = some e.range :: rs := by
  cases h with
  | ended hg hend =>
    obtain ⟨-, hin, -, hstop⟩ := hin.gathered hc hg hs
    rw [hin.isEnd_current, hstop, hgo] at hend
    cases hend
  | @halted _ here xs e hg _ he =>
    obtain ⟨hclean, hin, hs, -⟩ := hin.gathered hc hg hs
    rw [hg.collect_eq forward_topLevel hc]
    refine ⟨e, [], he, hin, hs, ?_⟩
    rw [faultRangesAll_append, faultRangesAll_of_clean hclean]
    rfl
  | @resumed _ here after xs ys e hg _ he =>
    obtain ⟨hclean, hin, hs, -⟩ := hin.gathered hc hg hs
    rw [hg.collect_eq forward_topLevel hc]
    refine ⟨e, faultRangesAll ys, he, hin, hs, ?_⟩
    rw [faultRangesAll_append, faultRangesAll_of_clean hclean]
    rfl

/-- A parse that goes back tells of a mistake before the one that it has told of. -/
theorem Constructed.lt_of_goesBack (hc : c.Closed) (ha : Ahead c low s.pending high)
    (he : topLevel c s = .fault e) (hgo : (s.keep c).stopped = false) (hback : goesBack c s = true)
    (h : Constructed c (s.restart false c) xs after) :
    ∃ r rs, faultRangesAll xs = some r :: rs ∧ r.start < e.range.start := by
  rw [goesBack, Bool.and_eq_true, Bool.not_eq_true'] at hback
  obtain ⟨hloses, hname⟩ := hback
  obtain ⟨q, hat, hin⟩ := inBrackets_of_losesPlace hc hloses he
  have ha := ha.suffix (suffix_restart false c s)
  have hg := gathered_collect forward_topLevel hc (s.restart false c)
  obtain ⟨e', rs, he', hin', hs', hranges⟩ := h.fault_inBrackets hc ha.scanned hin hgo
  obtain ⟨here, hhere, hin, hat'⟩ := hin'.fault_of_not_opensName hc hs' hname he'
  obtain ⟨t, rest, rfl, hq⟩ := hin.exists_cons
  refine ⟨e'.range, rs, hranges, ?_⟩
  rw [show e.range = _ from hat, show e'.range = _ from hat']
  exact (ha.suffix (hhere.trans (hg.suffix onward_topLevel hc))).head_lt hq

/-- If the mistakes of a file start one after the other, then the parse nowhere goes back. -/
theorem Constructed.goesBack_eq_false (hc : c.Closed) (h : Constructed c s xs after) :
    ∀ {low : Nat}, Ahead c low s.pending high → (faultRangesAll xs).Pairwise NotAfter →
      ∀ u ∈ failures c s, goesBack c u = false := by
  induction h with
  | @ended s here xs hg hend =>
    intro low _ _
    have hdone : ((here.current c).isEnd || (here.keep c).stopped) = true := by
      rw [Stand.keep, ← Bool.or_assoc, hend, Bool.true_or]
    simp [hg.failures_eq_nil hc hdone]
  | halted hg _ _ hstop =>
    intro low _ _
    simp [hg.failures_eq_nil hc (by rw [hstop, Bool.or_true])]
  | @resumed s here after xs ys e hg hend he hgo hrest ih =>
    intro low ha hsorted
    rw [faultRangesAll_append, faultRangesAll_cons, faultRanges_fault, List.singleton_append]
      at hsorted
    obtain ⟨hfirst, hlater⟩ := List.pairwise_cons.1 (List.pairwise_append.1 hsorted).2.1
    have hhere := ha.suffix (hg.suffix onward_topLevel hc)
    rw [hg.failures_eq_cons hc (Bool.or_eq_false_iff.2 ⟨(Bool.or_eq_false_iff.1 hend).1, hgo⟩)]
    refine List.forall_mem_cons.2 ⟨Bool.eq_false_iff.2 fun hback => ?_,
      ih (hhere.suffix (suffix_restart false c here)) hlater⟩
    obtain ⟨r, rs, hranges, hlt⟩ := hrest.lt_of_goesBack hc hhere he hgo hback
    have hle := hfirst (some r) (by simp [hranges]) e.range rfl r rfl
    exact Nat.not_lt.2 hle hlt

/-! ## Whole scripts -/

theorem faultRanges_script (c : Context) (s : Stand) :
    (script c s).1.faultRanges = faultRangesAll (constructs c s).1 := by
  have hclosing : ((Node.ofKind .endOfInput).withRange c.closing.range).alone.faultRanges = [] :=
    (clean_bare.2 (by rintro ⟨⟩)).faultRanges
  rw [script]
  simp only
  rw [covered, faultRanges_bundle (by simp), faultRangesAll_append, faultRangesAll_cons, hclosing]
  rw [faultRangesAll_nil, List.append_nil, List.append_nil]

/-- The mistakes of a script start one after the other exactly if the parse nowhere goes back. -/
theorem script_rises_iff (hc : c.Closed) (ha : Ahead c low s.pending high) :
    (∃ ranges : List ByteRange, (script c s).1.faultRanges = ranges.map some ∧
      (ranges.map (·.start)).Pairwise (· ≤ ·)) ↔ ∀ u ∈ failures c s, goesBack c u = false := by
  have hconstructed := constructed_constructs hc s
  rw [faultRanges_script]
  constructor
  · rintro ⟨ranges, hranges, hsorted⟩
    refine hconstructed.goesBack_eq_false hc ha ?_
    rw [hranges, List.pairwise_map]
    refine (List.pairwise_map.1 hsorted).imp fun hle a ha b hb => ?_
    cases ha
    cases hb
    exact hle
  · intro hkeeps
    obtain ⟨mid, hrising⟩ := hconstructed.rising hc hkeeps (.ahead (.inr ha))
    obtain ⟨ranges, hranges, -, hsorted⟩ := hrising.exists_ranges
    exact ⟨ranges, hranges, hsorted⟩

end Reading
end Grammar
end RouteScript
