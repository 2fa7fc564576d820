import RouteScript.Proofs.Grammar.Ahead
import RouteScript.Proofs.Grammar.Faults
import RouteScript.Proofs.Grammar.Kept
/-!
# Going on inside brackets

A route whose name holds a place to go on (`losesPlace`) fails behind the brackets, and the parse
goes on inside them. There it finds no route, since no block stands behind the brackets, and nothing
that it finds holds the closing bracket: it meets its next mistake before it leaves them. That
mistake lies before the one of the route, unless another route in the same brackets fails behind
them as well (`goesBack`).
-/
namespace RouteScript.Grammar

open Item

variable {c : Context} {s u after : Stand} {x : Item} {xs ys : List Item} {e : Fault}
  {t : LocatedToken} {ts rest q pending : List LocatedToken} {kind : NodeKind} {h : Reading.Header}

/-! ## Tokens in brackets -/

namespace Reading

/-- The tokens begin inside brackets that no block comes after; `q` is what stands behind them. -/
structure InBrackets (c : Context) (q pending : List LocatedToken) : Prop where
  after : afterBracket? pending = some q
  noBlock : (q.headD c.closing).kind ≠ .leftBrace

namespace InBrackets

/-- The next token in brackets closes them or leaves the parse inside. -/
theorem cases (h : InBrackets c q pending) : ∃ t rest, pending = t :: rest ∧
    t.kind ≠ .endOfInput ∧ t.kind ≠ .leftBrace ∧
    (t.kind = .rightBracket ∧ rest = q ∨ t.kind ≠ .rightBracket ∧ InBrackets c q rest) := by
  obtain ⟨hafter, hblock⟩ := h
  cases pending with
  | nil => cases hafter
  | cons t rest =>
    rw [afterBracket?] at hafter
    split at hafter
    · cases hafter
    · rename_i hkind
      cases hafter
      exact absurd hkind hblock
    · rename_i hkind
      cases hafter
      exact ⟨t, _, rfl, by simp [hkind], by simp [hkind], .inl ⟨hkind, rfl⟩⟩
    · rename_i hend hleft hright
      exact ⟨t, rest, rfl, hend, hleft, .inr ⟨hright, hafter, hblock⟩⟩

theorem exists_cons (h : InBrackets c q pending) : ∃ t rest, pending = t :: rest ∧ q <:+ rest := by
  obtain ⟨t, rest, rfl, -, -, ⟨-, rfl⟩ | ⟨-, hrest⟩⟩ := h.cases
  · exact ⟨t, rest, rfl, List.suffix_rfl⟩
  · exact ⟨t, rest, rfl, afterBracket?_suffix _ _ hrest.after⟩

theorem cons (hend : t.kind ≠ .endOfInput) (hleft : t.kind ≠ .leftBrace)
    (hright : t.kind ≠ .rightBracket) (h : InBrackets c q rest) : InBrackets c q (t :: rest) := by
  refine ⟨?_, h.noBlock⟩
  rw [afterBracket?]
  split
  · contradiction
  · contradiction
  · contradiction
  · exact h.after

/-- Tokens that do not close the brackets may be passed. -/
theorem of_append : ∀ {ts : List LocatedToken}, InBrackets c q (ts ++ pending) →
    (∀ t ∈ ts, t.kind ≠ .rightBracket) → InBrackets c q pending
  | [], h, _ => h
  | t :: ts, h, hts => by
    obtain ⟨ht, hts⟩ := List.forall_mem_cons.1 hts
    obtain ⟨_, _, heq, -, -, ⟨hclose, -⟩ | ⟨-, hrest⟩⟩ := h.cases
    · cases heq
      exact absurd hclose ht
    · cases heq
      exact hrest.of_append hts

theorem passes (h : InBrackets c q s.pending) (hp : s.Passes ts after)
    (hts : ∀ t ∈ ts, t.kind ≠ .rightBracket) : InBrackets c q after.pending :=
  of_append (hp.pending ▸ h) hts

theorem isEnd_current (h : InBrackets c q s.pending) : (s.current c).isEnd = false := by
  obtain ⟨t, rest, hpending, hend, -, -⟩ := h.cases
  rw [Stand.current, hpending]
  exact isEnd_eq_false rfl hend

theorem current_ne_leftBrace (h : InBrackets c q s.pending) :
    (s.current c).kind ≠ .leftBrace := by
  obtain ⟨t, rest, hpending, -, hleft, -⟩ := h.cases
  rw [Stand.current, hpending]
  exact hleft

theorem advance (hc : c.Closed) (h : InBrackets c q s.pending)
    (hopen : (s.current c).kind ≠ .rightBracket) : InBrackets c q (s.advance c).pending :=
  h.passes (Stand.passes_advance hc h.isEnd_current) (List.forall_mem_singleton.2 hopen)

theorem advance_word (hc : c.Closed) (h : InBrackets c q s.pending)
    (hword : routeKind? (s.current c).token = some kind) :
    InBrackets c q (s.advance c).pending := by
  have hroute : (s.current c).kind = .route := (kind_of_routeKind? hword).1
  exact h.advance hc (by rw [hroute]; decide)

theorem advance_closing (hc : c.Closed) (h : InBrackets c q s.pending)
    (hclose : (s.current c).kind = .rightBracket) : (s.advance c).pending = q := by
  have hp := (Stand.passes_advance hc h.isEnd_current).pending
  obtain ⟨t, rest, hpending, -, -, ⟨-, rfl⟩ | ⟨hopen, -⟩⟩ := h.cases
  · rw [hpending, List.singleton_append] at hp
    exact (List.cons.inj hp).2.symm
  · rw [Stand.current, hpending] at hclose
    exact absurd hclose hopen

/-- A restart stays inside the brackets if they hold a place to go on. -/
theorem restartFrom : ∀ {pending : List LocatedToken}, InBrackets c q pending →
    (pending.takeWhile (·.kind ≠ .rightBracket)).any resumes = true →
    InBrackets c q (restartFrom false 0 false pending)
  | [], h, _ => h
  | t :: rest, h, hplace => by
    obtain ⟨_, _, heq, hend, hleft, ⟨hclose, -⟩ | ⟨hopen, hrest⟩⟩ := h.cases
    · cases heq
      rw [List.takeWhile_cons_of_neg (by simpa using hclose)] at hplace
      cases hplace
    cases heq
    rw [List.takeWhile_cons_of_pos (by simpa using hopen), List.any_cons] at hplace
    cases hresumes : resumes t with
    | false =>
      rw [hresumes, Bool.false_or] at hplace
      rw [restartFrom_skippable (skippable_of_resumes hresumes hleft hend)]
      exact hrest.restartFrom hplace
    | true =>
      simp only [resumes, List.mem_cons, List.not_mem_nil, or_false, decide_eq_true_eq] at hresumes
      rcases hresumes with hkind | hkind | hkind <;> simpa [Grammar.restartFrom, hkind]

end InBrackets

/-! ## What is read in brackets -/

theorem opensName_iff (hc : c.Closed) : opensName s.pending = true ↔
    (∃ kind, routeKind? (s.current c).token = some kind) ∧
      ((s.advance c).current c).kind = .leftBracket := by
  constructor
  · intro h
    match hpending : s.pending with
    | [] | [_] => rw [hpending] at h; cases h
    | word :: opening :: rest =>
      rw [hpending] at h
      simp only [opensName, Bool.and_eq_true, decide_eq_true_eq, Option.isSome_iff_exists] at h
      obtain ⟨⟨kind, hkind⟩, hopen⟩ := h
      have hend : word.isEnd = false := isEnd_eq_false (kind_of_routeKind? hkind).1 (by decide)
      simp [Stand.advance, Stand.current, hpending, hend, hkind, hopen]
  · rintro ⟨⟨kind, hkind⟩, hopen⟩
    have hroute : (s.current c).kind = .route := (kind_of_routeKind? hkind).1
    have hp := (Stand.passes_advance hc (isEnd_eq_false hroute (by decide))).pending
    have hp' := (Stand.passes_advance hc (isEnd_eq_false hopen (by decide))).pending
    rw [hp, hp']
    simp [opensName, hkind, hopen]

namespace InBrackets

/-- A name ends where the brackets do, and without a name the route has not got any further. -/
theorem header (hc : c.Closed) (h : InBrackets c q s.pending) {found : Header}
    (hh : Headed kind c s found) :
    (s.current c).kind = .leftBracket ∧ found.after.pending = q ∨
      (s.current c).kind ≠ .leftBracket ∧ found.after = s := by
  cases hh with
  | named hname =>
    obtain ⟨hopen, hx, hclose, rfl⟩ := routeName_eq_found.1 hname
    have hinner := h.advance hc (by rw [hopen]; decide)
    exact .inl ⟨hopen, (hinner.advance hc (plain_nameItem? hx).staysOpen).advance_closing hc hclose⟩
  | misnamed hopen =>
    refine .inl ⟨hopen, ?_⟩
    show (afterBracket? s.pending).getD s.pending = q
    rw [h.after, Option.getD_some]
  | unnamed _ hopen | nameless _ hopen => exact .inr ⟨hopen, rfl⟩

theorem route_ne_found (hc : c.Closed) (h : InBrackets c q s.pending) :
    route c s ≠ .found x after := by
  intro hx
  obtain ⟨kind, hkind, hbrace, -⟩ := route_eq_found.1 hx
  have hinner := h.advance_word hc hkind
  rcases hinner.header hc (headed_header kind c _) with ⟨-, hafter⟩ | ⟨-, hafter⟩
  · rw [Stand.current, hafter] at hbrace
    exact h.noBlock hbrace
  · rw [hafter] at hbrace
    exact hinner.current_ne_leftBrace hbrace

/-- What is found in brackets has no mistake in it and leaves the parse inside. -/
theorem topLevel_found (hc : c.Closed) (hs : s.Scanned) (h : InBrackets c q s.pending)
    (hx : topLevel c s = .found x u) : x.Clean ∧ InBrackets c q u.pending ∧ u.Scanned ∧
      u.stopped = s.stopped := by
  obtain ⟨-, y, hy, rfl⟩ := topLevel_eq_found.1 hx
  suffices hsuff : y.Clean ∧ ∃ ts, s.Passes ts u ∧ ∀ t ∈ ts, t.kind ≠ .rightBracket by
    obtain ⟨hclean, ts, hp, hts⟩ := hsuff
    exact ⟨clean_list.2 ⟨by simp, List.forall_mem_singleton.2 hclean⟩, h.passes hp hts,
      hp.scanned hs, hp.stopped⟩
  rcases construct_eq_found.1 hy with hy | ⟨-, hy | ⟨-, hy⟩⟩
  · obtain ⟨hitem, rfl⟩ := (takesOne_fileStarter.found ..).1 hy
    obtain ⟨_, hkind, -⟩ := fileStarterItem?_eq_some.1 hitem
    exact ⟨clean_fileStarter hy, _, (takesOne_fileStarter.passes hc hs hitem).1,
      List.forall_mem_singleton.2 (by rw [hkind]; decide)⟩
  · refine ⟨clean_topLevelAssignment hy, ?_⟩
    obtain ⟨y', u', hy', hend⟩ := topLevelAssignment_eq_found.1 hy
    obtain ⟨ts, hp, hts, hs'⟩ := passes_assignment hc hs hy'
    have hts : ∀ t ∈ ts, t.kind ≠ .rightBracket := fun t ht => (hts t ht).staysOpen
    rcases hend with ⟨z, hz, -, rfl⟩ | ⟨-, -, rfl⟩
    · refine ⟨_, hp.trans (takesOne_terminator.passes hc hs' hz).1, ?_⟩
      refine List.forall_mem_append.2 ⟨hts, List.forall_mem_singleton.2 ?_⟩
      rw [(oneItem?_eq_some.1 hz).1]
      decide
    · exact ⟨ts, hp, hts⟩
  · exact absurd hy (h.route_ne_found hc)

theorem gathered (hc : c.Closed) (hg : Gathered topLevel c s xs after) (hs : s.Scanned)
    (h : InBrackets c q s.pending) : (∀ x ∈ xs, x.Clean) ∧ InBrackets c q after.pending ∧
      after.Scanned ∧ after.stopped = s.stopped := by
  induction hg with
  | stop => exact ⟨by simp, h, hs, rfl⟩
  | more hx _ ih =>
    obtain ⟨hclean, h, hs, hstop⟩ := h.topLevel_found hc hs hx
    obtain ⟨hrest, h, hs, hstop'⟩ := ih hs h
    exact ⟨List.forall_mem_cons.2 ⟨hclean, hrest⟩, h, hs, hstop'.trans hstop⟩

/-- A route with a bracket behind its word fails behind the brackets. -/
theorem fault_of_opensName (hc : c.Closed) (h : InBrackets c q s.pending)
    (hname : opensName s.pending = true) (he : topLevel c s = .fault e) : e.At c q := by
  obtain ⟨⟨kind, hkind⟩, hopen⟩ := (opensName_iff hc).1 hname
  rcases route_eq_fault (route_eq_fault_of_topLevel (kind_of_routeKind? hkind).1 he) with
    ⟨hnone, -⟩ | ⟨kind', -, -, rfl⟩
  · rw [hkind] at hnone
    cases hnone
  · rcases (h.advance_word hc hkind).header hc (headed_header kind' c _) with
      ⟨-, hafter⟩ | ⟨hne, -⟩
    · exact congrArg (fun p => (p.headD c.closing).range) hafter
    · exact absurd hopen hne

/-- What begins otherwise fails inside the brackets. -/
theorem fault_of_not_opensName (hc : c.Closed) (hs : s.Scanned) (h : InBrackets c q s.pending)
    (hname : opensName s.pending = false) (he : topLevel c s = .fault e) :
    ∃ here, here <:+ s.pending ∧ InBrackets c q here ∧ e.At c here := by
  rcases topLevel_eq_fault he with he | he | he | rfl
  · exact ⟨s.pending, List.suffix_rfl, h, range_take (fun _ => rfl) he⟩
  · obtain ⟨ts, here, hp, hts, hrange⟩ := behind_topLevelAssignment hc hs he
    exact ⟨here.pending, hp.pending ▸ List.suffix_append ts _,
      h.passes hp fun t ht => (hts t ht).staysOpen, hrange⟩
  · rcases route_eq_fault he with ⟨-, rfl⟩ | ⟨kind, hkind, -, rfl⟩
    · exact ⟨s.pending, List.suffix_rfl, h, rfl⟩
    have hinner := h.advance_word hc hkind
    rcases hinner.header hc (headed_header kind c _) with ⟨hopen, -⟩ | ⟨-, hafter⟩
    · rw [(opensName_iff hc).2 ⟨⟨kind, hkind⟩, hopen⟩] at hname
      cases hname
    · rw [hafter]
      exact ⟨(s.advance c).pending, Stand.suffix_advance c s, hinner, rfl⟩
  · exact ⟨s.pending, List.suffix_rfl, h, rfl⟩

end InBrackets

/-! ## Going back -/

/-- The brackets of a route that loses its place, from their first token on. -/
theorem exists_of_losesPlace (hc : c.Closed) (h : losesPlace pending = true) :
    ∃ word opening rest q, pending = word :: opening :: rest ∧
      (∃ kind, routeKind? word.token = some kind) ∧ opening.kind = .leftBracket ∧
      InBrackets c q rest ∧ (rest.takeWhile (·.kind ≠ .rightBracket)).any resumes = true := by
  match pending with
  | [] | [_] => cases h
  | word :: opening :: rest =>
    simp only [losesPlace, opensName, Bool.and_eq_true, decide_eq_true_eq, Option.any_eq_true,
      Option.isSome_iff_exists] at h
    obtain ⟨⟨⟨hword, hopen⟩, hplace⟩, q, hafter, hblock⟩ := h
    refine ⟨word, opening, rest, q, rfl, hword, hopen, ⟨hafter, ?_⟩, hplace⟩
    cases q with
    | nil =>
      intro hkind
      have hend := isEnd_eq_false (t := c.closing) hkind (by decide)
      rw [hc] at hend
      cases hend
    | cons t r => simpa using hblock

/-- A route that loses its place fails behind its brackets, and the parse goes on inside them. -/
theorem inBrackets_of_losesPlace (hc : c.Closed) (h : losesPlace s.pending = true)
    (he : topLevel c s = .fault e) :
    ∃ q, e.At c q ∧ InBrackets c q (s.restart false c).pending := by
  obtain ⟨word, opening, rest, q, hpending, ⟨kind, hword⟩, hopen, hinner, hplace⟩ :=
    exists_of_losesPlace hc h
  have hroute : word.kind = .route := (kind_of_routeKind? hword).1
  have hbrackets : InBrackets c q s.pending := by
    rw [hpending]
    refine .cons ?_ ?_ ?_ (.cons ?_ ?_ ?_ hinner) <;> simp [hroute, hopen]
  refine ⟨q, hbrackets.fault_of_opensName hc ?_ he, ?_⟩
  · rw [hpending]
    simp [opensName, hword, hopen]
  · change InBrackets c q (restartFrom false 0 true s.pending)
    rw [hpending, restartFrom_route hroute,
      restartFrom_skippable (skippable_of_kind (by rw [hopen]; decide)).anywhere]
    exact hinner.restartFrom hplace

/-- The construct that fails here is a route that loses its place, and what fails next is not a
route in the same brackets with a name of its own: the parse goes back to tell of it. -/
def goesBack (c : Context) (s : Stand) : Bool :=
  losesPlace s.pending && !opensName (collect topLevel c (s.restart false c)).2.pending

/-- The places of a file where a construct fails and the parse goes on, one after the other. -/
def failures (c : Context) (s : Stand) : List Stand :=
  let here := (collect topLevel c s).2
  if (here.current c).isEnd || (here.keep c).stopped then []
  else if (here.restart false c).pending.length < s.pending.length then
    here :: failures c (here.restart false c)
  else [here]
termination_by s.pending.length

theorem suffix_of_mem_failures (hc : c.Closed) (hu : u ∈ failures c s) :
    u.pending <:+ s.pending := by
  have hhere : ∀ s : Stand, (collect topLevel c s).2.pending <:+ s.pending := fun s =>
    (gathered_collect forward_topLevel hc s).suffix onward_topLevel hc
  fun_induction failures c s with
  | case1 => cases hu
  | case2 s here _ _ ih =>
    rcases List.mem_cons.1 hu with rfl | hu
    · exact hhere s
    · exact (ih hu).trans ((suffix_restart false c here).trans (hhere s))
  | case3 s here =>
    obtain rfl := List.mem_singleton.1 hu
    exact hhere s

/-- The parse goes back at routes that lose their place only. -/
theorem goesBack_eq_false_of_names (hc : c.Closed)
    (hkeeps : ∀ p, p <:+ s.pending → losesPlace p = false) (hu : u ∈ failures c s) :
    goesBack c u = false := by
  rw [goesBack, hkeeps _ (suffix_of_mem_failures hc hu), Bool.false_and]

theorem Gathered.failures_eq_nil (hc : c.Closed) (hg : Gathered topLevel c s xs after)
    (h : ((after.current c).isEnd || (after.keep c).stopped) = true) : failures c s = [] := by
  rw [failures, hg.collect_eq forward_topLevel hc]
  exact if_pos h

theorem Gathered.failures_eq_cons (hc : c.Closed) (hg : Gathered topLevel c s xs after)
    (h : ((after.current c).isEnd || (after.keep c).stopped) = false) :
    failures c s = after :: failures c (after.restart false c) := by
  have hlt : (after.restart false c).pending.length < s.pending.length :=
    Nat.lt_of_lt_of_le (length_restart_lt hc (Bool.or_eq_false_iff.1 h).1 false)
      (hg.suffix onward_topLevel hc).length_le
  rw [failures, hg.collect_eq forward_topLevel hc]
  simp only [h, Bool.false_eq_true, if_false, if_pos hlt]

end Reading

/-- A parse of the tokens nowhere goes back behind a mistake to tell of another. -/
def keepsPlaces (options : ParseOptions) (tokens : List LocatedToken) : Bool :=
  (Reading.failures (.ofTokens options tokens) (.ofTokens tokens)).all fun s =>
    !Reading.goesBack (.ofTokens options tokens) s

end RouteScript.Grammar
