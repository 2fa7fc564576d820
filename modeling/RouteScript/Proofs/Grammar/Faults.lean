import RouteScript.Proofs.Grammar.Sound
/-!
# Where faults lie

A rule that fails says so of the token it got stuck at, which may be further on than where it began.
The tokens between are ones that a restart skips, so that the parse never goes on before the mistake
it has just told of. The name of a route is the exception: what is skipped of a name that is not
well formed may hold a place to go on (`losesPlace`).
-/
namespace RouteScript.Grammar

variable {c : Context} {s u after : Stand} {x : Item} {xs : List Item} {e : Fault}
  {fs : List Reading} {t : LocatedToken} {ts rest pending : List LocatedToken}
  {inBlock first : Bool} {kind : NodeKind} {h : Reading.Header}

/-! ## What a restart skips -/

/-- A restart skips the token: the parse goes on neither at it nor behind it. -/
structure Skippable (inBlock : Bool) (t : LocatedToken) : Prop where
  stays : leavesBlock t = false
  opens : t.kind ≠ .leftBrace
  ends : t.kind ≠ .semicolon
  closes : inBlock = true → t.kind ≠ .rightBrace

theorem Skippable.anywhere (h : Skippable true t) : Skippable inBlock t :=
  { h with closes := fun _ => h.closes rfl }

theorem Skippable.ne_endOfInput (h : Skippable inBlock t) : t.kind ≠ .endOfInput := fun e => by
  have hstays := h.stays
  simp [leavesBlock, LocatedToken.isEnd, Token.isEnd, show t.token.kind = .endOfInput from e]
    at hstays

/-- The kinds of the tokens that assignments and names are made of. -/
def innerKinds : List TokenKind :=
  [.identifier, .coreVariable, .integer, .string, .assign, .leftBracket, .rightBracket]

theorem skippable_of_kind (h : t.kind ∈ innerKinds) : Skippable true t := by
  have hkinds : ∀ kind ∈ innerKinds, kind ≠ .endOfInput ∧ kind ≠ .route ∧ kind ≠ .directive ∧
      kind ≠ .leftBrace ∧ kind ≠ .semicolon ∧ kind ≠ .rightBrace := by decide
  obtain ⟨hend, hroute, hdirective, hleft, hsemicolon, hright⟩ := hkinds _ h
  refine ⟨?_, hleft, hsemicolon, fun _ => hright⟩
  simp [leavesBlock, isEnd_eq_false rfl hend, hroute, hdirective]

/-- A restart skips the token, which does not close brackets either. -/
structure Plain (t : LocatedToken) : Prop where
  skippable : Skippable true t
  staysOpen : t.kind ≠ .rightBracket

theorem plain_of_kind
    (h : t.kind ∈ [TokenKind.identifier, .coreVariable, .integer, .string, .assign]) :
    Plain t := by
  have hkinds : ∀ kind ∈ [TokenKind.identifier, .coreVariable, .integer, .string, .assign],
      kind ∈ innerKinds ∧ kind ≠ .rightBracket := by decide
  obtain ⟨hinner, hopen⟩ := hkinds _ h
  exact ⟨skippable_of_kind hinner, hopen⟩

theorem restartFrom_skippable (h : Skippable inBlock t) :
    restartFrom inBlock 0 first (t :: rest) = restartFrom inBlock 0 false rest := by
  have hend := h.ne_endOfInput
  obtain ⟨hstays, hleft, hsemicolon, hright⟩ := h
  simp only [leavesBlock, Bool.or_eq_false_iff, decide_eq_false_iff_not] at hstays
  rw [restartFrom]
  split
  · contradiction
  · exact absurd ‹t.kind = .route› hstays.1.2
  · exact absurd ‹t.kind = .directive› hstays.2
  · contradiction
  · rename_i hkind
    rw [if_pos rfl, if_neg fun hb => hright hb.1 hkind]
  · contradiction
  · rfl

/-- A restart goes past tokens that it skips. -/
theorem restartFrom_skips : ∀ {ts : List LocatedToken} (first : Bool),
    (∀ t ∈ ts, Skippable inBlock t) → restartFrom inBlock 0 first (ts ++ rest) <:+ rest
  | [], first, _ => restartFrom_suffix inBlock rest 0 first
  | t :: ts, first, h => by
    obtain ⟨ht, hts⟩ := List.forall_mem_cons.1 h
    rw [List.cons_append, restartFrom_skippable ht]
    exact restartFrom_skips false hts

theorem restartFrom_route (ht : t.kind = .route) :
    restartFrom inBlock 0 true (t :: rest) = restartFrom inBlock 0 false rest := by
  simp [restartFrom, ht]

/-! ## Sequences -/

namespace Reading

/-- The first of the readings that fails, behind what those before it find. -/
inductive FailsInTurn (c : Context) (e : Fault) : List Reading → Stand → Prop
  | here {f : Reading} {fs : List Reading} {s : Stand} : f c s = .fault e →
      FailsInTurn c e (f :: fs) s
  | later {f : Reading} {fs : List Reading} {s u : Stand} {x : Item} : f c s = .found x u →
      FailsInTurn c e fs u → FailsInTurn c e (f :: fs) s

theorem sequenceFrom_eq_fault (hd : ∀ f ∈ fs, f.Definite) : ∀ {xs : List Item} {s : Stand},
    sequenceFrom kind c xs s fs = .fault e → FailsInTurn c e fs s := by
  induction fs with
  | nil => exact fun h => Result.noConfusion h
  | cons f fs ih =>
    intro xs s h
    rw [sequenceFrom] at h
    cases hf : f c s with
    | nothing => exact absurd hf (hd f (by simp) c s)
    | fault e' =>
      rw [hf] at h
      cases h
      exact .here hf
    | found x u =>
      rw [hf] at h
      exact .later hf (ih (fun g hg => hd g (by simp [hg])) h)

/-! ## What rules fail with -/

theorem assignment_eq_fault (h : assignment c s = .fault e) : operands c s = .fault e := by
  rw [assignment] at h
  cases hf : operands c s with
  | nothing => exact absurd hf (definite_operands c s)
  | found x u => rw [hf] at h; cases h
  | fault e' => rwa [hf] at h

theorem topLevelAssignment_eq_fault (h : topLevelAssignment c s = .fault e) :
    assignment c s = .fault e := by
  rw [topLevelAssignment] at h
  cases hf : assignment c s with
  | nothing => exact absurd hf (definite_assignment c s)
  | found x u =>
    rw [hf] at h
    simp only at h
    split at h <;> cases h
  | fault e' => rwa [hf] at h

/-- A name in brackets fails at its opening bracket, at the name, or behind it. -/
theorem routeName_eq_fault (h : routeName c s = .fault e) :
    (s.current c).kind ≠ .leftBracket ∧ e = .missing "[" c s ∨
      e = .missing "route name" c (s.advance c) ∨
      ∃ x, nameItem? ((s.advance c).current c) = some x ∧
        e = .missing "]" c ((s.advance c).advance c) := by
  rw [routeName] at h
  split at h
  · cases hname : choice [identifier, number, string] c (s.advance c) with
    | nothing | fault e' =>
      rw [hname] at h
      cases h
      exact .inr (.inl rfl)
    | found x u =>
      rw [hname] at h
      obtain ⟨hx, rfl⟩ := (takesOne_name.found ..).1 hname
      simp only at h
      split at h
      · cases h
      · cases h
        exact .inr (.inr ⟨x, hx, rfl⟩)
  · rename_i hopen
    cases h
    exact .inl ⟨hopen, rfl⟩

/-- A route fails at its word or, whatever its name, behind the name. -/
theorem route_eq_fault (h : route c s = .fault e) :
    routeKind? (s.current c).token = none ∧ e = .missing "route" c s ∨
    ∃ kind, routeKind? (s.current c).token = some kind ∧
      ((header kind c (s.advance c)).after.current c).kind ≠ .leftBrace ∧
      e = .missing "\x7b" c (header kind c (s.advance c)).after := by
  rw [route] at h
  simp only at h
  split at h
  · rename_i hnone
    cases h
    exact .inl ⟨hnone, rfl⟩
  · rename_i kind hkind
    split at h
    · cases h
    · rename_i hbrace
      cases h
      exact .inr ⟨kind, hkind, hbrace, rfl⟩

/-- A construct of a file fails as the one does that the current token looks like the start of. -/
theorem topLevel_eq_fault (h : topLevel c s = .fault e) : fileStarter c s = .fault e ∨
    topLevelAssignment c s = .fault e ∨ route c s = .fault e ∨
      e = .missing "top level statement" c s := by
  rw [topLevel] at h
  split at h
  · cases h
  cases hx : construct c s with
  | found x u => rw [hx] at h; cases h
  | nothing => exact absurd hx (definite_choice takesOne_fileStarter.definite _ c s)
  | fault e' =>
    rw [hx] at h
    simp only [diagnose] at h
    split at h
    · exact .inl h
    · exact .inr (.inl h)
    · exact .inr (.inl h)
    · exact .inr (.inr (.inl h))
    · cases h
      exact .inr (.inr (.inr rfl))

/-- A construct of a file that begins with the word of a route fails as a route. -/
theorem route_eq_fault_of_topLevel (hword : (s.current c).kind = .route)
    (h : topLevel c s = .fault e) : route c s = .fault e := by
  rw [topLevel] at h
  split at h
  · cases h
  cases hx : construct c s with
  | found x u => rw [hx] at h; cases h
  | nothing | fault e' =>
    rw [hx] at h
    simpa only [diagnose, hword] using h

/-! ## Single tokens -/

theorem range_take {item? : LocatedToken → Option Item} {fault : Context → Stand → Fault}
    (hfault : ∀ s, (fault c s).range = (s.current c).range) (h : take item? fault c s = .fault e) :
    e.range = (s.current c).range := by
  rw [take] at h
  split at h
  · cases h
  · cases h
    exact hfault s

theorem range_orMissing {f : Reading} {what : String} (h : f.orMissing what c s = .fault e) :
    e.range = (s.current c).range := by
  rw [orMissing] at h
  split at h
  · cases h
  · cases h
    rfl

theorem kind_coreVariableItem? (ht : t.token.Scanned) (h : coreVariableItem? t = some x) :
    t.kind = .coreVariable := by
  obtain ⟨-, family, name, _, hlit, -, -⟩ := coreVariableItem?_eq_some.1 h
  rw [LocatedToken.kind, ht.kind_of_coreVariable hlit]

theorem plain_targetItem? (ht : t.token.Scanned) (h : targetItem? t = some x) : Plain t := by
  refine plain_of_kind ?_
  rcases targetItem?_eq_some.1 h with h | ⟨-, h⟩
  · rw [(oneItem?_eq_some.1 h).1]
    decide
  · rw [kind_coreVariableItem? ht h]
    decide

theorem plain_valueItem? (ht : t.token.Scanned) (h : valueItem? t = some x) : Plain t := by
  refine plain_of_kind ?_
  rcases valueItem?_eq_some.1 h with h | ⟨-, h | ⟨-, h⟩⟩
  · obtain ⟨n, hkind, -, -⟩ := numberItem?_eq_some.1 h
    rw [hkind]
    decide
  · rw [(oneItem?_eq_some.1 h).1]
    decide
  · rw [kind_coreVariableItem? ht h]
    decide

theorem plain_assignItem? (h : assignItem? t = some x) : Plain t := by
  refine plain_of_kind ?_
  rw [(oneItem?_eq_some.1 h).1]
  decide

/-! ## Assignments and statements -/

end Reading

/-- The fault lies at a token behind plain ones. -/
def Fault.Behind (c : Context) (s : Stand) (e : Fault) : Prop :=
  ∃ ts here, s.Passes ts here ∧ (∀ t ∈ ts, Plain t) ∧ e.range = (here.current c).range

theorem Fault.Behind.of_range (h : e.range = (s.current c).range) : e.Behind c s :=
  ⟨[], s, .refl s, by simp, h⟩

/-- What lies behind more plain tokens. -/
theorem Fault.Behind.passes (h : e.Behind c u) (hp : s.Passes ts u) (hts : ∀ t ∈ ts, Plain t) :
    e.Behind c s := by
  obtain ⟨us, here, hp', hus, hrange⟩ := h
  exact ⟨ts ++ us, here, hp.trans hp', List.forall_mem_append.2 ⟨hts, hus⟩, hrange⟩

/-- The fault lies at the first of these tokens, or at the end of the stream if there are none. -/
def Fault.At (c : Context) (here : List LocatedToken) (e : Fault) : Prop :=
  e.range = (here.headD c.closing).range

/-- A restart does not go back before the fault. -/
theorem Fault.Behind.restart (h : e.Behind c s) (inBlock : Bool) : ∃ here,
    here <:+ s.pending ∧ e.At c here ∧ (s.restart inBlock c).pending <:+ here := by
  obtain ⟨ts, here, hp, hts, hrange⟩ := h
  refine ⟨here.pending, hp.pending ▸ List.suffix_append ts _, hrange, ?_⟩
  change restartFrom inBlock 0 true s.pending <:+ here.pending
  rw [hp.pending]
  exact restartFrom_skips true fun t ht => (hts t ht).skippable.anywhere

namespace Reading

theorem passes_assignment (hc : c.Closed) (hs : s.Scanned) (h : assignment c s = .found x after) :
    ∃ ts, s.Passes ts after ∧ (∀ t ∈ ts, Plain t) ∧ after.Scanned := by
  obtain ⟨left, op, right, hleft, hop, hright, -, rfl⟩ := assignment_eq_found.1 h
  obtain ⟨hp₁, ht₁, hs₁⟩ := takesOne_target.passes hc hs hleft
  obtain ⟨hp₂, -, hs₂⟩ := takesOne_assignOperator.passes hc hs₁ hop
  obtain ⟨hp₃, ht₃, hs₃⟩ := takesOne_value.passes hc hs₂ hright
  refine ⟨_, (hp₁.trans hp₂).trans hp₃, ?_, hs₃⟩
  simp only [List.cons_append, List.nil_append, List.forall_mem_cons, List.not_mem_nil,
    false_implies, implies_true, and_true]
  exact ⟨plain_targetItem? ht₁ hleft, plain_assignItem? hop,
    plain_valueItem? ht₃ hright⟩

theorem behind_operands (hc : c.Closed) (hs : s.Scanned) (h : operands c s = .fault e) :
    e.Behind c s := by
  have hfails := sequenceFrom_eq_fault (by
    simp [takesOne_target.definite, takesOne_assignOperator.definite, takesOne_value.definite]) h
  cases hfails with
  | here h => exact .of_range (range_orMissing h)
  | later hx hfails =>
    obtain ⟨hleft, rfl⟩ := (takesOne_target.found ..).1 hx
    obtain ⟨hp₁, ht₁, hs₁⟩ := takesOne_target.passes hc hs hleft
    refine Fault.Behind.passes ?_ hp₁
      (List.forall_mem_singleton.2 (plain_targetItem? ht₁ hleft))
    cases hfails with
    | here h => exact .of_range (range_take (fun _ => rfl) h)
    | later hx hfails =>
      obtain ⟨hop, rfl⟩ := (takesOne_assignOperator.found ..).1 hx
      obtain ⟨hp₂, -, hs₂⟩ := takesOne_assignOperator.passes hc hs₁ hop
      refine Fault.Behind.passes ?_ hp₂ (List.forall_mem_singleton.2 (plain_assignItem? hop))
      cases hfails with
      | here h => exact .of_range (range_orMissing h)
      | later _ hfails => cases hfails

theorem behind_assignment (hc : c.Closed) (hs : s.Scanned) (h : assignment c s = .fault e) :
    e.Behind c s :=
  behind_operands hc hs (assignment_eq_fault h)

theorem behind_statement (hc : c.Closed) (hs : s.Scanned) (h : statement c s = .fault e) :
    e.Behind c s := by
  have hfails := sequenceFrom_eq_fault (by
    simp [definite_assignment, takesOne_terminator.definite]) h
  cases hfails with
  | here h => exact behind_assignment hc hs h
  | later hx hfails =>
    obtain ⟨ts, hp, hts, -⟩ := passes_assignment hc hs hx
    refine Fault.Behind.passes ?_ hp hts
    cases hfails with
    | here h => exact .of_range (range_take (fun _ => rfl) h)
    | later _ hfails => cases hfails

theorem behind_topLevelAssignment (hc : c.Closed) (hs : s.Scanned)
    (h : topLevelAssignment c s = .fault e) : e.Behind c s :=
  behind_assignment hc hs (topLevelAssignment_eq_fault h)

/-! ## Routes -/

theorem plain_nameItem? (h : nameItem? t = some x) : Plain t := by
  refine plain_of_kind ?_
  rcases nameItem?_eq_some.1 h with h | ⟨-, h | ⟨-, h⟩⟩
  · rw [(oneItem?_eq_some.1 h).1]
    decide
  · obtain ⟨n, hkind, -, -⟩ := numberItem?_eq_some.1 h
    rw [hkind]
    decide
  · rw [(oneItem?_eq_some.1 h).1]
    decide

theorem afterBracket?_leftBracket (ht : t.kind = .leftBracket) :
    afterBracket? (t :: rest) = afterBracket? rest := by
  simp [afterBracket?, ht]

theorem afterBracket?_plain (ht : Plain t) : afterBracket? (t :: rest) = afterBracket? rest := by
  have hend := ht.skippable.ne_endOfInput
  have hleft := ht.skippable.opens
  have hright := ht.staysOpen
  rw [afterBracket?]
  split
  · contradiction
  · contradiction
  · contradiction
  · rfl

/-- The mistake in a name lies before what comes after the brackets. -/
theorem at_routeName (hc : c.Closed) (hs : s.Scanned) (hopen : (s.current c).kind = .leftBracket)
    (h : routeName c s = .fault e) : ∃ here, here <:+ s.pending ∧ e.At c here ∧
      ∀ q, afterBracket? s.pending = some q → q <:+ here := by
  obtain ⟨hp, hs₁⟩ := Stand.passes_of_kind hc hs hopen (by decide)
  have hafter : afterBracket? s.pending = afterBracket? (s.advance c).pending := by
    rw [hp.pending, List.singleton_append, afterBracket?_leftBracket hopen]
  have hopened : (s.advance c).pending <:+ s.pending := Stand.suffix_advance c s
  rcases routeName_eq_fault h with ⟨hkind, -⟩ | rfl | ⟨x, hx, rfl⟩
  · exact absurd hopen hkind
  · exact ⟨(s.advance c).pending, hopened, rfl, fun q hq => afterBracket?_suffix _ _ (hafter ▸ hq)⟩
  · obtain ⟨hp₁, -, -⟩ := takesOne_name.passes hc hs₁ hx
    refine ⟨((s.advance c).advance c).pending, (Stand.suffix_advance c _).trans hopened, rfl,
      fun q hq => ?_⟩
    rw [hafter, hp₁.pending, List.singleton_append, afterBracket?_plain (plain_nameItem? hx)] at hq
    exact afterBracket?_suffix _ _ hq

end Reading

/-! ## Names that hold a place to go on -/

/-- Outside of braces the parse may go on at the token or behind it. -/
def resumes (t : LocatedToken) : Bool := t.kind ∈ [TokenKind.semicolon, .route, .directive]

/-- The word of a route with a bracket behind it. -/
def opensName : List LocatedToken → Bool
  | word :: opening :: _ => (routeKind? word.token).isSome && opening.kind = .leftBracket
  | _ => false

/-- After the word of a route come brackets that hold a place to go on, and then no block. The route
fails behind the brackets, but the parse goes on inside them. -/
def losesPlace : List LocatedToken → Bool
  | word :: opening :: rest =>
    opensName (word :: opening :: rest) &&
      (rest.takeWhile (·.kind ≠ .rightBracket)).any resumes &&
      (afterBracket? rest).any fun q => q.head?.all (·.kind ≠ .leftBrace)
  | _ => false

/-- What comes after brackets: a brace that opens before they close, or what stands behind the first
closing one. -/
theorem afterBracket?_cases : ∀ {p q : List LocatedToken}, afterBracket? p = some q →
    (∃ t r, q = t :: r ∧ t.kind = .leftBrace) ∨
    ∃ close, close.kind = .rightBracket ∧
      p = p.takeWhile (·.kind ≠ .rightBracket) ++ close :: q ∧
      ∀ t ∈ p.takeWhile (·.kind ≠ .rightBracket), t.kind ≠ .leftBrace ∧ t.kind ≠ .endOfInput
  | [], _, h => by cases h
  | t :: rest, q, h => by
    rw [afterBracket?] at h
    split at h
    · cases h
    · rename_i hkind
      cases h
      exact .inl ⟨t, rest, rfl, hkind⟩
    · rename_i hkind
      cases h
      exact .inr ⟨t, hkind, by simp [hkind], by simp [hkind]⟩
    · rename_i hend hleft hright
      have hskip : (t :: rest).takeWhile (·.kind ≠ .rightBracket) =
          t :: rest.takeWhile (·.kind ≠ .rightBracket) :=
        List.takeWhile_cons_of_pos (by simpa using hright)
      refine (afterBracket?_cases h).imp_right ?_
      rintro ⟨close, hclose, hrest, hinner⟩
      rw [hskip]
      exact ⟨close, hclose, by rw [List.cons_append, ← hrest],
        List.forall_mem_cons.2 ⟨⟨hleft, hend⟩, hinner⟩⟩

theorem skippable_of_resumes (h : resumes t = false) (hleft : t.kind ≠ .leftBrace)
    (hend : t.kind ≠ .endOfInput) : Skippable false t := by
  simp only [resumes, List.mem_cons, List.not_mem_nil, or_false, decide_eq_false_iff_not,
    not_or] at h
  obtain ⟨hsemicolon, hroute, hdirective⟩ := h
  exact ⟨by simp [leavesBlock, isEnd_eq_false rfl hend, hroute, hdirective], hleft, hsemicolon,
    fun h => Bool.noConfusion h⟩

/-- Brackets that hold no place to go on are skipped by a restart. -/
theorem restartFrom_brackets {word opening : LocatedToken} {q : List LocatedToken}
    (hword : routeKind? word.token = some kind) (hopen : opening.kind = .leftBracket)
    (hafter : afterBracket? rest = some q) (hbrace : (q.headD c.closing).kind ≠ .leftBrace)
    (h : losesPlace (word :: opening :: rest) = false) :
    restartFrom false 0 first (opening :: rest) <:+ q := by
  rcases afterBracket?_cases hafter with ⟨t, r, rfl, hkind⟩ | ⟨close, hclose, hrest, hinner⟩
  · exact absurd hkind hbrace
  have hnone : ∀ t ∈ rest.takeWhile (·.kind ≠ .rightBracket), resumes t = false := by
    have hhead : q.head?.all (·.kind ≠ .leftBrace) = true := by
      cases q with
      | nil => rfl
      | cons t r => simpa using hbrace
    simp only [losesPlace, opensName, hword, hopen, hafter, Option.any_some, Option.isSome_some,
      hhead, decide_true, Bool.true_and, Bool.and_true] at h
    simpa using h
  have hinside : ∀ t ∈ opening :: (rest.takeWhile (·.kind ≠ .rightBracket) ++ [close]),
      Skippable false t := by
    refine List.forall_mem_cons.2 ⟨?_, List.forall_mem_append.2 ⟨fun t ht => ?_, ?_⟩⟩
    · exact (skippable_of_kind (by rw [hopen]; decide)).anywhere
    · exact skippable_of_resumes (hnone t ht) (hinner t ht).1 (hinner t ht).2
    · exact List.forall_mem_singleton.2 (skippable_of_kind (by rw [hclose]; decide)).anywhere
  have hsplit : opening :: rest =
      (opening :: (rest.takeWhile (·.kind ≠ .rightBracket) ++ [close])) ++ q := by
    conv => lhs; rw [hrest]
    simp
  rw [hsplit]
  exact restartFrom_skips first hinside

namespace Reading

theorem passes_routeName (hc : c.Closed) (hs : s.Scanned) (h : routeName c s = .found x after) :
    ∃ ts, s.pending = ts ++ after.pending ∧ ∀ t ∈ ts, Skippable true t := by
  obtain ⟨hopen, hname, hclose, rfl⟩ := routeName_eq_found.1 h
  obtain ⟨hp₁, hs₁⟩ := Stand.passes_of_kind hc hs hopen (by decide)
  obtain ⟨hp₂, -, hs₂⟩ := takesOne_name.passes hc hs₁ hname
  obtain ⟨hp₃, -⟩ := Stand.passes_of_kind hc hs₂ hclose (by decide)
  refine ⟨_, ((hp₁.trans hp₂).trans hp₃).pending, ?_⟩
  simp only [List.cons_append, List.nil_append, List.forall_mem_cons, List.not_mem_nil,
    false_implies, implies_true, and_true]
  exact ⟨skippable_of_kind (by rw [hopen]; decide), (plain_nameItem? hname).skippable,
    skippable_of_kind (by rw [hclose]; decide)⟩

/-- A restart from behind the word of a route goes past the name, unless that holds a place to go
on. -/
theorem Headed.restart (hh : Headed kind c s h) (hc : c.Closed) (hs : s.Scanned)
    (hword : routeKind? t.token = some kind) (hbrace : (h.after.current c).kind ≠ .leftBrace)
    (hkeeps : losesPlace (t :: s.pending) = false) :
    restartFrom false 0 false s.pending <:+ h.after.pending := by
  cases hh with
  | named hname =>
    obtain ⟨ts, hpending, hts⟩ := passes_routeName hc hs hname
    rw [hpending]
    exact restartFrom_skips false fun t ht => (hts t ht).anywhere
  | misnamed hopen hname =>
    obtain ⟨hp, -⟩ := Stand.passes_of_kind hc hs hopen (by decide)
    have hbrace : (((afterBracket? s.pending).getD s.pending).headD c.closing).kind ≠ .leftBrace :=
      hbrace
    show restartFrom false 0 false s.pending <:+ (afterBracket? s.pending).getD s.pending
    rw [hp.pending, List.singleton_append] at hkeeps hbrace ⊢
    rw [afterBracket?_leftBracket hopen] at hbrace ⊢
    cases hafter : afterBracket? (s.advance c).pending with
    | none => exact restartFrom_suffix ..
    | some q =>
      rw [hafter] at hbrace
      exact restartFrom_brackets hword hopen hafter hbrace hkeeps
  | unnamed | nameless => exact restartFrom_suffix ..

/-! ## Where rules fail -/

/-- The fault lies at a token still to read, and a restart does not go back before it unless the
name of a route holds a place to go on. -/
def Met (c : Context) (s : Stand) (e : Fault) : Prop :=
  ∃ here, here <:+ s.pending ∧ e.At c here ∧
    (losesPlace s.pending = false → (s.restart false c).pending <:+ here)

theorem met_of_range (h : e.range = (s.current c).range) : Met c s e :=
  ⟨s.pending, List.suffix_rfl, h, fun _ => suffix_restart false c s⟩

theorem met_of_behind (h : e.Behind c s) : Met c s e := by
  obtain ⟨here, hhere, hat, hrestart⟩ := h.restart false
  exact ⟨here, hhere, hat, fun _ => hrestart⟩

theorem met_route (hc : c.Closed) (hs : s.Scanned) (h : route c s = .fault e) : Met c s e := by
  rcases route_eq_fault h with ⟨-, rfl⟩ | ⟨kind, hkind, hbrace, rfl⟩
  · exact met_of_range rfl
  · have hroute : (s.current c).kind = .route := (kind_of_routeKind? hkind).1
    obtain ⟨hp, hs₁⟩ := Stand.passes_of_kind hc hs hroute (by decide)
    have hheaded := headed_header kind c (s.advance c)
    generalize header kind c (s.advance c) = found at hbrace hheaded ⊢
    refine ⟨found.after.pending, hheaded.suffix.trans (Stand.suffix_advance c s), rfl,
      fun hkeeps => ?_⟩
    rw [hp.pending, List.singleton_append] at hkeeps
    have hrestart : (s.restart false c).pending =
        restartFrom false 0 false (s.advance c).pending := by
      rw [← restartFrom_route hroute, ← List.singleton_append, ← hp.pending]
      rfl
    rw [hrestart]
    exact hheaded.restart hc hs₁ hkind hbrace hkeeps

/-- A construct of a file fails at a token that the parse does not go back behind, unless it is a
route with a place to go on in its name. -/
theorem met_topLevel (hc : c.Closed) (hs : s.Scanned) (h : topLevel c s = .fault e) :
    Met c s e := by
  rcases topLevel_eq_fault h with h | h | h | rfl
  · exact met_of_range (range_take (fun _ => rfl) h)
  · exact met_of_behind (behind_topLevelAssignment hc hs h)
  · exact met_route hc hs h
  · exact met_of_range rfl

end Reading
end RouteScript.Grammar
