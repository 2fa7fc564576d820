import RouteScript.Proofs.Grammar.Found
/-!
# What repetitions find

The loops of the grammar read up to a mistake, keep it and go on behind it. `Gathered`, `Bodied` and
`Constructed` say what a repetition, a block and a whole file come to, without the branches that no
parse takes: a rule that was given up fails again when it is run for its mistake, and what comes
after the mistake is shorter.
-/
namespace RouteScript.Grammar

variable {c : Context} {s u after : Stand} {x y : Item} {xs ys : List Item} {f : Reading}
  {rs : List ByteRange} {kind : NodeKind} {l : Label} {h : Reading.Header}

/-! ## Restarts -/

/-- A restart skips the token of the mistake at least. -/
theorem length_restartFrom_lt {t : LocatedToken} {rest : List LocatedToken} (inBlock : Bool)
    (ht : t.isEnd = false) :
    (restartFrom inBlock 0 true (t :: rest)).length < (t :: rest).length := by
  have step : ∀ depth first,
      (restartFrom inBlock depth first rest).length < (t :: rest).length := fun depth first =>
    Nat.lt_succ_of_le (restartFrom_suffix inBlock rest depth first).length_le
  have hkind : t.kind ≠ .endOfInput := fun e => by
    simp [LocatedToken.isEnd, Token.isEnd, show t.token.kind = .endOfInput from e] at ht
  unfold restartFrom
  repeat' split
  all_goals first | exact step _ _ | simp_all

/-- After a mistake at a token that does not close the stream, the parse goes on further down. -/
theorem length_restart_lt (hc : c.Closed) (hs : (s.current c).isEnd = false) (inBlock : Bool) :
    (s.restart inBlock c).pending.length < s.pending.length := by
  rw [Stand.restart, Stand.goTo]
  cases hp : s.pending with
  | nil =>
    rw [Stand.current, hp, List.headD_nil, hc] at hs
    cases hs
  | cons t rest =>
    rw [Stand.current, hp, List.headD_cons] at hs
    exact length_restartFrom_lt inBlock hs

theorem suffix_restart (inBlock : Bool) (c : Context) (s : Stand) :
    (s.restart inBlock c).pending <:+ s.pending :=
  restartFrom_suffix ..

theorem afterBracket?_suffix : ∀ (p q : List LocatedToken), afterBracket? p = some q → q <:+ p
  | [], q, h => by cases h
  | t :: rest, q, h => by
    unfold afterBracket? at h
    split at h
    · cases h
    · cases h; exact List.suffix_rfl
    · cases h; exact List.suffix_cons t _
    · exact (afterBracket?_suffix rest q h).trans (List.suffix_cons t rest)

namespace Reading

/-! ## Repetitions -/

/-- What a reading finds until it succeeds no more. -/
inductive Gathered (f : Reading) (c : Context) : Stand → List Item → Stand → Prop
  | stop {s : Stand} : (f c s).outcome ≠ .success → Gathered f c s [] s
  | more {s u after : Stand} {x : Item} {xs : List Item} : f c s = .found x u →
      Gathered f c u xs after → Gathered f c s (x :: xs) after

theorem Gathered.stopped (h : Gathered f c s xs after) : (f c after).outcome ≠ .success := by
  induction h with
  | stop h => exact h
  | more _ _ ih => exact ih

theorem Gathered.suffix (hf : f.Onward) (hc : c.Closed) (h : Gathered f c s xs after) :
    after.pending <:+ s.pending := by
  induction h with
  | stop => exact List.suffix_rfl
  | more h _ ih => exact ih.trans (hf c _ _ _ hc h)

theorem Gathered.collect_eq (hf : f.Forward) (hc : c.Closed) (h : Gathered f c s xs after) :
    collect f c s = (xs, after) := by
  induction h with
  | @stop s h =>
    rw [collect]
    cases hx : f c s with
    | found x u => rw [hx] at h; exact absurd rfl h
    | _ => rfl
  | @more s u after x xs hx _ ih =>
    rw [collect, hx]
    simp only [hf c s x u hc hx, if_true, ih]

theorem gathered_collect (hf : f.Forward) (hc : c.Closed) (s : Stand) :
    Gathered f c s (collect f c s).1 (collect f c s).2 := by
  induction hn : s.pending.length using Nat.strongRecOn generalizing s with
  | ind n ih =>
    rw [collect]
    cases hx : f c s with
    | nothing | fault e => exact .stop (by rw [hx]; simp [Result.outcome])
    | found x u =>
      have hlt := hf c s x u hc hx
      simp only [hlt, if_true]
      exact .more hx (ih _ (hn ▸ hlt) u rfl)

/-! ## Blocks -/

/-- What a block comes to after its brace: items, ranges that its own is widened by, and where the
parse goes on. -/
inductive Bodied (c : Context) : Stand → List Item → List ByteRange → Stand → Prop
  | closed {s here : Stand} {xs : List Item} : Gathered statement c s xs here →
      (here.current c).kind = .rightBrace →
      Bodied c s xs [(here.current c).range] (here.advance c)
  | unclosed {s here : Stand} {xs : List Item} : Gathered statement c s xs here →
      (here.current c).kind ≠ .rightBrace → leavesBlock (here.current c) = true →
      Bodied c s (xs ++ [(Fault.missing "\x7d" c here).item]) [(here.current c).range] (here.keep c)
  | halted {s here : Stand} {xs : List Item} {e : Fault} : Gathered statement c s xs here →
      (here.current c).kind ≠ .rightBrace → leavesBlock (here.current c) = false →
      statement c here = .fault e → (here.keep c).stopped = true →
      Bodied c s (xs ++ [e.item]) [e.range] (here.keep c)
  | resumed {s here after : Stand} {xs ys : List Item} {rs : List ByteRange} {e : Fault} :
      Gathered statement c s xs here → (here.current c).kind ≠ .rightBrace →
      leavesBlock (here.current c) = false → statement c here = .fault e →
      (here.keep c).stopped = false →
      Bodied c (here.restart true c) ys rs after →
      Bodied c s (xs ++ e.item :: ys) (e.range :: rs) after

theorem isEnd_of_leavesBlock {t : LocatedToken} (h : leavesBlock t = false) : t.isEnd = false := by
  simp only [leavesBlock, Bool.or_eq_false_iff] at h
  exact h.1.1

theorem bodied_body (hc : c.Closed) (s : Stand) :
    Bodied c s (body c s).items (body c s).ranges (body c s).after := by
  induction hn : s.pending.length using Nat.strongRecOn generalizing s with
  | ind n ih =>
    have hg := gathered_collect forward_statement hc s
    rw [body]
    generalize collect statement c s = found at hg ⊢
    obtain ⟨xs, here⟩ := found
    simp only at hg ⊢
    by_cases hclose : (here.current c).kind = .rightBrace
    · rw [if_pos hclose]
      exact .closed hg hclose
    rw [if_neg hclose]
    by_cases hleaves : leavesBlock (here.current c) = true
    · rw [if_pos hleaves]
      exact .unclosed hg hclose hleaves
    rw [if_neg hleaves]
    have hleaves := Bool.eq_false_iff.2 hleaves
    cases he : statement c here with
    | nothing => exact absurd he (definite_statement c here)
    | found x u => exact absurd (by rw [he]; rfl) hg.stopped
    | fault e =>
      simp only
      by_cases hstop : (here.keep c).stopped = true
      · rw [if_pos hstop]
        exact .halted hg hclose hleaves he hstop
      have hlt : (here.restart true c).pending.length < s.pending.length :=
        Nat.lt_of_lt_of_le (length_restart_lt hc (isEnd_of_leavesBlock hleaves) true)
          (hg.suffix onward_statement hc).length_le
      rw [if_neg hstop, if_pos hlt]
      have := ih _ (hn ▸ hlt) (here.restart true c) rfl
      have := Bodied.resumed hg hclose hleaves he (Bool.eq_false_iff.2 hstop) this
      simpa [Body.behind] using this

/-- What a block comes to is all that its reading says. -/
theorem Bodied.body_eq (hc : c.Closed) (h : Bodied c s xs rs after) :
    body c s = ⟨xs, rs, after⟩ := by
  induction h with
  | closed hg hclose =>
    rw [body, hg.collect_eq forward_statement hc]
    exact if_pos hclose
  | unclosed hg hclose hleaves =>
    rw [body, hg.collect_eq forward_statement hc]
    exact (if_neg hclose).trans (if_pos hleaves)
  | halted hg hclose hleaves he hstop =>
    rw [body, hg.collect_eq forward_statement hc]
    simp only [if_neg hclose, hleaves, Bool.false_eq_true, if_false, he, if_pos hstop]
  | @resumed s here after xs ys rs e hg hclose hleaves he hgo _ ih =>
    have hlt : (here.restart true c).pending.length < s.pending.length :=
      Nat.lt_of_lt_of_le (length_restart_lt hc (isEnd_of_leavesBlock hleaves) true)
        (hg.suffix onward_statement hc).length_le
    rw [body, hg.collect_eq forward_statement hc]
    simp only [if_neg hclose, hleaves, Bool.false_eq_true, if_false, he, hgo, if_pos hlt, ih,
      Body.behind, List.append_assoc, List.singleton_append]

theorem Bodied.suffix (hc : c.Closed) (h : Bodied c s xs rs after) :
    after.pending <:+ s.pending := by
  induction h with
  | @closed s here xs hg _ =>
    exact (Stand.suffix_advance c here).trans (hg.suffix onward_statement hc)
  | @unclosed s here xs hg | @halted s here xs e hg =>
    exact (hg.suffix onward_statement hc : here.pending <:+ _)
  | @resumed s here after xs ys rs e hg _ _ _ _ _ ih =>
    exact ih.trans ((suffix_restart true c here).trans (hg.suffix onward_statement hc))

theorem suffix_openBlock (hc : c.Closed) (s : Stand) :
    (openBlock c s).2.pending <:+ s.pending :=
  ((bodied_body hc (s.advance c)).suffix hc).trans (Stand.suffix_advance c s)

/-! ## Routes -/

theorem routeName_eq_found : routeName c s = .found x after ↔
    (s.current c).kind = .leftBracket ∧ nameItem? ((s.advance c).current c) = some x ∧
      (((s.advance c).advance c).current c).kind = .rightBracket ∧
      after = ((s.advance c).advance c).advance c := by
  rw [routeName]
  by_cases hopen : (s.current c).kind = .leftBracket
  swap
  · simp [hopen]
  rw [if_pos hopen]
  cases hname : choice [identifier, number, string] c (s.advance c) with
  | nothing | fault e =>
    have := (takesOne_name.outcome_ne_success c (s.advance c)).1 (by simp [hname, Result.outcome])
    simp [this]
  | found y u =>
    obtain ⟨hy, rfl⟩ := (takesOne_name.found ..).1 hname
    simp only [hopen, hy, true_and, Option.some.injEq]
    split
    · rename_i hclose
      simp [hclose, eq_comm]
    · rename_i hclose
      simp [hclose]

theorem definite_routeName : routeName.Definite := by
  intro c s
  rw [routeName]
  repeat' split
  all_goals simp

theorem quiet_routeName : routeName.Quiet := by
  intro c s x after h
  obtain ⟨_, _, _, rfl⟩ := routeName_eq_found.1 h
  simp

theorem suffix_routeName (h : routeName c s = .found x after) : after.pending <:+ s.pending := by
  obtain ⟨_, _, _, rfl⟩ := routeName_eq_found.1 h
  exact (Stand.suffix_advance c _).trans
    ((Stand.suffix_advance c _).trans (Stand.suffix_advance c s))

/-- What can stand between the word of a route and its block. -/
inductive Headed (kind : NodeKind) (c : Context) : Stand → Header → Prop
  | named {s after : Stand} {x : Item} : routeName c s = .found x after →
      Headed kind c s ⟨some (nameRole x), none, after⟩
  | misnamed {s : Stand} {e : Fault} : (s.current c).kind = .leftBracket →
      routeName c s = .fault e →
      Headed kind c s ⟨none, some e, s.goTo ((afterBracket? s.pending).getD s.pending)⟩
  | unnamed {s : Stand} : kind = .route → (s.current c).kind ≠ .leftBracket →
      Headed kind c s ⟨none, some ⟨nameRequired, (s.current c).range⟩, s⟩
  | nameless {s : Stand} : kind ≠ .route → (s.current c).kind ≠ .leftBracket →
      Headed kind c s ⟨none, none, s⟩

theorem headed_header (kind : NodeKind) (c : Context) (s : Stand) :
    Headed kind c s (header kind c s) := by
  rw [header]
  by_cases hopen : (s.current c).kind = .leftBracket
  · rw [if_pos hopen]
    cases hname : routeName c s with
    | nothing => exact absurd hname (definite_routeName c s)
    | fault e => exact .misnamed hopen hname
    | found x after => exact .named hname
  rw [if_neg hopen]
  by_cases hkind : kind = .route
  · rw [if_pos hkind]
    exact .unnamed hkind hopen
  · rw [if_neg hkind]
    exact .nameless hkind hopen

theorem Headed.suffix (hh : Headed kind c s h) : h.after.pending <:+ s.pending := by
  cases hh with
  | named hname => exact suffix_routeName hname
  | misnamed =>
    simp only [Stand.goTo]
    cases hafter : afterBracket? s.pending with
    | none => exact List.suffix_rfl
    | some q => exact afterBracket?_suffix _ _ hafter
  | unnamed | nameless => exact List.suffix_rfl

/-- What is read of a header leaves the mistakes that were kept alone. -/
theorem Headed.goTo (hh : Headed kind c s h) (pending : List LocatedToken) :
    h.after.goTo pending = s.goTo pending := by
  cases hh with
  | named hname => exact quiet_routeName.goTo hname pending
  | misnamed | unnamed | nameless => rfl

theorem suffix_routeFrom (hc : c.Closed) (l : Label) (h : Header) :
    (routeFrom l c h).2.pending <:+ h.after.pending := by
  rw [routeFrom]
  split
  · exact suffix_openBlock hc h.after
  · simp only
    split
    · exact List.suffix_rfl
    · exact suffix_openBlock hc (h.after.keep c)

theorem route_eq_found : route c s = .found x after ↔
    ∃ kind, routeKind? (s.current c).token = some kind ∧
      ((header kind c (s.advance c)).after.current c).kind = .leftBrace ∧
      (x, after) = routeFrom ⟨kind, (header kind c (s.advance c)).role, some (s.current c).range⟩ c
        (header kind c (s.advance c)) := by
  rw [route]
  cases hkind : routeKind? (s.current c).token with
  | none => simp
  | some kind =>
    simp only [Option.some.injEq, exists_eq_left']
    split
    · rename_i hbrace
      simp [hbrace, Prod.ext_iff, eq_comm]
    · rename_i hbrace
      simp [hbrace]

theorem kind_of_routeKind? {t : Token} (h : routeKind? t = some kind) :
    t.kind = .route ∧ ∃ word, t.literal = .text word ∧ NodeKind.ofRouteWord? word = some kind := by
  unfold routeKind? at h
  split at h
  · rename_i word hk hl
    exact ⟨hk, word, hl, h⟩
  · cases h

theorem definite_route : route.Definite := by
  intro c s
  rw [route]
  simp only
  repeat' split
  all_goals simp

theorem suffix_route (hc : c.Closed) (h : route c s = .found x after) :
    after.pending <:+ (s.advance c).pending := by
  obtain ⟨kind, -, -, hx⟩ := route_eq_found.1 h
  rw [show after = (routeFrom _ c (header kind c (s.advance c))).2 from congrArg (·.2) hx]
  exact (suffix_routeFrom hc _ _).trans (headed_header kind c (s.advance c)).suffix

theorem forward_route : route.Forward := by
  intro c s x after hc h
  obtain ⟨kind, hkind, -, -⟩ := route_eq_found.1 h
  have hend := isEnd_eq_false (t := s.current c) (kind_of_routeKind? hkind).1 (by decide)
  exact Nat.lt_of_le_of_lt (suffix_route hc h).length_le (Stand.length_advance_lt hc hend)

/-! ## Whole files -/

theorem construct_eq_found : construct c s = .found x after ↔
    fileStarter c s = .found x after ∨
      (fileStarter c s).outcome ≠ .success ∧ (topLevelAssignment c s = .found x after ∨
        (topLevelAssignment c s).outcome ≠ .success ∧ route c s = .found x after) := by
  rw [construct, choice_cons_eq_found, choice_cons_eq_found, choice_cons_eq_found]
  simp [choice, choiceFrom]

theorem forward_construct : construct.Forward := by
  intro c s x after hc h
  obtain h | ⟨-, h | ⟨-, h⟩⟩ := construct_eq_found.1 h
  · exact takesOne_fileStarter.forward c s x after hc h
  · exact forward_topLevelAssignment c s x after hc h
  · exact forward_route c s x after hc h

theorem onward_construct : construct.Onward := by
  intro c s x after hc h
  obtain h | ⟨-, h | ⟨-, h⟩⟩ := construct_eq_found.1 h
  · exact takesOne_fileStarter.onward c s x after hc h
  · exact onward_topLevelAssignment c s x after hc h
  · exact (suffix_route hc h).trans (Stand.suffix_advance c s)

theorem definite_topLevelAssignment : topLevelAssignment.Definite := by
  intro c s
  rw [topLevelAssignment]
  cases hf : assignment c s with
  | nothing => exact absurd hf (definite_assignment c s)
  | fault e => simp
  | found x after => simp only; split <;> simp

/-- What is run for its mistake after all alternatives failed fails again. -/
theorem outcome_diagnose {r : Result} (hr : r.outcome ≠ .success)
    (h : (construct c s).outcome ≠ .success) : (diagnose r c s).outcome ≠ .success := by
  have hall := outcome_of_choice h
  unfold diagnose
  split
  · exact hall fileStarter (by simp)
  · exact hall topLevelAssignment (by simp)
  · exact hall topLevelAssignment (by simp)
  · exact hall route (by simp)
  · split
    · simp [Result.outcome]
    · exact hr

theorem topLevel_eq_found : topLevel c s = .found x after ↔
    ((s.current c).isEnd || s.stopped) = false ∧
      ∃ y, construct c s = .found y after ∧ x = .covered .topLevel [y] := by
  rw [topLevel]
  by_cases hend : ((s.current c).isEnd || s.stopped) = true
  · simp [hend]
  rw [if_neg hend]
  simp only [Bool.eq_false_iff.2 hend, true_and]
  have hdiagnose := outcome_diagnose (c := c) (s := s) (r := construct c s)
  cases hf : construct c s with
  | found y u => simp [eq_comm, and_comm]
  | nothing | fault e =>
    simp only [reduceCtorEq, false_and, exists_false, iff_false]
    intro hx
    rw [hf] at hdiagnose
    have := hdiagnose (by simp [Result.outcome]) (by simp [Result.outcome])
    rw [hx] at this
    exact this rfl

theorem topLevel_ne_nothing (h : ((s.current c).isEnd || s.stopped) = false) :
    topLevel c s ≠ .nothing := by
  have hdefinite : construct.Definite := definite_choice takesOne_fileStarter.definite _
  rw [topLevel, if_neg (by simp [h])]
  cases hf : construct c s with
  | nothing => exact absurd hf (hdefinite c s)
  | found y u => simp
  | fault e =>
    simp only [diagnose]
    split
    · exact takesOne_fileStarter.definite c s
    · exact definite_topLevelAssignment c s
    · exact definite_topLevelAssignment c s
    · exact definite_route c s
    · simp

theorem forward_topLevel : topLevel.Forward := by
  intro c s x after hc h
  obtain ⟨-, y, hy, -⟩ := topLevel_eq_found.1 h
  exact forward_construct c s y after hc hy

theorem onward_topLevel : topLevel.Onward := by
  intro c s x after hc h
  obtain ⟨-, y, hy, -⟩ := topLevel_eq_found.1 h
  exact onward_construct c s y after hc hy

/-- What a file comes to up to its end, or to where the parse stops. -/
inductive Constructed (c : Context) : Stand → List Item → Stand → Prop
  | ended {s here : Stand} {xs : List Item} : Gathered topLevel c s xs here →
      ((here.current c).isEnd || here.stopped) = true → Constructed c s xs here
  | halted {s here : Stand} {xs : List Item} {e : Fault} : Gathered topLevel c s xs here →
      ((here.current c).isEnd || here.stopped) = false → topLevel c here = .fault e →
      (here.keep c).stopped = true → Constructed c s (xs ++ [e.item]) (here.keep c)
  | resumed {s here after : Stand} {xs ys : List Item} {e : Fault} :
      Gathered topLevel c s xs here → ((here.current c).isEnd || here.stopped) = false →
      topLevel c here = .fault e → (here.keep c).stopped = false →
      Constructed c (here.restart false c) ys after →
      Constructed c s (xs ++ e.item :: ys) after

theorem constructed_constructs (hc : c.Closed) (s : Stand) :
    Constructed c s (constructs c s).1 (constructs c s).2 := by
  induction hn : s.pending.length using Nat.strongRecOn generalizing s with
  | ind n ih =>
    have hg := gathered_collect forward_topLevel hc s
    rw [constructs]
    generalize collect topLevel c s = found at hg ⊢
    obtain ⟨xs, here⟩ := found
    simp only at hg ⊢
    by_cases hend : ((here.current c).isEnd || here.stopped) = true
    · rw [if_pos hend]
      exact .ended hg hend
    rw [if_neg hend]
    have hend := Bool.eq_false_iff.2 hend
    cases he : topLevel c here with
    | nothing => exact absurd he (topLevel_ne_nothing hend)
    | found x u => exact absurd (by rw [he]; rfl) hg.stopped
    | fault e =>
      simp only
      by_cases hstop : (here.keep c).stopped = true
      · rw [if_pos hstop]
        exact .halted hg hend he hstop
      have hlt : (here.restart false c).pending.length < s.pending.length :=
        Nat.lt_of_lt_of_le (length_restart_lt hc (Bool.or_eq_false_iff.1 hend).1 false)
          (hg.suffix onward_topLevel hc).length_le
      rw [if_neg hstop, if_pos hlt]
      exact .resumed hg hend he (Bool.eq_false_iff.2 hstop) (ih _ (hn ▸ hlt) _ rfl)

/-- What a file comes to is all that its reading says. -/
theorem Constructed.constructs_eq (hc : c.Closed) (h : Constructed c s xs after) :
    constructs c s = (xs, after) := by
  induction h with
  | ended hg hend =>
    rw [constructs, hg.collect_eq forward_topLevel hc]
    exact if_pos hend
  | halted hg hend he hstop =>
    rw [constructs, hg.collect_eq forward_topLevel hc]
    simp only [hend, Bool.false_eq_true, if_false, he, if_pos hstop]
  | @resumed s here after xs ys e hg hend he hgo _ ih =>
    have hlt : (here.restart false c).pending.length < s.pending.length :=
      Nat.lt_of_lt_of_le (length_restart_lt hc (Bool.or_eq_false_iff.1 hend).1 false)
        (hg.suffix onward_topLevel hc).length_le
    rw [constructs, hg.collect_eq forward_topLevel hc]
    simp only [hend, Bool.false_eq_true, if_false, he, hgo, if_pos hlt, ih]

end Reading
end RouteScript.Grammar
