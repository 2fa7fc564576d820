import RouteScript.Proofs.Grammar.Sound
/-!
# What derives is read

The readings find what the grammar derives: over tokens that derive from a symbol, its reading
comes to the item of the derivation and stands behind them. What comes after a repetition has to
end it, and after an assignment at the top level no semicolon may come, since the reading would
take it along; in the stream of a source it is so.
-/
namespace RouteScript.Grammar

open Item

variable {c : Context} {s u after : Stand} {ts us : List LocatedToken} {t : LocatedToken}
  {tokens : List Token} {x : Item} {xs : List Item} {role : String}

namespace Stand

theorem Passes.eq_of_nil (h : s.Passes [] after) : s = after := h

theorem Passes.step (h : s.Passes (t :: ts) after) (ht : t.isEnd = false) (c : Context) :
    s.current c = t ∧ (s.advance c).Passes ts after := by
  have hcurrent : s.current c = t := by rw [current, h.pending]; rfl
  refine ⟨hcurrent, ?_⟩
  rw [advance, hcurrent, if_neg (by rw [ht]; decide), h]
  rfl

theorem Passes.split (h : s.Passes (ts ++ us) after) : ∃ u, s.Passes ts u ∧ u.Passes us after :=
  ⟨after.goTo (us ++ after.pending), by rw [Passes, h, List.append_assoc]; rfl, rfl⟩

end Stand

namespace Reading

/-! ## Single tokens -/

theorem derived_variable (h : Derives.Variable role t.token x) : t.kind = .coreVariable ∧
    ∃ y, coreVariableItem? t = some y ∧ (y.withRole role).unranged = x := by
  obtain ⟨token, range⟩ := t
  cases h with
  | script => exact ⟨rfl, _, coreVariableItem?_eq_some.2 ⟨rfl, _, _, _, rfl, rfl, rfl⟩, rfl⟩
  | avp => exact ⟨rfl, _, coreVariableItem?_eq_some.2 ⟨rfl, _, _, _, rfl, rfl, rfl⟩, rfl⟩

theorem oneItem?_of_ne {kind : TokenKind} {node : Token → Node} (h : t.kind ≠ kind) :
    oneItem? kind node t = none := if_neg h

theorem numberItem?_of_ne (h : t.kind ≠ .integer) : numberItem? t = none := by
  rw [Option.eq_none_iff_forall_ne_some]
  intro x hx
  obtain ⟨_, hkind, _⟩ := numberItem?_eq_some.1 hx
  exact h hkind

theorem coreVariableItem?_of_ne (ht : t.token.Scanned) (h : t.kind ≠ .coreVariable) :
    coreVariableItem? t = none := by
  rw [Option.eq_none_iff_forall_ne_some]
  intro x hx
  obtain ⟨-, _, _, _, hlit, -⟩ := coreVariableItem?_eq_some.1 hx
  exact h (congrArg Token.kind (ht.kind_of_coreVariable hlit))

theorem targetItem?_of_ne (ht : t.token.Scanned) (hi : t.kind ≠ .identifier)
    (hv : t.kind ≠ .coreVariable) : targetItem? t = none := by
  rw [targetItem?, identifierItem?, oneItem?_of_ne hi, coreVariableItem?_of_ne ht hv]
  rfl

theorem derived_target (h : Derives.Target t.token x) :
    (t.kind = .identifier ∨ t.kind = .coreVariable) ∧
      ∃ y, targetItem? t = some y ∧ (y.withRole "left").unranged = x := by
  obtain ⟨token, range⟩ := t
  cases h with
  | identifier => exact ⟨.inl rfl, _, rfl, rfl⟩
  | coreVariable h =>
    obtain ⟨hkind, y, hy, hx⟩ := derived_variable (t := ⟨token, range⟩) h
    refine ⟨.inr hkind, y, ?_, hx⟩
    rw [targetItem?, identifierItem?, oneItem?_of_ne (by rw [hkind]; decide), hy]
    rfl

theorem derived_value (h : Derives.Value t.token x) :
    ∃ y, valueItem? t = some y ∧ (y.withRole "right").unranged = x := by
  obtain ⟨token, range⟩ := t
  cases h with
  | number => exact ⟨_, rfl, rfl⟩
  | string => exact ⟨_, rfl, rfl⟩
  | coreVariable h =>
    obtain ⟨hkind, y, hy, hx⟩ := derived_variable (t := ⟨token, range⟩) h
    refine ⟨y, ?_, hx⟩
    rw [valueItem?, numberItem?_of_ne (by rw [hkind]; decide), stringItem?,
      oneItem?_of_ne (by rw [hkind]; decide), hy]
    rfl

theorem derived_word (h : Derives.Word t.token role) :
    ∃ y, nameItem? t = some y ∧ nameRole y = role := by
  obtain ⟨token, range⟩ := t
  cases h with
  | identifier => exact ⟨_, rfl, rfl⟩
  | number => exact ⟨_, rfl, rfl⟩
  | string => exact ⟨_, rfl, rfl⟩

/-! ## Statements and blocks -/

theorem derived_assignment (h : Derives.Assignment tokens x) (ht : ts.map (·.token) = tokens)
    (hp : s.Passes ts after) (c : Context) :
    ((s.current c).kind = .identifier ∨ (s.current c).kind = .coreVariable) ∧
      ∃ y, assignment c s = .found y after ∧ y.unranged = x := by
  obtain ⟨hleft, hop, hright⟩ := h
  obtain ⟨a, ts₁, rfl, rfl, ht₁⟩ := List.map_eq_cons_iff.1 ht
  obtain ⟨b, ts₂, rfl, rfl, ht₂⟩ := List.map_eq_cons_iff.1 ht₁
  obtain ⟨d, ts₃, rfl, rfl, ht₃⟩ := List.map_eq_cons_iff.1 ht₂
  obtain rfl := List.map_eq_nil_iff.1 ht₃
  obtain ⟨hkind, left, hl, rfl⟩ := derived_target hleft
  obtain ⟨right, hr, rfl⟩ := derived_value hright
  have hassign : assignItem? b = some _ := if_pos hop
  obtain ⟨ha, hp⟩ := hp.step (takesOne_target.notEnd _ _ hl) c
  obtain ⟨hb, hp⟩ := hp.step (isEnd_eq_false hop (by decide)) c
  obtain ⟨hd, hp⟩ := hp.step (takesOne_value.notEnd _ _ hr) c
  rw [← ha] at hl hkind
  rw [← hb] at hassign
  rw [← hd] at hr
  exact ⟨hkind, _, assignment_eq_found.2
    ⟨left, _, right, hl, hassign, hr, rfl, hp.eq_of_nil.symm⟩, rfl⟩

/-- No assignment is found where no target stands. -/
theorem assignment_ne_found (h : targetItem? (s.current c) = none) (x : Item) (after : Stand) :
    assignment c s ≠ .found x after := by
  intro hf
  obtain ⟨left, _, _, hleft, -⟩ := assignment_eq_found.1 hf
  rw [h] at hleft
  cases hleft

theorem outcome_statement (h : targetItem? (s.current c) = none) :
    (statement c s).outcome ≠ .success := by
  refine outcome_ne_success.2 fun x after hf => ?_
  obtain ⟨y, u, z, hy, -⟩ := statement_eq_found.1 hf
  exact assignment_ne_found h y u hy

theorem derived_statements (h : Derives.Statements tokens xs) : ∀ {ts : List LocatedToken}
    {s : Stand}, ts.map (·.token) = tokens → s.Passes ts after →
      targetItem? (after.current c) = none →
      ∃ ys, Gathered statement c s ys after ∧ ys.map unranged = xs := by
  induction h with
  | nil =>
    intro ts s ht hp hstop
    obtain rfl := List.map_eq_nil_iff.1 ht
    rw [hp.eq_of_nil]
    exact ⟨[], .stop (outcome_statement hstop), rfl⟩
  | cons hx hclosing _ ih =>
    intro ts s ht hp hstop
    obtain ⟨ts₁, us, rfl, ht₁, hus⟩ := List.map_eq_append_iff.1 ht
    obtain ⟨t, us₁, rfl, rfl, hus₁⟩ := List.map_eq_cons_iff.1 hus
    obtain ⟨u, hp₁, hrest⟩ := hp.split
    obtain ⟨-, y, hy, rfl⟩ := derived_assignment hx ht₁ hp₁ c
    obtain ⟨htu, hrest₁⟩ := hrest.step (isEnd_eq_false hclosing (by decide)) c
    obtain ⟨ys, hys, rfl⟩ := ih hus₁ hrest₁ hstop
    have hz : terminatorItem? (u.current c) = some _ := if_pos (by rw [htu]; exact hclosing)
    exact ⟨_, .more (statement_eq_found.2 ⟨y, u, _, hy, hz, rfl, rfl⟩) hys, rfl⟩

theorem derived_block (hc : c.Closed) (h : Derives.Block tokens x) (ht : ts.map (·.token) = tokens)
    (hp : s.Passes ts after) (hs : s.Scanned) :
    (s.current c).kind = .leftBrace ∧ ∃ y, openBlock c s = (y, after) ∧ y.unranged = x := by
  obtain ⟨hopen, hxs, hclose⟩ := h
  obtain ⟨opening, ts₁, rfl, rfl, ht₁⟩ := List.map_eq_cons_iff.1 ht
  obtain ⟨ts₂, us, rfl, ht₂, hus⟩ := List.map_eq_append_iff.1 ht₁
  obtain ⟨closing, us₁, rfl, rfl, hus₁⟩ := List.map_eq_cons_iff.1 hus
  obtain rfl := List.map_eq_nil_iff.1 hus₁
  have hscanned : closing.token.Scanned := hs closing (by rw [hp.pending]; simp)
  obtain ⟨hcs, hp₁⟩ := hp.step (isEnd_eq_false hopen (by decide)) c
  obtain ⟨u, hp₂, hrest⟩ := hp₁.split
  obtain ⟨hcu, hlast⟩ := hrest.step (isEnd_eq_false hclose (by decide)) c
  have hstop : targetItem? (u.current c) = none := by
    rw [hcu]
    exact targetItem?_of_ne hscanned (hclose.trans_ne (by decide)) (hclose.trans_ne (by decide))
  obtain ⟨ys, hys, rfl⟩ := derived_statements hxs ht₂ hp₂ hstop
  have hbody : body c (s.advance c) = ⟨ys, [(u.current c).range], after⟩ := by
    rw [← hlast.eq_of_nil]
    exact (Bodied.closed hys (by rw [hcu]; exact hclose)).body_eq hc
  refine ⟨by rw [hcs]; exact hopen, _, by rw [openBlock, hbody], ?_⟩
  rw [unranged_bundle]
  rfl

/-! ## Routes -/

theorem derived_name (h : Derives.Name tokens role) (ht : ts.map (·.token) = tokens)
    (hp : s.Passes ts after) (c : Context) : (s.current c).kind = .leftBracket ∧
      ∃ y, routeName c s = .found y after ∧ nameRole y = role := by
  obtain ⟨hopen, hword, hclose⟩ := h
  obtain ⟨opening, ts₁, rfl, rfl, ht₁⟩ := List.map_eq_cons_iff.1 ht
  obtain ⟨word, ts₂, rfl, rfl, ht₂⟩ := List.map_eq_cons_iff.1 ht₁
  obtain ⟨closing, ts₃, rfl, rfl, ht₃⟩ := List.map_eq_cons_iff.1 ht₂
  obtain rfl := List.map_eq_nil_iff.1 ht₃
  obtain ⟨y, hy, hrole⟩ := derived_word hword
  obtain ⟨h₁, hp₁⟩ := hp.step (isEnd_eq_false hopen (by decide)) c
  obtain ⟨h₂, hp₂⟩ := hp₁.step (takesOne_name.notEnd _ _ hy) c
  obtain ⟨h₃, hp₃⟩ := hp₂.step (isEnd_eq_false hclose (by decide)) c
  rw [← h₁] at hopen
  rw [← h₂] at hy
  rw [← h₃] at hclose
  exact ⟨hopen, y, routeName_eq_found.2 ⟨hopen, hy, hclose, hp₃.eq_of_nil.symm⟩, hrole⟩

/-- A header before a brace is read without a mistake. -/
theorem derived_header {kind : NodeKind} {role : Option String}
    (h : Derives.Header tokens kind role) (ht : ts.map (·.token) = tokens) (hp : s.Passes ts after)
    (hopen : (after.current c).kind = .leftBrace) : (s.current c).kind = .route ∧
      routeKind? (s.current c).token = some kind ∧
      header kind c (s.advance c) = ⟨role, none, after⟩ := by
  have hkind : ∀ {word : String} {t : LocatedToken}, t.token = .ofText .route word →
      NodeKind.ofRouteWord? word = some kind → routeKind? t.token = some kind :=
    fun ht hword => by rw [ht]; exact hword
  cases h with
  | named hword hname =>
    obtain ⟨t, ts₁, rfl, htoken, ht₁⟩ := List.map_eq_cons_iff.1 ht
    have hroute : t.kind = .route := congrArg Token.kind htoken
    obtain ⟨hcs, hp₁⟩ := hp.step (isEnd_eq_false hroute (by decide)) c
    obtain ⟨hbracket, y, hy, rfl⟩ := derived_name hname ht₁ hp₁ c
    refine ⟨by rwa [hcs], by rw [hcs]; exact hkind htoken hword, ?_⟩
    rw [header, if_pos hbracket, hy]
  | nameless hword hne =>
    obtain ⟨t, ts₁, rfl, htoken, ht₁⟩ := List.map_eq_cons_iff.1 ht
    obtain rfl := List.map_eq_nil_iff.1 ht₁
    have hroute : t.kind = .route := congrArg Token.kind htoken
    obtain ⟨hcs, hp₁⟩ := hp.step (isEnd_eq_false hroute (by decide)) c
    refine ⟨by rwa [hcs], by rw [hcs]; exact hkind htoken hword, ?_⟩
    rw [hp₁.eq_of_nil, header, if_neg (hopen.trans_ne (by decide)), if_neg hne]

/-- The route whose header is read without a mistake. -/
theorem route_of_header {kind : NodeKind} {role : Option String}
    (hkind : routeKind? (s.current c).token = some kind)
    (hread : header kind c (s.advance c) = ⟨role, none, u⟩)
    (hopen : (u.current c).kind = .leftBrace) :
    route c s = .found (.list
      (Label.over ⟨kind, role, some (s.current c).range⟩ (openBlock c u).1.label.range)
      [(openBlock c u).1]) (openBlock c u).2 := by
  refine route_eq_found.2 ⟨kind, hkind, ?_, ?_⟩
  · rw [hread]
    exact hopen
  · rw [hread, routeFrom]

theorem derived_route (hc : c.Closed) (h : Derives.Route tokens x) (ht : ts.map (·.token) = tokens)
    (hp : s.Passes ts after) (hs : s.Scanned) :
    (s.current c).kind = .route ∧ ∃ y, route c s = .found y after ∧ y.unranged = x := by
  obtain ⟨tokens₁, tokens₂, kind, role, body, hheader, hblock, rfl, rfl⟩ := h.exists_header
  obtain ⟨ts₁, us, rfl, ht₁, hus⟩ := List.map_eq_append_iff.1 ht
  obtain ⟨u, hp₁, hp₂⟩ := hp.split
  obtain ⟨hopen, y, hy, rfl⟩ := derived_block hc hblock hus hp₂ (hp₁.scanned hs)
  obtain ⟨hroute, hkind, hread⟩ := derived_header hheader ht₁ hp₁ hopen
  have hfound := route_of_header hkind hread hopen
  rw [hy] at hfound
  refine ⟨hroute, _, hfound, ?_⟩
  rw [unranged_list, unranged_over]
  rfl

/-! ## Whole files -/

theorem outcome_fileStarter (h : (s.current c).kind ≠ .directive) :
    (fileStarter c s).outcome ≠ .success := by
  refine (takesOne_fileStarter.outcome_ne_success c s).2 (Option.eq_none_iff_forall_ne_some.2 ?_)
  intro x hx
  obtain ⟨_, hkind, _⟩ := fileStarterItem?_eq_some.1 hx
  exact h hkind

theorem outcome_topLevelAssignment (h : targetItem? (s.current c) = none) :
    (topLevelAssignment c s).outcome ≠ .success := by
  refine outcome_ne_success.2 fun x after hf => ?_
  obtain ⟨y, u, hy, -⟩ := topLevelAssignment_eq_found.1 hf
  exact assignment_ne_found h y u hy

theorem construct_of_assignment (hp : (s.current c).kind = .identifier ∨
      (s.current c).kind = .coreVariable) (h : topLevelAssignment c s = .found x after) :
    construct c s = .found x after :=
  construct_eq_found.2 (.inr ⟨outcome_fileStarter (by rcases hp with h | h <;> rw [h] <;> decide),
    .inl h⟩)

theorem construct_of_route (hkind : (s.current c).kind = .route)
    (hs : (s.current c).token.Scanned) (h : route c s = .found x after) :
    construct c s = .found x after := by
  have htarget := targetItem?_of_ne hs (hkind.trans_ne (by decide)) (hkind.trans_ne (by decide))
  exact construct_eq_found.2 (.inr ⟨outcome_fileStarter (hkind.trans_ne (by decide)),
    .inr ⟨outcome_topLevelAssignment htarget, h⟩⟩)

theorem derived_topLevel (hc : c.Closed) (h : Derives.TopLevel tokens x)
    (ht : ts.map (·.token) = tokens) (hp : s.Passes ts after) (hs : s.Scanned)
    (hnext : (after.current c).kind ≠ .semicolon) :
    ∃ y, construct c s = .found y after ∧ y.unranged = x := by
  cases h with
  | fileStarter hname =>
    obtain ⟨t, ts₁, rfl, htoken, ht₁⟩ := List.map_eq_cons_iff.1 ht
    obtain rfl := List.map_eq_nil_iff.1 ht₁
    have hkind : t.kind = .directive := congrArg Token.kind htoken
    obtain ⟨hcs, hp₁⟩ := hp.step (isEnd_eq_false hkind (by decide)) c
    have hitem := fileStarterItem?_eq_some.2
      ⟨_, hkind, congrArg Token.literal htoken, hname, rfl⟩
    rw [← hcs] at hitem
    exact ⟨_, construct_eq_found.2 (.inl ((takesOne_fileStarter.found ..).2
      ⟨hitem, hp₁.eq_of_nil.symm⟩)), rfl⟩
  | assignment h =>
    obtain ⟨hkind, y, hy, rfl⟩ := derived_assignment h ht hp c
    have hnone : terminatorItem? (after.current c) = none := oneItem?_of_ne hnext
    exact ⟨y, construct_of_assignment hkind
      (topLevelAssignment_eq_found.2 ⟨y, after, hy, .inr ⟨hnone, rfl, rfl⟩⟩), rfl⟩
  | closedAssignment h hclosing =>
    obtain ⟨ts₁, us, rfl, ht₁, hus⟩ := List.map_eq_append_iff.1 ht
    obtain ⟨t, us₁, rfl, rfl, hus₁⟩ := List.map_eq_cons_iff.1 hus
    obtain rfl := List.map_eq_nil_iff.1 hus₁
    obtain ⟨u, hp₁, hp₂⟩ := hp.split
    obtain ⟨hkind, y, hy, rfl⟩ := derived_assignment h ht₁ hp₁ c
    obtain ⟨hcu, hp₃⟩ := hp₂.step (isEnd_eq_false hclosing (by decide)) c
    have hz : terminatorItem? (u.current c) = some _ := if_pos (by rw [hcu]; exact hclosing)
    exact ⟨_, construct_of_assignment hkind (topLevelAssignment_eq_found.2
      ⟨y, u, hy, .inl ⟨_, hz, rfl, hp₃.eq_of_nil.symm⟩⟩), unranged_widenOver y _⟩
  | route h =>
    obtain ⟨hkind, y, hy, rfl⟩ := derived_route hc h ht hp hs
    have hscanned := Stand.scanned_current hc hs (isEnd_eq_false hkind (by decide))
    exact ⟨y, construct_of_route hkind hscanned hy, rfl⟩

theorem derived_topLevels (hc : c.Closed) (h : Derives.TopLevels tokens xs) :
    ∀ {ts : List LocatedToken} {s : Stand}, ts.map (·.token) = tokens → s.Passes ts after →
      s.Scanned → s.stopped = false → (after.current c).isEnd = true →
      (s.current c).kind ≠ .semicolon ∧
        ∃ ys, Gathered topLevel c s ys after ∧ ys.map unranged = xs := by
  induction h with
  | nil =>
    intro ts s ht hp hs hgoing hend
    obtain rfl := List.map_eq_nil_iff.1 ht
    rw [hp.eq_of_nil]
    have hkind : (after.current c).kind = .endOfInput := of_decide_eq_true hend
    refine ⟨hkind.trans_ne (by decide), [], .stop ?_, rfl⟩
    rw [topLevel, hend, Bool.true_or, if_pos rfl]
    simp [Result.outcome]
  | cons hx _ ih =>
    intro ts s ht hp hs hgoing hend
    obtain ⟨ts₁, us, rfl, ht₁, hus⟩ := List.map_eq_append_iff.1 ht
    obtain ⟨u, hp₁, hrest⟩ := hp.split
    obtain ⟨token, _, rfl, hsemicolon⟩ := hx.head_ne_semicolon
    obtain ⟨hnext, ys, hys, rfl⟩ := ih hus hrest (hp₁.scanned hs) (hp₁.stopped.trans hgoing) hend
    obtain ⟨y, hy, rfl⟩ := derived_topLevel hc hx ht₁ hp₁ hs hnext
    obtain ⟨t, ts₂, rfl, rfl, -⟩ := List.map_eq_cons_iff.1 ht₁
    have hnotEnd : t.isEnd = false := (hs t (by rw [hp.pending]; simp)).isEnd
    obtain ⟨hcs, -⟩ := hp.step hnotEnd c
    refine ⟨by rw [hcs]; exact hsemicolon, _, .more (topLevel_eq_found.2
      ⟨by rw [hcs, hnotEnd, hgoing]; rfl, y, hy, rfl⟩) hys, rfl⟩

theorem derived_script (hc : c.Closed) (hs : s.Scanned) (hgoing : s.stopped = false)
    (h : Derives.TopLevels (s.pending.map (·.token)) xs) :
    (script c s).1.unranged =
      .list (Derives.tag .root none) (xs ++ [.bare (Derives.tag .endOfInput none)]) := by
  have hp : s.Passes s.pending (s.goTo []) := by
    rw [Stand.Passes, Stand.goTo_goTo]
    exact congrArg s.goTo (List.append_nil s.pending).symm
  have hend : ((s.goTo []).current c).isEnd = true := hc
  obtain ⟨-, ys, hys, rfl⟩ := derived_topLevels hc h rfl hp hs hgoing hend
  have hcons : constructs c s = (ys, s.goTo []) := by
    rw [constructs, hys.collect_eq forward_topLevel hc]
    exact if_pos (by rw [hend, Bool.true_or])
  rw [script, hcons]
  simp only [covered, bundle_append]
  rw [unranged_list, List.map_append]
  rfl

end Reading
end RouteScript.Grammar
