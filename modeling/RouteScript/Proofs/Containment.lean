import RouteScript.Proofs.Grammar.Braces
import RouteScript.Proofs.Grammar.Cut
import RouteScript.Proofs.Grammar.Elsewhere
import RouteScript.Proofs.Language
/-!
# Mistakes are contained by braces

Between two files without mistakes stands a route, and in its block anything with its braces in
pairs. The parse of the whole is then the parse of the files with the route between them, and every
mistake is a child of the block: what went wrong inside of the braces stays there.
-/
namespace RouteScript

open Grammar

/-! ## Tokens of a source -/

/-- The token is one of the stream of some source, and not the one that closes it. -/
def LocatedToken.Lexed (t : LocatedToken) : Prop :=
  t.isEnd = false ∧ ∃ options source tokens, tokenStream options source = .ok tokens ∧ t ∈ tokens

theorem LocatedToken.Lexed.scanned {t : LocatedToken} (h : t.Lexed) : t.token.Scanned := by
  obtain ⟨hend, _, _, _, hstream, ht⟩ := h
  obtain ⟨body, rfl, hbody⟩ := tokenStream_eq_ok hstream
  rcases List.mem_append.1 ht with ht | ht
  · exact hbody t ht
  · obtain rfl := List.mem_singleton.1 ht
    cases hend

theorem lexed_of_tokenStream {options : ScanOptions} {source : List UInt8}
    {tokens : List LocatedToken} {offset : Nat}
    (h : tokenStream options source = .ok (tokens ++ [.endAt offset])) : ∀ t ∈ tokens, t.Lexed := by
  intro t ht
  obtain ⟨body, heq, hbody⟩ := tokenStream_eq_ok h
  obtain rfl := (List.append_inj' heq rfl).1
  exact ⟨(hbody t ht).isEnd, options, source, _, h, List.mem_append_left _ ht⟩

/-! ## What is read -/

/-- Widening a range leaves kind and role alone. -/
theorem Label.over_eq (l : Label) (r : Option ByteRange) :
    l.over r = ⟨l.kind, l.role, (l.over r).range⟩ := by
  cases r <;> rfl

namespace Grammar

open Item

variable {c : Context} {s : Stand} {A B S header : List LocatedToken}
  {opening closing : LocatedToken} {kind : NodeKind} {role : Option String}
  {options optionsA optionsB : ParseOptions}

theorem Stand.passes_goTo {ts p : List LocatedToken} (h : s.pending = ts ++ p) :
    s.Passes ts (s.goTo p) := by
  rw [Passes, goTo_goTo]
  exact congrArg s.goTo h

/-- Of tokens that do not close the stream, all are still to read. -/
theorem pending_ofTokens_of_scanned {tokens : List LocatedToken}
    (h : ∀ t ∈ tokens, t.token.Scanned) : (Stand.ofTokens tokens).pending = tokens := by
  change (splitClosing tokens).1 = tokens
  rw [splitClosing]
  cases hlast : tokens.getLast? with
  | none => rw [List.getLast?_eq_none_iff.1 hlast]
  | some t =>
    have ht := (h t (List.mem_of_getLast? hlast)).isEnd
    exact congrArg Prod.fst (if_neg (by rw [LocatedToken.isEnd, ht]; decide))

namespace Reading

/-- What is read of tokens without a mistake is read again before whatever comes after them. -/
theorem read_elsewhere (hA : ∀ t ∈ A, t.token.Scanned)
    (hclean : (parseTokens options A).hasErrors = false) :
    ∃ xs, (readTokens options A).1 = file (splitClosing A).2 xs ∧ (∀ x ∈ xs, x.Clean) ∧
      ∀ {c : Context} {s u last : Stand} {ys : List Item}, c.Closed → s.Passes A u →
        s.stopped = false → (u.current c).kind ≠ .semicolon → Gathered topLevel c u ys last →
        (s.current c).kind ≠ .semicolon ∧ Gathered topLevel c s (xs ++ ys) last := by
  have hc := closed_ofTokens options A
  have hpending := pending_ofTokens_of_scanned hA
  have hs : (Stand.ofTokens A).Scanned := by rwa [Stand.Scanned, hpending]
  have hscript : (readTokens options A).1.Clean := (hasErrors_eq_false options A).1 hclean
  have hxs : ∀ x ∈ (constructs (.ofTokens options A) (.ofTokens A)).1, x.Clean := fun x hx =>
    (clean_bundle.1 hscript).2 x (List.mem_append_left _ hx)
  obtain ⟨hg, hend⟩ := (constructed_constructs hc (.ofTokens A)).ended_of_clean hxs
  obtain ⟨ts, hp, hagain⟩ := hg.constructs_elsewhere hc hs hxs
  obtain rfl : A = ts := by
    rw [← hpending, hp.pending, hp.pending_eq_nil hs rfl hend, List.append_nil]
  exact ⟨_, rfl, hxs, hagain⟩

/-- A route with a header as it should be and any block that is closed by its brace. -/
theorem topLevel_contained (hc : c.Closed) (hrecover : c.options.recover = true)
    (hheader : Derives.Header (header.map (·.token)) kind role)
    (hopening : opening.kind = .leftBrace) (hclosing : closing.kind = .rightBrace)
    (hbraced : Braced S) (hstays : ∀ t ∈ S, leavesBlock t = false)
    (hscanned : ∀ t ∈ S ++ closing :: B, t.token.Scanned)
    (hpending : s.pending = header ++ opening :: (S ++ closing :: B)) (hgoing : s.stopped = false)
    (hbudget : s.mistakes + S.length < c.options.maxErrors) :
    ∃ r r' items u, topLevel c s = .found (.covered .topLevel
        [.list ⟨kind, role, r⟩ [.bundle ⟨.block, none, r'⟩ items]]) u ∧
      u.pending = B ∧ u.stopped = false ∧ (s.current c).kind ≠ .semicolon ∧
      ∀ x ∈ items, x.Clean ∨ ∃ e : Fault, x = e.item := by
  have hp := Stand.passes_goTo hpending
  generalize hv : s.goTo (opening :: (S ++ closing :: B)) = v at hp
  have hvpending : v.pending = opening :: (S ++ closing :: B) := by rw [← hv]; rfl
  have hcv : v.current c = opening := by rw [Stand.current, hvpending]; rfl
  obtain ⟨hroute, hkind, hread⟩ := derived_header hheader rfl hp (by rw [hcv]; exact hopening)
  have hadvance : v.advance c = s.goTo (S ++ closing :: B) := by
    rw [Stand.advance, hcv, isEnd_eq_false hopening (by decide), hvpending, ← hv]
    rfl
  have henclosed : Enclosed closing B S (v.advance c) :=
    ⟨by rw [hadvance]; rfl, by rw [hadvance]; exact hscanned, hbraced, hstays⟩
  obtain ⟨hafter, hstopped, hitems⟩ := (bodied_body hc (v.advance c)).contained hc hclosing hrecover
    henclosed (by rw [hadvance]; exact hgoing) (by rw [hadvance]; exact hbudget)
  have hfound := route_of_header hkind hread (by rw [hcv]; exact hopening)
  have hend := isEnd_eq_false hroute (by decide)
  have htoken : (s.current c).token.Scanned := by
    obtain ⟨-, word, hlit, -⟩ := kind_of_routeKind? hkind
    rw [token_eq hroute hlit]
    exact .text (by decide) (by decide) (by decide)
  rw [Label.over_eq] at hfound
  exact ⟨_, _, _, _, topLevel_eq_found.2 ⟨by rw [hend, hgoing]; rfl, _,
    construct_of_route hroute htoken hfound, rfl⟩, hafter, hstopped, hroute.trans_ne (by decide),
    hitems⟩

theorem gathered_atEnd (h : (s.current c).isEnd = true) : Gathered topLevel c s [] s := by
  refine .stop ?_
  rw [topLevel, h, Bool.true_or, if_pos rfl]
  simp [Result.outcome]

/-- A file whose constructs go on to the end of the stream. -/
theorem Gathered.script_eq {u : Stand} {xs : List Item} (hc : c.Closed)
    (h : Gathered topLevel c s xs u) (hend : (u.current c).isEnd = true) :
    (script c s).1 = file c.closing xs := by
  rw [script, (Constructed.ended h (by rw [hend, Bool.true_or])).constructs_eq hc]
  rfl

end Reading

open Reading

/-- The item of the whole: what is read of the files, and the route between them. -/
theorem readTokens_contained (offset : Nat) (hA : ∀ t ∈ A, t.token.Scanned)
    (hB : ∀ t ∈ B, t.token.Scanned) (hS : ∀ t ∈ S, t.token.Scanned)
    (hclosing : closing.token = .ofText .rightBrace "\x7d")
    (hcleanA : (parseTokens optionsA A).hasErrors = false)
    (hcleanB : (parseTokens optionsB B).hasErrors = false)
    (hheader : Derives.Header (header.map (·.token)) kind role)
    (hopening : opening.kind = .leftBrace) (hbraced : Braced S)
    (hstays : ∀ t ∈ S, leavesBlock t = false) (hrecover : options.recover = true)
    (hbudget : S.length < options.maxErrors) :
    ∃ xs ys r r' items, (readTokens optionsA A).1 = file (splitClosing A).2 xs ∧
      (readTokens optionsB B).1 = file (splitClosing B).2 ys ∧
      (readTokens options
        (A ++ (header ++ opening :: (S ++ closing :: B)) ++ [.endAt offset])).1 =
          file (.endAt offset) (xs ++ .covered .topLevel
            [.list ⟨kind, role, r⟩ [.bundle ⟨.block, none, r'⟩ items]] :: ys) ∧
      (∀ x ∈ xs, x.Clean) ∧ (∀ y ∈ ys, y.Clean) ∧
      ∀ x ∈ items, x.Clean ∨ ∃ e : Fault, x = e.item := by
  generalize htokens : A ++ (header ++ opening :: (S ++ closing :: B)) ++ [.endAt offset] = tokens
  have hc := closed_ofTokens options tokens
  have hpending : (Stand.ofTokens tokens).pending =
      A ++ (header ++ opening :: (S ++ closing :: B)) := by rw [← htokens, pending_ofTokens]
  have hsplit : (splitClosing tokens).2 = .endAt offset := by rw [← htokens, splitClosing_endAt]
  generalize hcontext : Context.ofTokens options tokens = c at hc
  have hrecover' : c.options.recover = true := by rw [← hcontext]; exact hrecover
  have hbudget' : 0 + S.length < c.options.maxErrors := by
    rw [← hcontext, Nat.zero_add]
    exact hbudget
  obtain ⟨xs, hxs, hxsclean, hxsread⟩ := read_elsewhere hA hcleanA
  obtain ⟨ys, hys, hysclean, hysread⟩ := read_elsewhere hB hcleanB
  have hscanned : ∀ t ∈ S ++ closing :: B, t.token.Scanned := by
    simp only [List.forall_mem_append, List.forall_mem_cons]
    exact ⟨hS, hclosing ▸ .text (by decide) (by decide) (by decide), hB⟩
  have hpA := Stand.passes_goTo hpending
  obtain ⟨r, r', items, v, htop, hvpending, hvgoing, hsemicolon, hitems⟩ :=
    topLevel_contained (s := (Stand.ofTokens tokens).goTo _) hc hrecover' hheader hopening
      (congrArg Token.kind hclosing) hbraced hstays hscanned rfl rfl hbudget'
  -- the three parts are put together from the end of the stream backwards
  have hpB : v.Passes B (v.goTo []) := Stand.passes_goTo (by rw [hvpending, List.append_nil])
  have hend : ((v.goTo []).current c).isEnd = true := hc
  have hendKind : ((v.goTo []).current c).kind = .endOfInput := of_decide_eq_true hend
  obtain ⟨-, hgB⟩ := hysread hc hpB hvgoing (hendKind.trans_ne (by decide)) (gathered_atEnd hend)
  obtain ⟨-, hg⟩ := hxsread hc hpA rfl hsemicolon (.more htop hgB)
  refine ⟨xs, ys, r, r', items, hxs, hys, ?_, hxsclean, hysclean, hitems⟩
  rw [readTokens, hcontext, hg.script_eq hc hend, List.append_nil, ← hsplit, ← hcontext]
  rfl

end Grammar

/-! ## What is in the tree -/

namespace Tree

variable {t : Tree} {n id : NodeId} {l : Label} {x : Item} {xs ys : List Item}

/-- The items of what stands in the root before the end of input. -/
def constructs (t : Tree) : List Item :=
  match t.root with
  | some root => ((t.children root).map t.item).dropLast
  | none => []

/-- No mistake lies below a node whose item has none. -/
theorem kind_ne_of_clean (hs : t.Sound) (hn : n < t.size) (h : (t.item n).Clean)
    (hid : id ∈ t.preorder n) : t.kind id ≠ .error := by
  rw [← kind_item hs]
  refine h _ ?_
  rw [← map_item_preorder hs hn]
  exact List.mem_map_of_mem hid

/-- A mistake below a node that is none itself lies below one of its children. -/
theorem exists_child_of_error (hs : t.Sound) (hn : n < t.size) (h : t.item n = .bundle l xs)
    (hl : l.kind ≠ .error) (hid : id ∈ t.preorder n) (herror : t.kind id = .error) :
    ∃ c ∈ t.children n, c < t.size ∧ id ∈ t.preorder c := by
  obtain ⟨hlabel, hshape, -⟩ := payload_of_item_bundle hs h
  have hids : t.childIds n = t.children n := by
    cases hp : (t.node n).payload <;>
      simp_all [children, childIds, Payload.ordered, Payload.ids, Payload.shape]
  rw [preorder_eq hs hn] at hid
  rcases List.mem_cons.1 hid with rfl | hid
  · exact absurd ((congrArg Label.kind hlabel).symm.trans herror) hl
  · obtain ⟨c, hc, hidc⟩ := List.mem_flatMap.1 hid
    exact ⟨c, hids ▸ hc, hs.child_lt_size hc, hidc⟩

/-- A node whose item is a mistake has nothing below it. -/
theorem eq_of_fault {e : Fault} (hs : t.Sound) (hn : n < t.size) (h : t.item n = e.item)
    (hid : id ∈ t.preorder n) : id = n := by
  have hlength := congrArg List.length (map_item_preorder hs hn)
  rw [h, List.length_map, preorder_eq hs hn, List.length_cons] at hlength
  have hnil := List.length_eq_zero_iff.1 (Nat.succ.inj hlength)
  rw [preorder_eq hs hn, hnil] at hid
  exact List.mem_singleton.1 hid

end Tree

open Grammar Reading

theorem constructs_parseTokens {options : ParseOptions} {tokens : List LocatedToken}
    {closing : LocatedToken} {xs : List Item}
    (h : (readTokens options tokens).1 = file closing xs) :
    (parseTokens options tokens).constructs = xs := by
  obtain ⟨root, hsound, hroot, -, hitem, -⟩ := parseTokens_spec options tokens
  have hchildren := (Tree.payload_of_item_bundle hsound (hitem.trans h)).2.2
  rw [Tree.constructs, hroot]
  simp only [hchildren, List.dropLast_concat]

/-- A tree with the item of the whole has the nodes of it, and its mistakes in the block. -/
theorem Tree.exists_block {t : Tree} {root : NodeId} {closing : LocatedToken}
    {xs ys items : List Item} {kind : NodeKind} {role : Option String} {r r' : Option ByteRange}
    (hs : t.Sound) (hroot : t.root = some root) (hlt : root < t.size) (hkind : kind ≠ .error)
    (hitem : t.item root = file closing (xs ++ .covered .topLevel
      [.list ⟨kind, role, r⟩ [.bundle ⟨.block, none, r'⟩ items]] :: ys))
    (hxs : ∀ x ∈ xs, x.Clean) (hys : ∀ y ∈ ys, y.Clean)
    (hitems : ∀ x ∈ items, x.Clean ∨ ∃ e : Fault, x = e.item) :
    ∃ top route block last as bs, t.children root = as ++ top :: bs ++ [last] ∧
      as.map t.item = xs ∧ bs.map t.item = ys ∧
      t.kind top = .topLevel ∧ t.children top = [route] ∧
      t.kind route = kind ∧ (t.node route).role = role ∧ t.children route = [block] ∧
      t.kind block = .block ∧ t.kind last = .endOfInput ∧
      ∀ id ∈ t.errors, id ∈ t.children block := by
  obtain ⟨hrootLabel, -, hchildren⟩ := payload_of_item_bundle hs hitem
  obtain ⟨ids, lasts, hids, hfront, hback⟩ := List.map_eq_append_iff.1 hchildren
  obtain ⟨last, rfl, hlast⟩ := List.map_eq_singleton_iff.1 hback
  obtain ⟨as, tops, rfl, rfl, hmid⟩ := List.map_eq_append_iff.1 hfront
  obtain ⟨top, bs, rfl, htop, rfl⟩ := List.map_eq_cons_iff.1 hmid
  obtain ⟨htopLabel, -, htopChildren⟩ := payload_of_item_bundle hs htop
  obtain ⟨route, hroutes, hroute⟩ := List.map_eq_singleton_iff.1 htopChildren
  have hroute : t.item route = .bundle ⟨kind, role, r⟩ [_] := hroute
  obtain ⟨hrouteLabel, -, hrouteChildren⟩ := payload_of_item_bundle hs hroute
  obtain ⟨block, hblocks, hblock⟩ := List.map_eq_singleton_iff.1 hrouteChildren
  obtain ⟨hblockLabel, -, hblockChildren⟩ := payload_of_item_bundle hs hblock
  have hlastKind : t.kind last = .endOfInput := by rw [← kind_item hs, hlast]; rfl
  refine ⟨top, route, block, last, as, bs, hids, rfl, rfl, congrArg Label.kind htopLabel, hroutes,
    congrArg Label.kind hrouteLabel, congrArg Label.role hrouteLabel, hblocks,
    congrArg Label.kind hblockLabel, hlastKind, fun id hid => ?_⟩
  rw [errors, List.mem_filter, reachable, hroot] at hid
  obtain ⟨hmem, herror⟩ := hid
  have herror : t.kind id = .error := of_decide_eq_true herror
  simp only [subtree_eq_preorder hs hlt] at hmem
  -- down to the block, since nothing beside it holds a mistake
  obtain ⟨c, hc, hclt, hc'⟩ := exists_child_of_error hs hlt hitem (by simp) hmem herror
  have hclean : ∀ {n : NodeId}, n < t.size → id ∈ t.preorder n → ¬ (t.item n).Clean :=
    fun hn hid h => kind_ne_of_clean hs hn h hid herror
  obtain rfl : c = top := by
    have hlastClean : (t.item last).Clean := by rw [hlast]; exact Item.clean_bare.2 (by rintro ⟨⟩)
    simp only [hids, List.mem_append, List.mem_cons, List.not_mem_nil, or_false] at hc
    rcases hc with (hc | hc | hc) | rfl
    · exact absurd (hxs _ (List.mem_map_of_mem hc)) (hclean hclt hc')
    · exact hc
    · exact absurd (hys _ (List.mem_map_of_mem hc)) (hclean hclt hc')
    · exact absurd hlastClean (hclean hclt hc')
  obtain ⟨n, hn, hnlt, hn'⟩ := exists_child_of_error hs hclt htop (by simp) hc' herror
  obtain rfl : n = route := List.mem_singleton.1 (hroutes ▸ hn)
  obtain ⟨b, hb, hblt, hb'⟩ := exists_child_of_error hs hnlt hroute hkind hn' herror
  obtain rfl : b = block := List.mem_singleton.1 (hblocks ▸ hb)
  obtain ⟨e, he, helt, he'⟩ := exists_child_of_error hs hblt hblock (by simp) hb' herror
  rcases hitems _ (hblockChildren ▸ List.mem_map_of_mem he) with h | ⟨_, h⟩
  · exact absurd h (hclean helt he')
  · exact eq_of_fault hs helt h he' ▸ he

/-- Recovery is contained by braces: whatever stands between those of a route, with its own braces
in pairs and with no word that opens a route and no directive in it, the constructs before and after
are those of the files that stand there, and every mistake is a child of the block. -/
theorem recovery_contained {A B S header : List LocatedToken} {opening closing : LocatedToken}
    {kind : NodeKind} {role : Option String} {options optionsA optionsB : ParseOptions}
    {offset : Nat} (hA : ∀ t ∈ A, t.Lexed) (hB : ∀ t ∈ B, t.Lexed) (hS : ∀ t ∈ S, t.Lexed)
    (hcleanA : (parseTokens optionsA A).hasErrors = false)
    (hcleanB : (parseTokens optionsB B).hasErrors = false)
    (hheader : Derives.Header (header.map (·.token)) kind role)
    (hopening : opening.token = .ofText .leftBrace "\x7b")
    (hclosing : closing.token = .ofText .rightBrace "\x7d") (hbraced : Braced S)
    (hstays : ∀ t ∈ S, t.kind ≠ .route ∧ t.kind ≠ .directive) (hrecover : options.recover = true)
    (hbudget : S.length < options.maxErrors) :
    let t := parseTokens options
      (A ++ (header ++ opening :: (S ++ closing :: B)) ++ [.endAt offset])
    ∃ root top route block last as bs, t.root = some root ∧
      t.children root = as ++ top :: bs ++ [last] ∧
      as.map t.item = (parseTokens optionsA A).constructs ∧
      bs.map t.item = (parseTokens optionsB B).constructs ∧
      t.kind top = .topLevel ∧ t.children top = [route] ∧
      t.kind route = kind ∧ (t.node route).role = role ∧ t.children route = [block] ∧
      t.kind block = .block ∧ t.kind last = .endOfInput ∧
      ∀ id ∈ t.errors, id ∈ t.children block := by
  have hleaves : ∀ t ∈ S, leavesBlock t = false := fun t ht => by
    simp [leavesBlock, (hS t ht).1, hstays t ht]
  obtain ⟨xs, ys, r, r', items, hxs, hys, hread, hxsclean, hysclean, hitems⟩ :=
    readTokens_contained offset (fun t ht => (hA t ht).scanned)
      (fun t ht => (hB t ht).scanned) (fun t ht => (hS t ht).scanned) hclosing hcleanA hcleanB
      hheader (congrArg Token.kind hopening) hbraced hleaves hrecover hbudget
  rw [constructs_parseTokens hxs, constructs_parseTokens hys]
  obtain ⟨root, hsound, hroot, hlt, hitem, -⟩ := parseTokens_spec options
    (A ++ (header ++ opening :: (S ++ closing :: B)) ++ [.endAt offset])
  obtain ⟨top, route, block, last, as, bs, h⟩ :=
    Tree.exists_block hsound hroot hlt hheader.kind_ne_error (hitem.trans hread) hxsclean hysclean
      hitems
  exact ⟨root, top, route, block, last, as, bs, hroot, h⟩

/-- The tokens of `a=1;`. -/
def fileBefore : List LocatedToken :=
  [⟨.ofText .identifier "a", 0, 1⟩, ⟨.ofText .assign "=", 1, 2⟩, ⟨⟨.integer, .integer 1⟩, 2, 3⟩,
   ⟨.ofText .semicolon ";", 3, 4⟩]

/-- The tokens of `b=2`. -/
def fileAfter : List LocatedToken :=
  [⟨.ofText .identifier "b", 0, 1⟩, ⟨.ofText .assign "=", 1, 2⟩, ⟨⟨.integer, .integer 2⟩, 2, 3⟩]

/-- The tokens of `c` and a semicolon between braces, which are no statement. -/
def garbage : List LocatedToken :=
  [⟨.ofText .identifier "c", 0, 1⟩, ⟨.ofText .leftBrace "\x7b", 1, 2⟩,
   ⟨.ofText .semicolon ";", 2, 3⟩, ⟨.ofText .rightBrace "\x7d", 3, 4⟩]

/-- The tokens of `route[1]`. -/
def routeHeader : List LocatedToken :=
  [⟨.ofText .route "route", 0, 5⟩, ⟨.ofText .leftBracket "[", 5, 6⟩,
   ⟨⟨.integer, .integer 1⟩, 6, 7⟩, ⟨.ofText .rightBracket "]", 7, 8⟩]

theorem recovery_contained_garbage :
    let t := parseTokens .default (fileBefore ++ (routeHeader ++
      ⟨.ofText .leftBrace "\x7b", 8, 9⟩ :: (garbage ++ ⟨.ofText .rightBrace "\x7d", 9, 10⟩ ::
        fileAfter)) ++ [.endAt 10])
    t.hasErrors = true ∧
      ∃ block, t.kind block = .block ∧ ∀ id ∈ t.errors, id ∈ t.children block := by
  have hbefore : tokenStream .default [97, 61, 49, 59] = .ok (fileBefore ++ [.endAt 4]) := by
    decide +kernel
  have hafter : tokenStream .default [98, 61, 50] = .ok (fileAfter ++ [.endAt 3]) := by
    decide +kernel
  have hgarbage : tokenStream .default [99, 123, 59, 125] = .ok (garbage ++ [.endAt 4]) := by
    decide +kernel
  have hheader : Derives.Header (routeHeader.map (·.token)) .route (some "1") :=
    .named rfl (.intro rfl .number rfl)
  have hinner : Braced [⟨.ofText .semicolon ";", 2, 3⟩] := .plain (by decide) (by decide) .nil
  have hbraced : Braced garbage := .plain (by decide) (by decide) (.nested rfl hinner rfl .nil)
  obtain ⟨_, _, _, block, _, _, _, -, -, -, -, -, -, -, -, -, hblock, -, herrors⟩ :=
    @recovery_contained fileBefore fileAfter garbage routeHeader
      ⟨.ofText .leftBrace "\x7b", 8, 9⟩ ⟨.ofText .rightBrace "\x7d", 9, 10⟩ .route (some "1")
      .default .default .default 10 (lexed_of_tokenStream hbefore) (lexed_of_tokenStream hafter)
      (lexed_of_tokenStream hgarbage) (by decide +kernel) (by decide +kernel) hheader rfl rfl
      hbraced (by decide) rfl (by decide)
  exact ⟨by decide +kernel, block, hblock, herrors⟩

end RouteScript
