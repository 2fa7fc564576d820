import RouteScript.Proofs.Parsed
/-!
# The schema of parsed trees

Whatever the tokens, with literals that do not go with their kinds among them, and wherever
mistakes were met and the parse went on or stopped: below a node of a parsed tree stand the nodes
that the schema has for its kind, and with the roles that it has for them.
-/
namespace RouteScript

namespace Item

variable {l m : Label} {x y : Item} {xs : List Item} {kind : NodeKind} {stopped : Bool}

/-- The item is of the kind and has no role. -/
def Plain (kind : NodeKind) (x : Item) : Prop := x.label.kind = kind ∧ x.label.role = none

/-- A name or a core variable, on the left side of an assignment. -/
def IsTarget (x : Item) : Prop :=
  x.label.kind = .identifier ∨ x.label.kind.isCoreVariable = true

/-- A number, a string or a core variable, on the right side of an assignment. -/
def IsValue (x : Item) : Prop :=
  x.label.kind = .number ∨ x.label.kind = .string ∨ x.label.kind.isCoreVariable = true

theorem IsTarget.ne_root (h : x.IsTarget) : x.label.kind ≠ .root := by
  rcases h with h | h <;> intro e <;> rw [e] at h <;> cases h

theorem IsValue.ne_root (h : x.IsValue) : x.label.kind ≠ .root := by
  rcases h with h | h | h <;> intro e <;> rw [e] at h <;> cases h

/-- What stands directly below an item of some kind. Only in a parse that `stopped` can a route be
without its block. -/
inductive Formed (stopped : Bool) : Item → Prop
  | root {l : Label} {xs : List Item} {last : Item} : l.kind = .root → l.role = none →
      (∀ x ∈ xs, x.Plain .topLevel ∨ x.Plain .error) → last.Plain .endOfInput →
      Formed stopped (.list l (xs ++ [last]))
  | topLevel {l : Label} {x : Item} : l.kind = .topLevel →
      x.Plain .fileStarter ∨ x.Plain .assignment ∨ x.label.kind.isRoute = true →
      Formed stopped (.list l [x])
  | route {l : Label} {body : Item} : l.kind.isRoute = true → body.Plain .block →
      Formed stopped (.list l [body])
  | routeWithError {l : Label} {e body : Item} : l.kind.isRoute = true → e.Plain .error →
      body.Plain .block → Formed stopped (.list l [e, body])
  | routeCutShort {l : Label} {e : Item} : stopped = true → l.kind.isRoute = true →
      e.Plain .error → Formed stopped (.list l [e])
  | emptyBlock {l : Label} : l.kind = .block → Formed stopped (.bare l)
  | block {l : Label} {xs : List Item} : l.kind = .block → xs ≠ [] →
      (∀ x ∈ xs, x.Plain .statement ∨ x.Plain .error) → Formed stopped (.list l xs)
  | statement {l : Label} {x y : Item} : l.kind = .statement → x.Plain .assignment →
      y.Plain .terminator → Formed stopped (.list l [x, y])
  | assignment {l m : Label} {left right : Item} : l.kind = .assignment →
      left.IsTarget → left.label.role = some "left" → m.kind = .operator → m.role = none →
      right.IsValue → right.label.role = some "right" →
      Formed stopped (.list l [left, .leaf m (.text "="), right])
  | coreVariable {l : Label} {x : Item} : l.kind.isCoreVariable = true → x.Plain .identifier →
      Formed stopped (.list l [x])
  | text {l : Label} {s : String} :
      l.kind = .identifier ∨ l.kind = .string ∨ l.kind = .fileStarter ∨ l.kind = .error →
      Formed stopped (.leaf l (.text s))
  | number {l : Label} {n : Int} : l.kind = .number → Formed stopped (.leaf l (.integer n))
  | operator {l : Label} : l.kind = .operator → Formed stopped (.leaf l (.text "="))
  | mark {l : Label} : l.kind = .terminator ∨ l.kind = .endOfInput → Formed stopped (.bare l)

theorem Formed.kind_ne_empty (h : x.Formed stopped) : x.label.kind ≠ .empty := by
  cases h with
  | route h | routeWithError h | routeCutShort _ h =>
    exact NodeKind.ne_empty_of_outcome (NodeKind.outcome_of_isRoute h)
  | coreVariable h => exact NodeKind.ne_empty_of_outcome (NodeKind.outcome_of_isCoreVariable h)
  | text h => rcases h with h | h | h | h <;> exact h.trans_ne (by decide)
  | mark h => rcases h with h | h <;> exact h.trans_ne (by decide)
  | root h | topLevel h | emptyBlock h | block h | statement h | assignment h | number h
  | operator h => exact h.trans_ne (by decide)

/-- A node with a formed item has no children by name, and a list of children only if it has any. -/
theorem Formed.payload {f : NodeId → Item} {p : Payload} (h : (build l f p).Formed stopped) :
    p.shape ≠ .named ∧ p ≠ .children [] := by
  refine ⟨fun hp => ?_, fun hp => ?_⟩
  · cases p with
    | named m => cases h
    | _ => cases hp
  · rw [hp, build, List.map_nil] at h
    generalize hx : Item.list l [] = x at h
    cases h with
    | root => simp at hx
    | block _ hne => cases hx; exact hne rfl
    | _ => cases hx

/-- All parts of the item are formed. -/
def AllFormed (stopped : Bool) (x : Item) : Prop := ∀ y ∈ x.parts, y.Formed stopped

/-- What stands below an item stays formed if the item is marked, or if the parse stops later on.
The schema does not look at ranges, and at the role of an item itself only for the root. -/
theorem Formed.withLabel {later : Bool} (h : x.Formed stopped) (hs : stopped = true → later = true)
    (hk : l.kind = x.label.kind) (hr : l.kind = .root → l.role = x.label.role) :
    (x.withLabel l).Formed later := by
  cases h with
  | root h hrole hxs hlast =>
    exact .root (hk.trans h) ((hr (hk.trans h)).trans hrole) hxs hlast
  | topLevel h hx => exact .topLevel (hk.trans h) hx
  | route h hb => exact .route (hk ▸ h) hb
  | routeWithError h he hb => exact .routeWithError (hk ▸ h) he hb
  | routeCutShort hstop h he => exact .routeCutShort (hs hstop) (hk ▸ h) he
  | emptyBlock h => exact .emptyBlock (hk.trans h)
  | block h hne hxs => exact .block (hk.trans h) hne hxs
  | statement h hx hy => exact .statement (hk.trans h) hx hy
  | assignment h hleft hl hop ho hright hright' =>
    exact .assignment (hk.trans h) hleft hl hop ho hright hright'
  | coreVariable h hx => exact .coreVariable (hk ▸ h) hx
  | text h => exact .text (hk ▸ h)
  | number h => exact .number (hk.trans h)
  | operator h => exact .operator (hk.trans h)
  | mark h => exact .mark (hk ▸ h)

theorem AllFormed.mono {later : Bool} (h : x.AllFormed stopped)
    (hs : stopped = true → later = true) : x.AllFormed later := fun y hy => by
  have := (h y hy).withLabel (l := y.label) hs rfl fun _ => rfl
  rwa [withLabel_label] at this

theorem mem_parts_withLabel (h : y ∈ (x.withLabel l).parts) : y = x.withLabel l ∨ y ∈ x.parts := by
  cases x <;> simp only [withLabel, parts, List.mem_cons, List.not_mem_nil, or_false] at h ⊢ <;>
    first | exact .inl h | exact h.imp_right .inr

theorem AllFormed.withLabel (h : x.AllFormed stopped) (hk : l.kind = x.label.kind)
    (hroot : l.kind ≠ .root) : (x.withLabel l).AllFormed stopped := by
  intro y hy
  rcases mem_parts_withLabel hy with rfl | hy
  · exact (h x (self_mem_parts x)).withLabel id hk fun h => absurd h hroot
  · exact h y hy

theorem allFormed_bare (h : (bare l).Formed stopped) : (bare l).AllFormed stopped := by
  simpa [AllFormed, parts] using h

theorem allFormed_leaf {v : Scalar} (h : (leaf l v).Formed stopped) :
    (leaf l v).AllFormed stopped := by
  simpa [AllFormed, parts] using h

theorem allFormed_list (h : (list l xs).Formed stopped) (hxs : ∀ x ∈ xs, x.AllFormed stopped) :
    (list l xs).AllFormed stopped := by
  intro y hy
  rw [parts, List.mem_cons] at hy
  rcases hy with rfl | hy
  · exact h
  · obtain ⟨x, hx, hy⟩ := mem_partsAll.1 hy
    exact hxs x hx y hy

end Item

namespace Grammar

open Item

variable {c : Context} {s after : Stand} {x : Item} {xs : List Item} {stopped : Bool}
  {t : LocatedToken}

theorem plain_fault (e : Fault) : e.item.Plain .error := ⟨rfl, rfl⟩

theorem formed_fault (e : Fault) : e.item.AllFormed stopped :=
  allFormed_leaf (.text (.inr (.inr (.inr rfl))))

namespace Reading

/-! ## Single tokens -/

theorem formed_identifierItem? (h : identifierItem? t = some x) :
    x.AllFormed stopped ∧ x.label.kind = .identifier := by
  obtain ⟨-, rfl⟩ := oneItem?_eq_some.1 h
  exact ⟨allFormed_leaf (.text (.inl rfl)), rfl⟩

theorem formed_stringItem? (h : stringItem? t = some x) :
    x.AllFormed stopped ∧ x.label.kind = .string := by
  obtain ⟨-, rfl⟩ := oneItem?_eq_some.1 h
  exact ⟨allFormed_leaf (.text (.inr (.inl rfl))), rfl⟩

theorem formed_numberItem? (h : numberItem? t = some x) :
    x.AllFormed stopped ∧ x.label.kind = .number := by
  obtain ⟨n, -, -, rfl⟩ := numberItem?_eq_some.1 h
  exact ⟨allFormed_leaf (.number rfl), rfl⟩

theorem formed_coreVariableItem? (h : coreVariableItem? t = some x) :
    x.AllFormed stopped ∧ x.label.kind.isCoreVariable = true := by
  obtain ⟨-, family, name, kind, -, hkind, rfl⟩ := coreVariableItem?_eq_some.1 h
  have hvariable := NodeKind.isCoreVariable_variableKind? hkind
  exact ⟨allFormed_list (.coreVariable hvariable ⟨rfl, rfl⟩)
    (List.forall_mem_singleton.2 (allFormed_leaf (.text (.inl rfl)))), hvariable⟩

theorem formed_targetItem? (stopped : Bool) (h : targetItem? t = some x) :
    x.AllFormed stopped ∧ x.IsTarget := by
  rcases targetItem?_eq_some.1 h with h | ⟨-, h⟩
  · exact (formed_identifierItem? h).imp_right .inl
  · exact (formed_coreVariableItem? h).imp_right .inr

theorem formed_valueItem? (stopped : Bool) (h : valueItem? t = some x) :
    x.AllFormed stopped ∧ x.IsValue := by
  rcases valueItem?_eq_some.1 h with h | ⟨-, h | ⟨-, h⟩⟩
  · exact (formed_numberItem? h).imp_right .inl
  · exact (formed_stringItem? h).imp_right fun h => .inr (.inl h)
  · exact (formed_coreVariableItem? h).imp_right fun h => .inr (.inr h)

/-! ## Statements and blocks -/

theorem formed_assignment (stopped : Bool) (h : assignment c s = .found x after) :
    x.AllFormed stopped ∧ x.Plain .assignment := by
  obtain ⟨left, op, right, hleft, hop, hright, rfl, -⟩ := assignment_eq_found.1 h
  obtain ⟨hlf, hl⟩ := formed_targetItem? stopped hleft
  obtain ⟨hrf, hr⟩ := formed_valueItem? stopped hright
  obtain ⟨-, rfl⟩ := oneItem?_eq_some.1 hop
  have hl' : (left.withRole "left").IsTarget := by
    rw [IsTarget, withRole, label_withLabel]
    exact hl
  have hr' : (right.withRole "right").IsValue := by
    rw [IsValue, withRole, label_withLabel]
    exact hr
  refine ⟨allFormed_list (.assignment rfl hl' ?_ rfl rfl hr' ?_) ?_, rfl, rfl⟩
  · rw [withRole, label_withLabel]
  · rw [withRole, label_withLabel]
  · simp only [List.forall_mem_cons, List.not_mem_nil, false_implies, implies_true, and_true]
    exact ⟨hlf.withLabel rfl hl.ne_root, allFormed_leaf (.operator rfl),
      hrf.withLabel rfl hr.ne_root⟩

theorem formed_statement (h : statement c s = .found x after) :
    x.AllFormed stopped ∧ x.Plain .statement := by
  obtain ⟨y, u, z, hy, hz, rfl, -⟩ := statement_eq_found.1 h
  obtain ⟨hyf, hyp⟩ := formed_assignment stopped hy
  obtain ⟨-, rfl⟩ := oneItem?_eq_some.1 hz
  refine ⟨allFormed_list (.statement rfl hyp ⟨rfl, rfl⟩) ?_, rfl, rfl⟩
  simp only [List.forall_mem_cons, List.not_mem_nil, false_implies, implies_true, and_true]
  exact ⟨hyf, allFormed_bare (.mark (.inl rfl))⟩

theorem formed_topLevelAssignment (h : topLevelAssignment c s = .found x after) :
    x.AllFormed stopped ∧ x.Plain .assignment := by
  obtain ⟨y, u, hy, hx⟩ := topLevelAssignment_eq_found.1 h
  obtain ⟨hyf, hyk, hyr⟩ := formed_assignment stopped hy
  rcases hx with ⟨z, -, rfl, -⟩ | ⟨-, rfl, -⟩
  · refine ⟨hyf.withLabel (Label.kind_over ..) (by rw [Label.kind_over, hyk]; decide), ?_, ?_⟩
    · rw [label_widenOver, Label.kind_over, hyk]
    · rw [label_widenOver, Label.role_over, hyr]
  · exact ⟨hyf, hyk, hyr⟩

/-- What stands in a block is formed, whether or not the parse stops: no part of it is a route. -/
def InBlock (stopped : Bool) (x : Item) : Prop :=
  x.AllFormed stopped ∧ (x.Plain .statement ∨ x.Plain .error)

theorem inBlock_fault (e : Fault) : InBlock stopped e.item := ⟨formed_fault e, .inr (plain_fault e)⟩

theorem Gathered.inBlock (h : Gathered statement c s xs after) : ∀ x ∈ xs, InBlock stopped x := by
  induction h with
  | stop => simp
  | more hx _ ih => exact List.forall_mem_cons.2 ⟨(formed_statement hx).imp_right .inl, ih⟩

theorem Bodied.inBlock (stopped : Bool) {rs : List ByteRange} (h : Bodied c s xs rs after) :
    ∀ x ∈ xs, InBlock stopped x := by
  induction h with
  | closed hg => exact hg.inBlock
  | unclosed hg | halted hg =>
    exact List.forall_mem_append.2 ⟨hg.inBlock, List.forall_mem_singleton.2 (inBlock_fault _)⟩
  | resumed hg _ _ _ _ _ ih =>
    exact List.forall_mem_append.2 ⟨hg.inBlock, List.forall_mem_cons.2 ⟨inBlock_fault _, ih⟩⟩

theorem formed_openBlock (hc : c.Closed) (stopped : Bool) (s : Stand) :
    (openBlock c s).1.AllFormed stopped ∧ (openBlock c s).1.Plain .block := by
  have hitems := (bodied_body hc (s.advance c)).inBlock stopped
  rw [openBlock]
  generalize body c (s.advance c) = b at hitems ⊢
  refine ⟨?_, by rw [Plain, label_bundle]; exact ⟨rfl, rfl⟩⟩
  simp only
  cases hb : b.items with
  | nil => exact allFormed_bare (.emptyBlock rfl)
  | cons y ys =>
    rw [hb] at hitems
    exact allFormed_list (.block rfl (by simp) fun z hz => (hitems z hz).2)
      fun z hz => (hitems z hz).1

/-! ## Routes -/

/-- A route is cut short only where the parse stops. -/
theorem formed_routeFrom (hc : c.Closed) {l : Label} (hl : l.kind.isRoute = true) (h : Header) :
    (routeFrom l c h).1.AllFormed (routeFrom l c h).2.stopped ∧
      (routeFrom l c h).1.label.kind.isRoute = true := by
  rw [routeFrom]
  cases h.error with
  | none =>
    obtain ⟨hb, hp⟩ := formed_openBlock hc _ h.after
    have hkind : (l.over (openBlock c h.after).1.label.range).kind.isRoute = true := by
      rwa [Label.kind_over]
    exact ⟨allFormed_list (.route hkind hp) (List.forall_mem_singleton.2 hb), hkind⟩
  | some e =>
    simp only
    by_cases hstop : (h.after.keep c).stopped = true
    · rw [if_pos hstop]
      exact ⟨allFormed_list (.routeCutShort hstop hl (plain_fault e))
        (List.forall_mem_singleton.2 (formed_fault e)), hl⟩
    · rw [if_neg hstop]
      obtain ⟨hb, hp⟩ := formed_openBlock hc _ (h.after.keep c)
      have hkind : ((l.widen e.range).over
          (openBlock c (h.after.keep c)).1.label.range).kind.isRoute = true := by
        rwa [Label.kind_over]
      exact ⟨allFormed_list (.routeWithError hkind (plain_fault e) hp) (List.forall_mem_cons.2
        ⟨formed_fault e, List.forall_mem_singleton.2 hb⟩), hkind⟩

theorem formed_route (hc : c.Closed) (h : route c s = .found x after) :
    x.AllFormed after.stopped ∧ x.label.kind.isRoute = true := by
  obtain ⟨kind, hkind, -, hx⟩ := route_eq_found.1 h
  obtain ⟨-, word, -, hword⟩ := kind_of_routeKind? hkind
  obtain ⟨hitem, hafter⟩ : x = _ ∧ after = _ := Prod.ext_iff.1 hx
  rw [hitem, hafter]
  exact formed_routeFrom hc (NodeKind.isRoute_ofRouteWord? hword) _

/-! ## Whole files -/

theorem formed_topLevel (hc : c.Closed) (h : topLevel c s = .found x after) :
    x.AllFormed after.stopped ∧ x.Plain .topLevel := by
  obtain ⟨-, y, hy, rfl⟩ := topLevel_eq_found.1 h
  suffices hsuffices : y.AllFormed after.stopped ∧
      (y.Plain .fileStarter ∨ y.Plain .assignment ∨ y.label.kind.isRoute = true) from
    ⟨allFormed_list (.topLevel rfl hsuffices.2) (List.forall_mem_singleton.2 hsuffices.1), rfl, rfl⟩
  rcases construct_eq_found.1 hy with hy | ⟨-, hy | ⟨-, hy⟩⟩
  · obtain ⟨hitem, -⟩ := (takesOne_fileStarter.found ..).1 hy
    obtain ⟨name, -, -, -, rfl⟩ := fileStarterItem?_eq_some.1 hitem
    exact ⟨allFormed_leaf (.text (.inr (.inr (.inl rfl)))), .inl ⟨rfl, rfl⟩⟩
  · exact (formed_topLevelAssignment hy).imp_right fun h => .inr (.inl h)
  · exact (formed_route hc hy).imp_right fun h => .inr (.inr h)

/-- What stands in a file is formed, given whether the parse has stopped. -/
def InFile (stopped : Bool) (x : Item) : Prop :=
  x.AllFormed stopped ∧ (x.Plain .topLevel ∨ x.Plain .error)

theorem inFile_fault (e : Fault) : InFile stopped e.item := ⟨formed_fault e, .inr (plain_fault e)⟩

/-- A parse that has stopped finds no more constructs. -/
theorem Gathered.inFile (hc : c.Closed) (h : Gathered topLevel c s xs after) :
    (s.stopped = true → after.stopped = true) ∧ ∀ x ∈ xs, InFile after.stopped x := by
  induction h with
  | stop => simp
  | @more s u after x xs hx _ ih =>
    obtain ⟨hform, hplain⟩ := formed_topLevel hc hx
    have hgoing := (Bool.or_eq_false_iff.1 (topLevel_eq_found.1 hx).1).2
    refine ⟨fun hs => ?_, List.forall_mem_cons.2 ⟨⟨hform.mono ih.1, .inl hplain⟩, ih.2⟩⟩
    rw [hgoing] at hs
    cases hs

theorem InFile.mono {later : Bool} (h : InFile stopped x) (hs : stopped = true → later = true) :
    InFile later x :=
  ⟨h.1.mono hs, h.2⟩

theorem stopped_keep_of_stopped (hs : s.stopped = true) : (s.keep c).stopped = true := by
  rw [Stand.keep, hs, Bool.true_or]

theorem Constructed.inFile (hc : c.Closed) (h : Constructed c s xs after) :
    (s.stopped = true → after.stopped = true) ∧ ∀ x ∈ xs, InFile after.stopped x := by
  induction h with
  | ended hg => exact hg.inFile hc
  | halted hg =>
    obtain ⟨hs, hxs⟩ := hg.inFile hc
    exact ⟨fun h => stopped_keep_of_stopped (hs h), List.forall_mem_append.2
      ⟨fun x hx => (hxs x hx).mono stopped_keep_of_stopped,
        List.forall_mem_singleton.2 (inFile_fault _)⟩⟩
  | resumed hg _ _ _ _ ih =>
    obtain ⟨hs, hxs⟩ := hg.inFile hc
    have hlater := fun h => ih.1 (stopped_keep_of_stopped h)
    exact ⟨fun h => hlater (hs h), List.forall_mem_append.2
      ⟨fun x hx => (hxs x hx).mono hlater, List.forall_mem_cons.2 ⟨inFile_fault _, ih.2⟩⟩⟩

theorem formed_script (hc : c.Closed) (s : Stand) :
    (script c s).1.AllFormed (script c s).2.stopped ∧ (script c s).1.label.kind = .root := by
  have hfile := ((constructed_constructs hc s).inFile hc).2
  rw [script]
  generalize constructs c s = found at hfile ⊢
  obtain ⟨xs, last⟩ := found
  simp only at hfile ⊢
  refine ⟨?_, by rw [covered, label_bundle]⟩
  rw [covered, bundle_append]
  refine allFormed_list (.root rfl rfl (fun x hx => (hfile x hx).2) ⟨rfl, rfl⟩)
    (List.forall_mem_append.2 ⟨fun x hx => (hfile x hx).1, List.forall_mem_singleton.2 ?_⟩)
  exact allFormed_bare (.mark (.inr rfl))

end Reading

theorem formed_readTokens (options : ParseOptions) (tokens : List LocatedToken) :
    (readTokens options tokens).1.AllFormed (readTokens options tokens).2.stopped ∧
      (readTokens options tokens).1.label.kind = .root :=
  Reading.formed_script (closed_ofTokens options tokens) (.ofTokens tokens)

end Grammar

/-- Every node of a parsed tree has below it what the schema has for its kind, and the root is a
root; a route without its block is there only if the parse stopped. No node stands for nothing, has
children by name, or has a list of children without any in it. -/
theorem parsed_tree_formed (options : ParseOptions) (tokens : List LocatedToken) :
    (∃ root, (parseTokens options tokens).root = some root ∧
      (parseTokens options tokens).kind root = .root) ∧
    ∀ id ∈ (parseTokens options tokens).reachable,
      ((parseTokens options tokens).item id).Formed (parseStops options tokens) ∧
      (parseTokens options tokens).kind id ≠ .empty ∧
      ((parseTokens options tokens).node id).payload.shape ≠ .named ∧
      ((parseTokens options tokens).node id).payload ≠ .children [] := by
  obtain ⟨root, hsound, hroot, -, hitem, -⟩ := parseTokens_spec options tokens
  obtain ⟨hformed, hkind⟩ := Grammar.formed_readTokens options tokens
  have hall : ∀ id ∈ (parseTokens options tokens).reachable,
      ((parseTokens options tokens).item id).Formed (parseStops options tokens) := by
    rw [parseStops_eq]
    refine List.forall_mem_map.1 ?_
    rw [map_item_reachable]
    exact hformed
  refine ⟨⟨root, hroot, by rw [← Tree.kind_item hsound, hitem, hkind]⟩, fun id hid => ?_⟩
  have hf := hall id hid
  refine ⟨hf, ?_, ?_⟩
  · rw [← Tree.kind_item hsound]
    exact hf.kind_ne_empty
  · rw [Tree.item_eq hsound] at hf
    exact hf.payload

end RouteScript
