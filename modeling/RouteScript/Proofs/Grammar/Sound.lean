import RouteScript.Proofs.Grammar.Derivation
import RouteScript.Proofs.Grammar.Loops
import RouteScript.Proofs.Token.Scanned
/-!
# What is read derives

A reading that finds an item without a mistake passes over tokens that the item, without its
ranges, derives from. It keeps no mistake on the way, since every mistake that is kept is part of
some item.
-/
namespace RouteScript.Grammar

open Item

variable {c : Context} {s u after : Stand} {ts us : List LocatedToken} {t : LocatedToken} {x : Item}
  {xs : List Item} {f : Reading}

/-! ## Passing tokens -/

namespace Stand

/-- The parse gets from one place to another by reading these tokens, and nothing else changes. -/
def Passes (s : Stand) (ts : List LocatedToken) (after : Stand) : Prop :=
  s = after.goTo (ts ++ after.pending)

theorem Passes.refl (s : Stand) : s.Passes [] s := rfl

theorem Passes.pending (h : s.Passes ts after) : s.pending = ts ++ after.pending := by
  rw [h]
  rfl

theorem Passes.stopped (h : s.Passes ts after) : after.stopped = s.stopped := by
  rw [h]
  rfl

theorem Passes.trans (h : s.Passes ts u) (k : u.Passes us after) : s.Passes (ts ++ us) after := by
  rw [Passes, h, k.pending, List.append_assoc, k]
  rfl

/-- The tokens still to read are as a scan makes them. -/
def Scanned (s : Stand) : Prop := ∀ t ∈ s.pending, t.token.Scanned

theorem Passes.scanned (h : s.Passes ts after) (hs : s.Scanned) : after.Scanned := fun t ht =>
  hs t (h.pending ▸ List.mem_append_right ts ht)

/-- Before the end of the stream, reading on passes the current token. -/
theorem passes_advance (hc : c.Closed) (h : (s.current c).isEnd = false) :
    s.Passes [s.current c] (s.advance c) := by
  cases hp : s.pending with
  | nil =>
    rw [current, hp, List.headD_nil, hc] at h
    cases h
  | cons t rest =>
    rw [Passes, advance, if_neg (by rw [h]; decide), current, hp, goTo]
    exact congrArg (fun p => { s with pending := p }) hp

theorem scanned_current (hc : c.Closed) (hs : s.Scanned) (h : (s.current c).isEnd = false) :
    (s.current c).token.Scanned :=
  hs _ ((passes_advance hc h).pending ▸ by simp)

/-- Of scanned tokens all are read unless the parse stops. -/
theorem Passes.pending_eq_nil (hp : s.Passes ts after) (hs : s.Scanned) (hgoing : s.stopped = false)
    (hend : ((after.current c).isEnd || after.stopped) = true) : after.pending = [] := by
  rw [hp.stopped, hgoing, Bool.or_false] at hend
  cases hpending : after.pending with
  | nil => rfl
  | cons t rest =>
    rw [current, hpending, List.headD_cons] at hend
    have := (hp.scanned hs t (hpending ▸ List.mem_cons_self)).isEnd
    exact absurd (this.symm.trans hend) (by decide)

end Stand

theorem Reading.TakesOne.passes {item? : LocatedToken → Option Item} (h : f.TakesOne item?)
    (hc : c.Closed) (hs : s.Scanned) (hx : item? (s.current c) = some x) :
    s.Passes [s.current c] (s.advance c) ∧ (s.current c).token.Scanned ∧ (s.advance c).Scanned := by
  have hend := h.notEnd _ _ hx
  have hpass := Stand.passes_advance hc hend
  exact ⟨hpass, Stand.scanned_current hc hs hend, hpass.scanned hs⟩

/-- The same for a token of a kind that does not close the stream. -/
theorem Stand.passes_of_kind {kind : TokenKind} (hc : c.Closed) (hs : s.Scanned)
    (hk : (s.current c).kind = kind) (hne : kind ≠ .endOfInput) :
    s.Passes [s.current c] (s.advance c) ∧ (s.advance c).Scanned := by
  have hpass := Stand.passes_advance hc (isEnd_eq_false hk hne)
  exact ⟨hpass, hpass.scanned hs⟩

namespace Reading

/-! ## Single tokens -/

theorem token_eq {kind : TokenKind} {literal : Literal} (hk : t.kind = kind)
    (hl : t.token.literal = literal) : t.token = ⟨kind, literal⟩ := by
  rw [← hk, ← hl]

theorem derives_coreVariableItem? (ht : t.token.Scanned) (h : coreVariableItem? t = some x)
    (role : String) : Derives.Variable role t.token (x.withRole role).unranged := by
  obtain ⟨-, family, name, kind, hlit, hkind, rfl⟩ := coreVariableItem?_eq_some.1 h
  rw [ht.kind_of_coreVariable hlit]
  unfold variableKind? at hkind
  split at hkind
  · cases hkind
    exact .script
  · cases hkind
    exact .avp
  · cases hkind

theorem derives_targetItem? (ht : t.token.Scanned) (h : targetItem? t = some x) :
    Derives.Target t.token (x.withRole "left").unranged := by
  rcases targetItem?_eq_some.1 h with h | ⟨-, h⟩
  · obtain ⟨hkind, rfl⟩ := oneItem?_eq_some.1 h
    obtain ⟨name, hname⟩ := ht.eq_ofText hkind (by decide) (by decide)
    rw [LocatedToken.kind, hname] at *
    exact .identifier
  · exact .coreVariable (derives_coreVariableItem? ht h "left")

theorem derives_valueItem? (ht : t.token.Scanned) (h : valueItem? t = some x) :
    Derives.Value t.token (x.withRole "right").unranged := by
  rcases valueItem?_eq_some.1 h with h | ⟨-, h | ⟨-, h⟩⟩
  · obtain ⟨n, hkind, hlit, rfl⟩ := numberItem?_eq_some.1 h
    rw [token_eq hkind hlit]
    exact .number
  · obtain ⟨hkind, rfl⟩ := oneItem?_eq_some.1 h
    obtain ⟨s, hs⟩ := ht.eq_ofText hkind (by decide) (by decide)
    rw [hs]
    exact .string
  · exact .coreVariable (derives_coreVariableItem? ht h "right")

theorem derives_nameItem? (ht : t.token.Scanned) (h : nameItem? t = some x) :
    Derives.Word t.token (nameRole x) := by
  rcases nameItem?_eq_some.1 h with h | ⟨-, h | ⟨-, h⟩⟩
  · obtain ⟨hkind, rfl⟩ := oneItem?_eq_some.1 h
    obtain ⟨s, hs⟩ := ht.eq_ofText hkind (by decide) (by decide)
    rw [hs]
    exact .identifier
  · obtain ⟨n, hkind, hlit, rfl⟩ := numberItem?_eq_some.1 h
    rw [token_eq hkind hlit]
    exact .number
  · obtain ⟨hkind, rfl⟩ := oneItem?_eq_some.1 h
    obtain ⟨s, hs⟩ := ht.eq_ofText hkind (by decide) (by decide)
    rw [hs]
    exact .string

/-! ## Statements and blocks -/

theorem derives_assignment (hc : c.Closed) (hs : s.Scanned) (h : assignment c s = .found x after) :
    ∃ ts, s.Passes ts after ∧ Derives.Assignment (ts.map (·.token)) x.unranged := by
  obtain ⟨left, op, right, hleft, hop, hright, rfl, rfl⟩ := assignment_eq_found.1 h
  obtain ⟨hp₁, ht₁, hs₁⟩ := takesOne_target.passes hc hs hleft
  obtain ⟨hp₂, -, hs₂⟩ := takesOne_assignOperator.passes hc hs₁ hop
  obtain ⟨hp₃, ht₃, -⟩ := takesOne_value.passes hc hs₂ hright
  obtain ⟨hkind, rfl⟩ := oneItem?_eq_some.1 hop
  exact ⟨_, (hp₁.trans hp₂).trans hp₃,
    .intro (derives_targetItem? ht₁ hleft) hkind (derives_valueItem? ht₃ hright)⟩

theorem Gathered.derives_statements (hc : c.Closed) (h : Gathered statement c s xs after)
    (hs : s.Scanned) :
    ∃ ts, s.Passes ts after ∧ Derives.Statements (ts.map (·.token)) (xs.map unranged) := by
  induction h with
  | @stop s => exact ⟨[], .refl s, .nil⟩
  | @more s u after x xs hx _ ih =>
    obtain ⟨y, v, z, hy, hz, rfl, rfl⟩ := statement_eq_found.1 hx
    obtain ⟨ts, hp, hd⟩ := derives_assignment hc hs hy
    obtain ⟨hp₁, -, hs₁⟩ := takesOne_terminator.passes hc (hp.scanned hs) hz
    obtain ⟨us, hrest, hds⟩ := ih hs₁
    obtain ⟨hkind, rfl⟩ := oneItem?_eq_some.1 hz
    refine ⟨_, (hp.trans hp₁).trans hrest, ?_⟩
    rw [List.append_assoc, List.map_append]
    exact .cons hd hkind hds

theorem not_clean_fault (e : Fault) : ¬ e.item.Clean := fun h => h _ (self_mem_parts _) rfl

/-- What is read of a block without a mistake ends with its brace. -/
theorem Bodied.closed_of_clean {rs : List ByteRange} (h : Bodied c s xs rs after)
    (hclean : ∀ x ∈ xs, x.Clean) : ∃ here, Gathered statement c s xs here ∧
      (here.current c).kind = .rightBrace ∧ rs = [(here.current c).range] ∧
      after = here.advance c := by
  have hfault : ∀ e : Fault, e.item ∉ xs := fun e he => not_clean_fault e (hclean _ he)
  cases h with
  | closed hg hclose => exact ⟨_, hg, hclose, rfl, rfl⟩
  | unclosed | halted | resumed =>
    exact absurd (List.mem_append_right _ List.mem_cons_self) (hfault _)

/-- A block without a mistake derives. -/
theorem derives_openBlock (hc : c.Closed) (hs : s.Scanned) (hopen : (s.current c).kind = .leftBrace)
    (hclean : (openBlock c s).1.Clean) : ∃ ts, s.Passes ts (openBlock c s).2 ∧
      Derives.Block (ts.map (·.token)) (openBlock c s).1.unranged := by
  obtain ⟨hp, hs₁⟩ := Stand.passes_of_kind hc hs hopen (by decide)
  have hbody := bodied_body hc (s.advance c)
  rw [openBlock, clean_bundle] at hclean
  obtain ⟨here, hg, hclose, -, hafter⟩ := hbody.closed_of_clean hclean.2
  obtain ⟨ts, hpass, hd⟩ := hg.derives_statements hc hs₁
  obtain ⟨hp₂, -⟩ := Stand.passes_of_kind hc (hpass.scanned hs₁) hclose (by decide)
  rw [openBlock, hafter]
  refine ⟨_, hp.trans (hpass.trans hp₂), ?_⟩
  rw [unranged_bundle, List.map_append, List.map_append]
  exact .intro hopen hd hclose

/-! ## Routes -/

theorem derives_routeName (hc : c.Closed) (hs : s.Scanned) (h : routeName c s = .found x after) :
    ∃ ts, s.Passes ts after ∧ Derives.Name (ts.map (·.token)) (nameRole x) := by
  obtain ⟨hopen, hname, hclose, rfl⟩ := routeName_eq_found.1 h
  obtain ⟨hp₁, hs₁⟩ := Stand.passes_of_kind hc hs hopen (by decide)
  obtain ⟨hp₂, ht₂, hs₂⟩ := takesOne_name.passes hc hs₁ hname
  obtain ⟨hp₃, -⟩ := Stand.passes_of_kind hc hs₂ hclose (by decide)
  exact ⟨_, (hp₁.trans hp₂).trans hp₃, .intro hopen (derives_nameItem? ht₂ hname) hclose⟩

theorem unranged_over (l : Label) (r : Option ByteRange) : (l.over r).unranged = l.unranged := by
  cases r <;> rfl

theorem unranged_widenOver (x y : Item) : (x.widenOver y).unranged = x.unranged := by
  rw [Item.widenOver, unranged_withLabel, unranged_over, ← label_unranged, withLabel_label]

/-- A route without a mistake has none in its header. -/
theorem error_of_clean {l : Label} {h : Header} (hclean : (routeFrom l c h).1.Clean) :
    h.error = none := by
  cases herror : h.error with
  | none => rfl
  | some e =>
    have he : e.item ∈ (routeFrom l c h).1.parts := by
      rw [routeFrom, herror]
      simp only
      split <;> simp [parts, partsAll, self_mem_parts]
    exact absurd rfl (hclean _ he)

/-- A route without a mistake has the name that its word asks for. -/
theorem derives_route (hc : c.Closed) (hs : s.Scanned) (h : route c s = .found x after)
    (hclean : x.Clean) : ∃ ts, s.Passes ts after ∧ Derives.Route (ts.map (·.token)) x.unranged := by
  obtain ⟨kind, hkind, hopen, hx⟩ := route_eq_found.1 h
  obtain ⟨hroute, word, hlit, hword⟩ := kind_of_routeKind? hkind
  obtain ⟨hp, hs₁⟩ := Stand.passes_of_kind hc hs hroute (by decide)
  have htoken := token_eq hroute hlit
  have hheaded := headed_header kind c (s.advance c)
  generalize header kind c (s.advance c) = hd at hheaded hopen hx
  obtain ⟨role, error, here⟩ := hd
  obtain ⟨rfl, rfl⟩ : x = _ ∧ after = _ := Prod.ext_iff.1 hx
  obtain rfl : error = none := error_of_clean hclean
  simp only [routeFrom] at hclean ⊢
  have hbody := List.forall_mem_singleton.1 (clean_list.1 hclean).2
  rw [unranged_list, List.map_cons, List.map_nil, unranged_over]
  cases hheaded with
  | named hname =>
    obtain ⟨ts, hpass, hd⟩ := derives_routeName hc hs₁ hname
    obtain ⟨us, hpass', hd'⟩ := derives_openBlock hc (hpass.scanned hs₁) hopen hbody
    refine ⟨_, hp.trans (hpass.trans hpass'), ?_⟩
    rw [List.singleton_append, List.map_cons, List.map_append, htoken]
    exact .named hword hd hd'
  | nameless hne =>
    obtain ⟨us, hpass', hd'⟩ := derives_openBlock hc hs₁ hopen hbody
    refine ⟨_, hp.trans hpass', ?_⟩
    rw [List.singleton_append, List.map_cons, htoken]
    exact .nameless hword hne hd'

/-! ## Whole files -/

theorem derives_topLevelAssignment (hc : c.Closed) (hs : s.Scanned)
    (h : topLevelAssignment c s = .found x after) :
    ∃ ts, s.Passes ts after ∧ Derives.TopLevel (ts.map (·.token)) x.unranged := by
  obtain ⟨y, u, hy, hx⟩ := topLevelAssignment_eq_found.1 h
  obtain ⟨ts, hp, hd⟩ := derives_assignment hc hs hy
  rcases hx with ⟨z, hz, rfl, rfl⟩ | ⟨-, rfl, rfl⟩
  · obtain ⟨hp₁, -, -⟩ := takesOne_terminator.passes hc (hp.scanned hs) hz
    refine ⟨_, hp.trans hp₁, ?_⟩
    rw [unranged_widenOver, List.map_append]
    exact .closedAssignment hd (oneItem?_eq_some.1 hz).1
  · exact ⟨ts, hp, .assignment hd⟩

theorem derives_construct (hc : c.Closed) (hs : s.Scanned) (h : construct c s = .found x after)
    (hclean : x.Clean) :
    ∃ ts, s.Passes ts after ∧ Derives.TopLevel (ts.map (·.token)) x.unranged := by
  rcases construct_eq_found.1 h with h | ⟨-, h | ⟨-, h⟩⟩
  · obtain ⟨hitem, rfl⟩ := (takesOne_fileStarter.found ..).1 h
    obtain ⟨hp, -, -⟩ := takesOne_fileStarter.passes hc hs hitem
    obtain ⟨name, hkind, hlit, hname, rfl⟩ := fileStarterItem?_eq_some.1 hitem
    refine ⟨_, hp, ?_⟩
    rw [List.map_cons, List.map_nil, token_eq hkind hlit]
    exact .fileStarter hname
  · exact derives_topLevelAssignment hc hs h
  · obtain ⟨ts, hp, hd⟩ := derives_route hc hs h hclean
    exact ⟨ts, hp, .route hd⟩

theorem Gathered.derives_topLevels (hc : c.Closed) (h : Gathered topLevel c s xs after)
    (hs : s.Scanned) (hclean : ∀ x ∈ xs, x.Clean) :
    ∃ ts, s.Passes ts after ∧ Derives.TopLevels (ts.map (·.token)) (xs.map unranged) := by
  induction h with
  | @stop s => exact ⟨[], .refl s, .nil⟩
  | @more s u after x xs hx _ ih =>
    obtain ⟨hxclean, hxsclean⟩ := List.forall_mem_cons.1 hclean
    obtain ⟨-, y, hy, rfl⟩ := topLevel_eq_found.1 hx
    have hyclean : y.Clean := (clean_list.1 hxclean).2 y (by simp)
    obtain ⟨ts, hp, hd⟩ := derives_construct hc hs hy hyclean
    obtain ⟨us, hrest, hds⟩ := ih (hp.scanned hs) hxsclean
    refine ⟨_, hp.trans hrest, ?_⟩
    rw [List.map_append]
    exact .cons hd hds

/-- A file without a mistake is constructs up to its end. -/
theorem Constructed.ended_of_clean (h : Constructed c s xs after) (hclean : ∀ x ∈ xs, x.Clean) :
    Gathered topLevel c s xs after ∧ ((after.current c).isEnd || after.stopped) = true := by
  have hfault : ∀ e : Fault, e.item ∉ xs := fun e he => not_clean_fault e (hclean _ he)
  cases h with
  | ended hg hend => exact ⟨hg, hend⟩
  | halted | resumed => exact absurd (List.mem_append_right _ List.mem_cons_self) (hfault _)

/-- What is read of a whole stream without a mistake derives, and nothing is left over. -/
theorem derives_script (hc : c.Closed) (hs : s.Scanned) (hgoing : s.stopped = false)
    (hclean : (script c s).1.Clean) :
    ∃ xs, Derives.TopLevels (s.pending.map (·.token)) xs := by
  have hxs : ∀ x ∈ (constructs c s).1, x.Clean := fun x hx =>
    (clean_bundle.1 hclean).2 x (List.mem_append_left _ hx)
  obtain ⟨hg, hend⟩ := (constructed_constructs hc s).ended_of_clean hxs
  obtain ⟨ts, hp, hd⟩ := hg.derives_topLevels hc hs hxs
  rw [hp.pending, hp.pending_eq_nil hs hgoing hend, List.append_nil]
  exact ⟨_, hd⟩

end Reading
end RouteScript.Grammar
