import RouteScript.Proofs.Grammar.Schema
import RouteScript.Proofs.Tree.Unranged
/-!
# The mistakes that are kept

What is found below the level of blocks has no mistake in it, and leaves the mistakes that were kept
alone. Blocks, routes and files keep mistakes, and each that they keep is one part of their item:
the count of a parse goes up by the mistakes in what it finds (`mistakes_script`).
-/
namespace RouteScript

namespace Item

variable {l : Label} {x y : Item} {xs : List Item}

theorem Clean.withLabel (h : x.Clean) (hk : l.kind = x.label.kind) : (x.withLabel l).Clean := by
  intro y hy
  rcases mem_parts_withLabel hy with rfl | hy
  · rw [label_withLabel, hk]
    exact h x (self_mem_parts x)
  · exact h y hy

theorem Clean.withRole (h : x.Clean) (role : String) : (x.withRole role).Clean := h.withLabel rfl

theorem Clean.widenOver (h : x.Clean) (y : Item) : (x.widenOver y).Clean :=
  h.withLabel (Label.kind_over ..)

/-! ## Counting -/

/-- How many parts of the item are mistakes. -/
def mistakes (x : Item) : Nat := x.parts.countP fun y => y.label.kind = .error

/-- How many mistakes there are in several items. -/
def mistakesAll (xs : List Item) : Nat :=
  (xs.flatMap parts).countP fun y => y.label.kind = .error

@[simp] theorem mistakesAll_nil : mistakesAll [] = 0 := rfl

@[simp] theorem mistakesAll_cons (x : Item) (xs : List Item) :
    mistakesAll (x :: xs) = x.mistakes + mistakesAll xs := by
  simp [mistakesAll, mistakes]

@[simp] theorem mistakesAll_append (xs ys : List Item) :
    mistakesAll (xs ++ ys) = mistakesAll xs + mistakesAll ys := by
  simp [mistakesAll]

theorem mistakes_eq_zero : x.mistakes = 0 ↔ x.Clean := by
  simp [mistakes, Clean, List.countP_eq_zero]

theorem mistakesAll_eq_zero : mistakesAll xs = 0 ↔ ∀ x ∈ xs, x.Clean := by
  induction xs with
  | nil => simp
  | cons x xs ih => simp [ih, mistakes_eq_zero]

/-- A node that is no mistake itself has those of the items below it. -/
theorem mistakes_bundle (h : l.kind ≠ .error) : (bundle l xs).mistakes = mistakesAll xs := by
  cases xs with
  | nil => exact mistakes_eq_zero.2 (clean_bare.2 h)
  | cons x xs =>
    simp only [bundle, mistakes, mistakesAll, parts, List.countP_cons, label, h, decide_false,
      Bool.false_eq_true, if_false, Nat.add_zero, partsAll_eq_flatMap]

theorem mistakes_list (h : l.kind ≠ .error) (x : Item) (xs : List Item) :
    (list l (x :: xs)).mistakes = mistakesAll (x :: xs) :=
  by
  rw [← mistakes_bundle h, bundle]

end Item

namespace Grammar

open Item

variable {c : Context} {s u after : Stand} {x : Item} {xs : List Item} {t : LocatedToken}
  {f : Reading} {rs : List ByteRange}

@[simp] theorem mistakes_fault (e : Fault) : e.item.mistakes = 1 := rfl

namespace Stand

/-- Places that differ in the tokens still to read only have kept the same mistakes. -/
theorem mistakes_of_goTo {pending : List LocatedToken} (h : u.goTo pending = s.goTo pending) :
    u.mistakes = s.mistakes :=
  (congrArg Stand.mistakes h : (u.goTo pending).mistakes = (s.goTo pending).mistakes)

theorem stopped_of_goTo {pending : List LocatedToken} (h : u.goTo pending = s.goTo pending) :
    u.stopped = s.stopped :=
  (congrArg Stand.stopped h : (u.goTo pending).stopped = (s.goTo pending).stopped)

@[simp] theorem mistakes_advance (c : Context) (s : Stand) : (s.advance c).mistakes = s.mistakes :=
  mistakes_of_goTo (goTo_advance c s [])

@[simp] theorem stopped_advance (c : Context) (s : Stand) : (s.advance c).stopped = s.stopped :=
  stopped_of_goTo (goTo_advance c s [])

end Stand

namespace Reading

/-! ## Below the level of blocks -/

theorem clean_coreVariableItem? (h : coreVariableItem? t = some x) : x.Clean := by
  obtain ⟨-, family, name, kind, -, hkind, rfl⟩ := coreVariableItem?_eq_some.1 h
  have hvariable := NodeKind.outcome_of_isCoreVariable (NodeKind.isCoreVariable_variableKind? hkind)
  exact clean_list.2 ⟨NodeKind.ne_error_of_outcome hvariable,
    List.forall_mem_singleton.2 (clean_leaf.2 (by rintro ⟨⟩))⟩

theorem clean_targetItem? (h : targetItem? t = some x) : x.Clean := by
  rcases targetItem?_eq_some.1 h with h | ⟨-, h⟩
  · obtain ⟨-, rfl⟩ := oneItem?_eq_some.1 h
    exact clean_leaf.2 (by rintro ⟨⟩)
  · exact clean_coreVariableItem? h

theorem clean_valueItem? (h : valueItem? t = some x) : x.Clean := by
  rcases valueItem?_eq_some.1 h with h | ⟨-, h | ⟨-, h⟩⟩
  · obtain ⟨n, -, -, rfl⟩ := numberItem?_eq_some.1 h
    exact clean_leaf.2 (by rintro ⟨⟩)
  · obtain ⟨-, rfl⟩ := oneItem?_eq_some.1 h
    exact clean_leaf.2 (by rintro ⟨⟩)
  · exact clean_coreVariableItem? h

theorem clean_assignment (h : assignment c s = .found x after) : x.Clean := by
  obtain ⟨left, op, right, hleft, hop, hright, rfl, -⟩ := assignment_eq_found.1 h
  obtain ⟨-, rfl⟩ := oneItem?_eq_some.1 hop
  refine clean_list.2 ⟨(by simp), ?_⟩
  simp only [List.forall_mem_cons, List.not_mem_nil, false_implies, implies_true, and_true]
  exact ⟨(clean_targetItem? hleft).withRole _, clean_leaf.2 (by rintro ⟨⟩),
    (clean_valueItem? hright).withRole _⟩

theorem clean_statement (h : statement c s = .found x after) : x.Clean := by
  obtain ⟨y, u, z, hy, hz, rfl, -⟩ := statement_eq_found.1 h
  obtain ⟨-, rfl⟩ := oneItem?_eq_some.1 hz
  refine clean_list.2 ⟨(by simp), ?_⟩
  simp only [List.forall_mem_cons, List.not_mem_nil, false_implies, implies_true, and_true]
  exact ⟨clean_assignment hy, clean_bare.2 (by rintro ⟨⟩)⟩

theorem clean_topLevelAssignment (h : topLevelAssignment c s = .found x after) : x.Clean := by
  obtain ⟨y, u, hy, ⟨z, -, rfl, -⟩ | ⟨-, rfl, -⟩⟩ := topLevelAssignment_eq_found.1 h
  · exact (clean_assignment hy).widenOver z
  · exact clean_assignment hy

theorem clean_fileStarter (h : fileStarter c s = .found x after) : x.Clean := by
  obtain ⟨hitem, -⟩ := (takesOne_fileStarter.found ..).1 h
  obtain ⟨name, -, -, -, rfl⟩ := fileStarterItem?_eq_some.1 hitem
  exact clean_leaf.2 (by rintro ⟨⟩)

theorem quiet_statement : statement.Quiet := by
  intro c s x after h
  obtain ⟨y, u, _, hy, _, _, rfl⟩ := statement_eq_found.1 h
  rw [Stand.goTo_advance]
  exact quiet_assignment c s y u hy

theorem quiet_topLevelAssignment : topLevelAssignment.Quiet := by
  intro c s x after h
  obtain ⟨y, u, hy, ⟨_, _, _, rfl⟩ | ⟨_, _, rfl⟩⟩ := topLevelAssignment_eq_found.1 h
  · rw [Stand.goTo_advance]
    exact quiet_assignment c s y u hy
  · exact quiet_assignment c s y _ hy

/-- A repetition of a reading that leaves the mistakes alone leaves them alone. -/
theorem Gathered.goTo (hf : f.Quiet) (h : Gathered f c s xs after) (pending : List LocatedToken) :
    after.goTo pending = s.goTo pending := by
  induction h with
  | stop => rfl
  | more hx _ ih => exact ih.trans (hf.goTo hx pending)

theorem Gathered.clean_statements (h : Gathered statement c s xs after) :
    ∀ x ∈ xs, x.Clean := by
  induction h with
  | stop => simp
  | more hx _ ih => exact List.forall_mem_cons.2 ⟨clean_statement hx, ih⟩

/-! ## Blocks and routes -/

theorem Bodied.mistakes (h : Bodied c s xs rs after) :
    after.mistakes = s.mistakes + mistakesAll xs := by
  have hkept : ∀ {s here : Stand} {xs : List Item}, Gathered statement c s xs here →
      here.mistakes = s.mistakes ∧ mistakesAll xs = 0 := fun hg =>
    ⟨Stand.mistakes_of_goTo (hg.goTo quiet_statement []),
      mistakesAll_eq_zero.2 hg.clean_statements⟩
  induction h with
  | closed hg =>
    obtain ⟨hs, hxs⟩ := hkept hg
    rw [Stand.mistakes_advance, hs, hxs, Nat.add_zero]
  | unclosed hg | halted hg =>
    obtain ⟨hs, hxs⟩ := hkept hg
    rw [Stand.keep, hs, mistakesAll_append, hxs]
    rfl
  | @resumed s here after xs ys rs e hg _ _ _ _ _ ih =>
    obtain ⟨hs, hxs⟩ := hkept hg
    have hrestart : (here.restart true c).mistakes = here.mistakes + 1 := rfl
    rw [ih, hrestart, hs, mistakesAll_append, hxs, mistakesAll_cons, mistakes_fault]
    omega

theorem mistakes_openBlock (hc : c.Closed) (s : Stand) :
    (openBlock c s).2.mistakes = s.mistakes + (openBlock c s).1.mistakes := by
  have := (bodied_body hc (s.advance c)).mistakes
  rw [Stand.mistakes_advance] at this
  rw [openBlock, mistakes_bundle (l := ⟨.block, none, _⟩) (by simp)]
  exact this

theorem mistakes_routeFrom (hc : c.Closed) {l : Label} (hl : l.kind ≠ .error) (h : Header) :
    (routeFrom l c h).2.mistakes = h.after.mistakes + (routeFrom l c h).1.mistakes := by
  have hkeep : (h.after.keep c).mistakes = h.after.mistakes + 1 := rfl
  rw [routeFrom]
  cases h.error with
  | none =>
    simp only
    rw [mistakes_list (by rwa [Label.kind_over]), mistakes_openBlock hc]
    simp
  | some e =>
    simp only
    by_cases hstop : (h.after.keep c).stopped = true
    · rw [if_pos hstop]
      simp only
      rw [mistakes_list (l := l.widen e.range) hl, hkeep]
      rfl
    · rw [if_neg hstop]
      simp only
      rw [mistakes_list (by rwa [Label.kind_over]), mistakes_openBlock hc, hkeep]
      simp only [mistakesAll_cons, mistakesAll_nil, mistakes_fault]
      omega

theorem mistakes_route (hc : c.Closed) (h : route c s = .found x after) :
    after.mistakes = s.mistakes + x.mistakes := by
  obtain ⟨kind, hkind, -, hx⟩ := route_eq_found.1 h
  obtain ⟨-, word, -, hword⟩ := kind_of_routeKind? hkind
  have hne := NodeKind.ne_error_of_outcome
    (NodeKind.outcome_of_isRoute (NodeKind.isRoute_ofRouteWord? hword))
  obtain ⟨rfl, rfl⟩ : x = _ ∧ after = _ := Prod.ext_iff.1 hx
  rw [mistakes_routeFrom hc hne]
  have hheader := Stand.mistakes_of_goTo ((headed_header kind c (s.advance c)).goTo [])
  rw [hheader, Stand.mistakes_advance]

/-! ## Whole files -/

theorem mistakes_topLevel (hc : c.Closed) (h : topLevel c s = .found x after) :
    after.mistakes = s.mistakes + x.mistakes := by
  obtain ⟨-, y, hy, rfl⟩ := topLevel_eq_found.1 h
  rw [covered, mistakes_bundle (l := ⟨.topLevel, none, _⟩) (by simp), mistakesAll_cons,
    mistakesAll_nil, Nat.add_zero]
  rcases construct_eq_found.1 hy with hy | ⟨-, hy | ⟨-, hy⟩⟩
  · rw [mistakes_eq_zero.2 (clean_fileStarter hy)]
    exact Stand.mistakes_of_goTo (takesOne_fileStarter.quiet.goTo hy [])
  · rw [mistakes_eq_zero.2 (clean_topLevelAssignment hy)]
    exact Stand.mistakes_of_goTo (quiet_topLevelAssignment.goTo hy [])
  · exact mistakes_route hc hy

theorem Gathered.mistakes (hc : c.Closed) (h : Gathered topLevel c s xs after) :
    after.mistakes = s.mistakes + mistakesAll xs := by
  induction h with
  | stop => rfl
  | more hx _ ih => rw [ih, mistakes_topLevel hc hx, mistakesAll_cons, Nat.add_assoc]

theorem Constructed.mistakes (hc : c.Closed) (h : Constructed c s xs after) :
    after.mistakes = s.mistakes + mistakesAll xs := by
  induction h with
  | ended hg => exact hg.mistakes hc
  | @halted s here xs e hg =>
    have hkeep : (here.keep c).mistakes = here.mistakes + 1 := rfl
    rw [hkeep, hg.mistakes hc, mistakesAll_append]
    rfl
  | @resumed s here after xs ys e hg _ _ _ _ ih =>
    have hrestart : (here.restart false c).mistakes = here.mistakes + 1 := rfl
    rw [ih, hrestart, hg.mistakes hc, mistakesAll_append, mistakesAll_cons, mistakes_fault]
    omega

/-- A parse counts the mistakes that are in its tree. -/
theorem mistakes_script (hc : c.Closed) (s : Stand) :
    (script c s).2.mistakes = s.mistakes + (script c s).1.mistakes := by
  have h := (constructed_constructs hc s).mistakes hc
  rw [script]
  generalize constructs c s = found at h ⊢
  obtain ⟨xs, last⟩ := found
  simp only at h ⊢
  have hclosing : mistakes ((Node.ofKind .endOfInput).withRange c.closing.range).alone = 0 :=
    mistakes_eq_zero.2 (clean_bare.2 (by rintro ⟨⟩))
  rw [covered, mistakes_bundle (l := ⟨.root, none, _⟩) (by simp), mistakesAll_append,
    mistakesAll_cons, hclosing]
  exact h

end Reading
end Grammar
end RouteScript
