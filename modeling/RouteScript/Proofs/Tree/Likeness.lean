import RouteScript.Proofs.Tree.Acyclic
import RouteScript.Proofs.Tree.Alike
import RouteScript.Proofs.Tree.Names
import RouteScript.Proofs.Tree.Trace
/-!
# Likeness of nodes

Where no way down comes back, two nodes are alike exactly if their labels agree and their children
match one by one, by place or by name (`alikeAt_iff`). Children by name are looked up from one side
only; that there are as many on the other makes likeness symmetric all the same. A label without a
role agrees with any role, so roles may be taken away, and depths, parents and ranges have no part
in it at all.
-/
namespace RouteScript

/-! ## Payloads that match -/

namespace Payload

variable {R S : NodeId → NodeId → Prop} {p q : Payload}

/-- The payloads are of one shape and carry the same value, or children of which each is related to
the one of its place or its name on the other side. -/
structure Matches (R : NodeId → NodeId → Prop) (p q : Payload) : Prop where
  shape : p.shape = q.shape
  scalar : p.scalar? = q.scalar?
  ordered : List.Forall₂ R p.ordered q.ordered
  named : p.names.Related R q.names

theorem matches_nothing : Matches R .nothing .nothing := ⟨rfl, rfl, .nil, NameMap.related_empty⟩

theorem matches_scalar {v w : Scalar} : Matches R (.scalar v) (.scalar w) ↔ v = w :=
  ⟨fun h => Option.some.inj h.scalar, fun h => ⟨rfl, congrArg some h, .nil, NameMap.related_empty⟩⟩

theorem matches_children {ids others : List NodeId} :
    Matches R (.children ids) (.children others) ↔ List.Forall₂ R ids others :=
  ⟨fun h => h.ordered, fun h => ⟨rfl, rfl, h, NameMap.related_empty⟩⟩

theorem matches_named {m n : NameMap NodeId} :
    Matches R (.named m) (.named n) ↔ m.Related R n :=
  ⟨fun h => h.named, fun h => ⟨rfl, rfl, .nil, h⟩⟩

theorem Matches.imp (h : Matches R p q) (hRS : ∀ c ∈ p.ids, ∀ d ∈ q.ids, R c d → S c d) :
    Matches S p q where
  shape := h.shape
  scalar := h.scalar
  ordered := forall₂_imp_of_mem h.ordered fun c hc d hd =>
    hRS c (p.ordered_subset_ids hc) d (q.ordered_subset_ids hd)
  named := h.named.imp fun c hc d hd =>
    hRS c (p.values_names_subset_ids hc) d (q.values_names_subset_ids hd)

theorem Matches.swap (h : Matches R p q) : Matches (fun d c => R c d) q p where
  shape := h.shape.symm
  scalar := h.scalar.symm
  ordered := h.ordered.flip
  named := h.named.flip

end Payload

/-! ## Items that are alike -/

namespace Label

theorem agrees_iff {l m : Label} : l.agrees m = true ↔
    l.kind = m.kind ∧ ∀ r s, l.role = some r → m.role = some s → r = s := by
  unfold agrees
  cases l.role <;> cases m.role <;> simp

theorem agrees_comm (l m : Label) : l.agrees m = m.agrees l := by
  rw [Bool.eq_iff_iff, agrees_iff, agrees_iff]
  exact and_congr eq_comm ⟨fun h r s hr hs => (h s r hs hr).symm,
    fun h r s hr hs => (h s r hs hr).symm⟩

end Label

namespace Item

theorem alikeAll_iff {xs ys : List Item} : alikeAll xs ys = true ↔
    List.Forall₂ (fun x y => x.alike y = true) xs ys := by
  induction xs generalizing ys with
  | nil => cases ys <;> simp [alikeAll]
  | cons x xs ih =>
    cases ys with
    | nil => simp [alikeAll]
    | cons y ys => rw [alikeAll, Bool.and_eq_true, ih, List.forall₂_cons]

theorem alikeFields_iff {fields others : List (String × Item)} :
    alikeFields fields others = true ↔
      ∀ e ∈ fields, ∃ y, others.lookup e.1 = some y ∧ e.2.alike y = true := by
  induction fields with
  | nil => simp [alikeFields]
  | cons e fields ih =>
    rw [alikeFields, Bool.and_eq_true, ih, List.forall_mem_cons]
    refine and_congr_left fun _ => ?_
    cases others.lookup e.1 <;> simp

/-- Items are alike exactly if their labels agree and what they carry is alike. -/
theorem alike_build_iff {l m : Label} {f g : NodeId → Item} {p q : Payload} :
    (build l f p).alike (build m g q) = true ↔
      l.agrees m = true ∧ p.Matches (fun c d => (f c).alike (g d) = true) q := by
  by_cases hshape : p.shape = q.shape
  · cases p with
    | nothing =>
      cases q <;> cases hshape
      simp [build, alike, Payload.matches_nothing]
    | scalar v =>
      cases q <;> cases hshape
      simp [build, alike, Payload.matches_scalar]
    | children ids =>
      cases q <;> cases hshape
      rw [build, build, alike, Bool.and_eq_true, alikeAll_iff, Payload.matches_children,
        List.forall₂_map_left_iff, List.forall₂_map_right_iff]
    | named m =>
      cases q <;> cases hshape
      rw [build, build, alike, Bool.and_eq_true, Bool.and_eq_true, decide_eq_true_eq,
        alikeFields_iff, Payload.matches_named, NameMap.related_iff, List.length_map,
        List.length_map, and_assoc]
      simp only [List.forall_mem_map, NameMap.lookup_map_entries, Option.map_eq_some_iff,
        NameMap.get?_eq_some_iff]
      refine and_congr_right fun _ => and_congr_right fun _ => ⟨fun h name c hc => ?_, ?_⟩
      · obtain ⟨_, ⟨d, hd, rfl⟩, hcd⟩ := h (name, c) hc
        exact ⟨d, hd, hcd⟩
      · rintro h ⟨name, c⟩ hc
        obtain ⟨d, hd, hcd⟩ := h name c hc
        exact ⟨_, ⟨d, hd, rfl⟩, hcd⟩
  · refine iff_of_false (fun h => ?_) fun h => hshape h.2.shape
    cases p <;> cases q <;> simp_all [build, alike, Payload.shape]

end Item

/-! ## Nodes that are alike -/

namespace Tree

variable {t u v : Tree} {a b x : NodeId}

/-- Nodes are alike exactly if their labels agree and their children are alike one by one. -/
theorem alikeAt_iff (ha : t.Acyclic a) (hb : u.Acyclic b) :
    t.alikeAt a u b = true ↔ (t.node a).label.agrees (u.node b).label = true ∧
      (t.node a).payload.Matches (fun c d => t.alikeAt c u d = true) (u.node b).payload := by
  rw [alikeAt, ha.item_eq, hb.item_eq]
  exact Item.alike_build_iff

theorem alikeAt_swap (ha : t.Acyclic a) : ∀ {b : NodeId}, u.Acyclic b →
    t.alikeAt a u b = true → u.alikeAt b t a = true := by
  refine ha.induction (motive := fun a => ∀ {b}, u.Acyclic b →
    t.alikeAt a u b = true → u.alikeAt b t a = true) fun a ha ih b hb h => ?_
  obtain ⟨hlabel, hpayload⟩ := (alikeAt_iff ha hb).1 h
  refine (alikeAt_iff hb ha).2 ⟨(Label.agrees_comm _ _).trans hlabel, ?_⟩
  exact (hpayload.imp fun c hc d hd hcd => ih c hc (hb.child hd) hcd).swap

theorem alikeAt_comm (ha : t.Acyclic a) (hb : u.Acyclic b) :
    t.alikeAt a u b = u.alikeAt b t a :=
  Bool.eq_iff_iff.2 ⟨alikeAt_swap ha hb, alikeAt_swap hb ha⟩

/-! ## Changes that are not seen -/

/-- The tree `v` is `t` with other depths, parents and ranges, and with some of its roles taken
away. -/
structure Fades (t v : Tree) : Prop where
  root : v.root = t.root
  kind : ∀ x, v.kind x = t.kind x
  payload : ∀ x, (v.node x).payload = (t.node x).payload
  role : ∀ x, (v.node x).role = none ∨ (v.node x).role = (t.node x).role

/-- The tree `v` is `t` with other depths, parents and ranges. -/
structure Displaces (t v : Tree) : Prop where
  root : v.root = t.root
  kind : ∀ x, v.kind x = t.kind x
  payload : ∀ x, (v.node x).payload = (t.node x).payload
  role : ∀ x, (v.node x).role = (t.node x).role

theorem Displaces.symm (h : Displaces t v) : Displaces v t where
  root := h.root.symm
  kind x := (h.kind x).symm
  payload x := (h.payload x).symm
  role x := (h.role x).symm

theorem Displaces.fades (h : Displaces t v) : Fades t v :=
  ⟨h.root, h.kind, h.payload, fun x => .inr (h.role x)⟩

theorem Fades.acyclic (h : Fades t v) (ha : t.Acyclic a) : v.Acyclic a := by
  rwa [Acyclic, holds_eq_of_payload h.payload]

theorem Fades.agrees (h : Fades t v) {m : Label} (hm : (t.node x).label.agrees m = true) :
    (v.node x).label.agrees m = true := by
  obtain ⟨hkind, hrole⟩ := Label.agrees_iff.1 hm
  refine Label.agrees_iff.2 ⟨(h.kind x).trans hkind, fun r s hr hs => ?_⟩
  have hr : (v.node x).role = some r := hr
  rcases h.role x with hnone | hsame
  · rw [hnone] at hr
    cases hr
  · exact hrole r s (hsame.symm.trans hr) hs

/-- Nodes that are alike stay so if roles are taken away. -/
theorem Fades.alikeAt (h : Fades t v) (ha : t.Acyclic a) : ∀ {b : NodeId}, u.Acyclic b →
    t.alikeAt a u b = true → v.alikeAt a u b = true := by
  refine ha.induction (motive := fun a => ∀ {b}, u.Acyclic b →
    t.alikeAt a u b = true → v.alikeAt a u b = true) fun a ha ih b hb halike => ?_
  obtain ⟨hlabel, hpayload⟩ := (alikeAt_iff ha hb).1 halike
  refine (alikeAt_iff (h.acyclic ha) hb).2 ⟨h.agrees hlabel, ?_⟩
  rw [h.payload]
  exact hpayload.imp fun c hc d hd hcd => ih c hc (hb.child hd) hcd

theorem Displaces.alikeAt_eq (h : Displaces t v) (ha : t.Acyclic a) (hb : u.Acyclic b) :
    v.alikeAt a u b = t.alikeAt a u b :=
  Bool.eq_iff_iff.2 ⟨h.symm.fades.alikeAt (h.fades.acyclic ha) hb, h.fades.alikeAt ha hb⟩

/-! ## Trees that are alike -/

/-- No way down from the root comes back to where it was. -/
def RootAcyclic (t : Tree) : Prop := ∀ r, t.root = some r → t.Acyclic r

theorem alike_iff : t.alike u = true ↔ (t.root = none ∧ u.root = none) ∨
    ∃ a b, t.root = some a ∧ u.root = some b ∧ t.alikeAt a u b = true := by
  unfold alike rootItem?
  cases t.root <;> cases u.root <;> simp [Tree.alikeAt]

theorem alike_comm (ht : t.RootAcyclic) (hu : u.RootAcyclic) : t.alike u = u.alike t := by
  have swap : ∀ {t u : Tree}, t.RootAcyclic → u.RootAcyclic → t.alike u = true →
      u.alike t = true := by
    intro t u ht hu h
    rcases alike_iff.1 h with ⟨hr, hs⟩ | ⟨a, b, ha, hb, hab⟩
    · exact alike_iff.2 (.inl ⟨hs, hr⟩)
    · exact alike_iff.2 (.inr ⟨b, a, hb, ha, alikeAt_swap (ht a ha) (hu b hb) hab⟩)
  exact Bool.eq_iff_iff.2 ⟨swap ht hu, swap hu ht⟩

theorem Fades.rootAcyclic (h : Fades t v) (ht : t.RootAcyclic) : v.RootAcyclic := fun r hr =>
  h.acyclic (ht r (h.root ▸ hr))

theorem Fades.alike (h : Fades t v) (ht : t.RootAcyclic) (hu : u.RootAcyclic)
    (halike : t.alike u = true) : v.alike u = true := by
  rcases alike_iff.1 halike with ⟨hr, hs⟩ | ⟨a, b, ha, hb, hab⟩
  · exact alike_iff.2 (.inl ⟨h.root.trans hr, hs⟩)
  · exact alike_iff.2 (.inr ⟨a, b, h.root.trans ha, hb, h.alikeAt (ht a ha) (hu b hb) hab⟩)

theorem Displaces.alike_eq (h : Displaces t v) (ht : t.RootAcyclic) (hu : u.RootAcyclic) :
    v.alike u = t.alike u :=
  Bool.eq_iff_iff.2 ⟨h.symm.fades.alike (h.fades.rootAcyclic ht) hu, h.fades.alike ht hu⟩

/-- Where no way down comes back, nodes are alike if their labels agree and their children are alike
one by one. That is symmetric and reflexive; depths, parents and ranges on either side have no part
in it, and what is alike stays so if roles are taken away on either side. The same goes for trees,
which are alike if their roots are. -/
theorem alike_symmetric :
    (∀ (t u : Tree) (a b : NodeId), t.Acyclic a → u.Acyclic b →
      (t.alikeAt a u b = true ↔ (t.node a).label.agrees (u.node b).label = true ∧
        (t.node a).payload.Matches (fun c d => t.alikeAt c u d = true) (u.node b).payload) ∧
      t.alikeAt a u b = u.alikeAt b t a ∧ t.alikeAt a t a = true ∧
      (∀ v, Displaces t v →
        v.alikeAt a u b = t.alikeAt a u b ∧ u.alikeAt b v a = u.alikeAt b t a) ∧
      (∀ v, Fades t v → t.alikeAt a u b = true →
        v.alikeAt a u b = true ∧ u.alikeAt b v a = true)) ∧
    ∀ t u : Tree, t.RootAcyclic → u.RootAcyclic →
      t.alike u = u.alike t ∧ t.alike t = true ∧
      (∀ v, Displaces t v → v.alike u = t.alike u ∧ u.alike v = u.alike t) ∧
      (∀ v, Fades t v → t.alike u = true → v.alike u = true ∧ u.alike v = true) := by
  constructor
  · intro t u a b ha hb
    refine ⟨alikeAt_iff ha hb, alikeAt_comm ha hb, alike_itemWithin t t.size a,
      fun v hv => ?_, fun v hv halike => ?_⟩
    · have hleft := hv.alikeAt_eq ha hb
      refine ⟨hleft, ?_⟩
      rw [alikeAt_comm hb (hv.fades.acyclic ha), hleft, alikeAt_comm ha hb]
    · have hleft := hv.alikeAt ha hb halike
      exact ⟨hleft, alikeAt_swap (hv.acyclic ha) hb hleft⟩
  · intro t u ht hu
    refine ⟨alike_comm ht hu, alike_self t, fun v hv => ?_, fun v hv halike => ?_⟩
    · have hleft := hv.alike_eq ht hu
      refine ⟨hleft, ?_⟩
      rw [alike_comm hu (hv.fades.rootAcyclic ht), hleft, alike_comm ht hu]
    · have hleft := hv.alike ht hu halike
      exact ⟨hleft, (alike_comm (hv.rootAcyclic ht) hu).symm.trans hleft⟩

/-- A block with two operands by name, one of which it holds twice, as its payload was set by
hand. -/
def handSet : Tree where
  nodes := #[{ Node.ofKind .block with
      payload := .named (.ofList [("left", 1), ("right", 2), ("same", 1)]) },
    { Node.leaf .identifier (.text "x") with role := some "left" }, .leaf .number (.integer 1)]
  root := some 0

/-- The same with other places and ranges and with no role. -/
def handSetFaded : Tree where
  nodes := #[{ Node.ofKind .block with
      payload := .named (.ofList [("left", 1), ("right", 2), ("same", 1)]), depth := 7 },
    (Node.leaf .identifier (.text "x")).withRange ⟨4, 5⟩,
    { Node.leaf .number (.integer 1) with parent := some 0 }]
  root := some 0

theorem alike_symmetric_handSet : handSet.Acyclic 0 ∧ Fades handSet handSetFaded ∧
    handSetFaded.alikeAt 0 handSet 0 = true ∧ handSet.alike handSetFaded = true ∧
    handSet.alikeAt 1 handSet 2 = handSet.alikeAt 2 handSet 1 := by
  have hacyclic : ∀ x, handSet.Acyclic x := acyclic_of_childrenBehind (by decide +kernel)
  have hstored : ∀ x < 3, handSetFaded.kind x = handSet.kind x ∧
      (handSetFaded.node x).payload = (handSet.node x).payload ∧
      (handSetFaded.node x).role = none := by decide +kernel
  have hnode : ∀ x, handSetFaded.kind x = handSet.kind x ∧
      (handSetFaded.node x).payload = (handSet.node x).payload ∧
      (handSetFaded.node x).role = none := by
    intro x
    rcases Nat.lt_or_ge x 3 with hx | hx
    · exact hstored x hx
    · have hleft : handSet.node x = .ofKind .empty := node_of_size_le hx
      have hright : handSetFaded.node x = .ofKind .empty := node_of_size_le hx
      rw [kind, kind, hleft, hright]
      exact ⟨rfl, rfl, rfl⟩
  have hfades : Fades handSet handSetFaded :=
    ⟨rfl, fun x => (hnode x).1, fun x => (hnode x).2.1, fun x => .inl (hnode x).2.2⟩
  obtain ⟨nodes, trees⟩ := alike_symmetric
  have hself := nodes handSet handSet 0 0 (hacyclic 0) (hacyclic 0)
  have htree := trees handSet handSet (fun r _ => hacyclic r) fun r _ => hacyclic r
  exact ⟨hacyclic 0, hfades, (hself.2.2.2.2 _ hfades hself.2.2.1).1,
    (htree.2.2.2 _ hfades htree.2.1).2,
    (nodes handSet handSet 1 2 (hacyclic 1) (hacyclic 2)).2.1⟩

end Tree

end RouteScript
