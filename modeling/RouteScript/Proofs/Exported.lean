import RouteScript.Proofs.Grammar.Schema
import RouteScript.Proofs.Tree.Cleared
import RouteScript.Proofs.Tree.Likeness
import RouteScript.Render.Document
/-!
# Documents tell trees apart

A document names only what is there, and it does not say whether a value, a list or a map made it
so. Still nothing is lost: the members of an object have one name each, and a text, an integer, a
list and a map look different. Trees whose lists and maps of children hold something have the same
document exactly if they agree node for node.
-/
namespace RouteScript

/-! ## Documents as values -/

namespace Json

/-- The documents are the same as values: the members of an object are told by their names, in
whatever order they stand. -/
inductive Same : Json → Json → Prop
  | null : Same .null .null
  | string (s : String) : Same (.string s) (.string s)
  | integer (n : Int) : Same (.integer n) (.integer n)
  | array {xs ys : List Json} : List.Forall₂ Same xs ys → Same (.array xs) (.array ys)
  | object {ms ns : List (String × Json)} :
      (∀ name, Option.Rel Same (ms.lookup name) (ns.lookup name)) → Same (.object ms) (.object ns)

mutual

theorem Same.refl : ∀ x : Json, Same x x
  | .null => .null
  | .string s => .string s
  | .integer n => .integer n
  | .array xs => .array (sameAll_refl xs)
  | .object ms => .object (sameMembers_refl ms)

theorem sameAll_refl : ∀ xs : List Json, List.Forall₂ Same xs xs
  | [] => .nil
  | x :: xs => .cons (Same.refl x) (sameAll_refl xs)

theorem sameMembers_refl : ∀ (ms : List (String × Json)) (name : String),
    Option.Rel Same (ms.lookup name) (ms.lookup name)
  | [], _ => .none
  | (s, x) :: ms, name => by
    rw [List.lookup_cons]
    split
    · exact .some (Same.refl x)
    · exact sameMembers_refl ms name

end

theorem Same.eq_of_string {s t : String} (h : Same (.string s) (.string t)) : s = t := by
  cases h
  rfl

/-- Optional parts whose documents are related are so themselves. -/
theorem rel_of_rel_map {α β : Type} {f : α → Json} {g : β → Json} {o : Option α} {p : Option β}
    (h : Option.Rel Same (o.map f) (p.map g)) : Option.Rel (fun a b => Same (f a) (g b)) o p := by
  cases o <;> cases p <;> cases h
  · exact .none
  · exact .some ‹_›

theorem eq_of_rel_map {α : Type} {f : α → Json} (hf : ∀ a b, Same (f a) (f b) → a = b)
    {o p : Option α} (h : Option.Rel Same (o.map f) (p.map f)) : o = p := by
  cases rel_of_rel_map h with
  | some hab => exact congrArg some (hf _ _ hab)
  | none => rfl

end Json

/-! ## The members of an object -/

namespace NodeKind

/-- All kinds. -/
def all : List NodeKind :=
  [.root, .empty, .error, .endOfInput, .terminator, .topLevel, .fileStarter, .requestRoute,
   .replyRoute, .failureRoute, .onReplyRoute, .branchRoute, .localRoute, .startupRoute, .route,
   .block, .statement, .assignment, .operator, .identifier, .number, .string, .scriptVariable,
   .avpVariable]

theorem name_injective {k l : NodeKind} (h : k.name = l.name) : k = l :=
  have hall : ∀ k : NodeKind, k ∈ all := fun k => by cases k <;> decide
  have hnodup : (all.map name).Nodup := by decide +kernel
  List.inj_on_of_nodup_map hnodup (hall k) (hall l) h

end NodeKind

theorem Scalar.eq_of_same {v w : Scalar} (h : Json.Same v.document w.document) : v = w := by
  cases v <;> cases w <;> cases h <;> rfl

theorem ByteRange.eq_of_same {r s : ByteRange} (h : Json.Same r.document s.document) : r = s := by
  obtain ⟨start, stop⟩ := r
  obtain ⟨start', stop'⟩ := s
  cases h with
  | array h =>
    obtain ⟨hstart, hstop⟩ := List.forall₂_cons.1 h
    cases hstart
    cases (List.forall₂_cons.1 hstop).1
    rfl

namespace Label

variable {l m : Label} {v w : Option Scalar} {xs ys : List Json} {fs gs : List (String × Json)}

theorem lookup_singleton (key : String) (x : Json) (name : String) :
    [(key, x)].lookup name = if name = key then some x else none := by
  rw [List.lookup_cons]
  by_cases h : name = key
  · simp [h]
  · rw [beq_eq_false_iff_ne.2 h, if_neg h]
    rfl

theorem lookup_part {α : Type} (o : Option α) (f : α → Json) (key name : String) :
    (o.map fun a => (key, f a)).toList.lookup name = if name = key then o.map f else none := by
  cases o with
  | none => exact (ite_self none).symm
  | some a => exact lookup_singleton key (f a) name

theorem lookup_unless (b : Bool) (key : String) (x : Json) (name : String) :
    (if b then [] else [(key, x)]).lookup name =
      if name = key then if b then none else some x else none := by
  cases b with
  | true => exact (ite_self none).symm
  | false => exact lookup_singleton key x name

/-- What stands under a name in the object of a label. -/
theorem lookup_members (l : Label) (v : Option Scalar) (xs : List Json)
    (fs : List (String × Json)) (name : String) : (l.members v xs fs).lookup name =
      if name = "kind" then some (.string l.kind.name)
      else if name = "role" then l.role.map .string
      else if name = "value" then v.map Scalar.document
      else if name = "span" then l.range.map ByteRange.document
      else if name = "children" then if xs.isEmpty then none else some (.array xs)
      else if name = "named" then if fs.isEmpty then none else some (.object fs)
      else none := by
  simp only [members, List.lookup_append, lookup_singleton, lookup_part, lookup_unless]
  by_cases hkind : name = "kind"
  · simp [hkind]
  by_cases hrole : name = "role"
  · simp [hrole]
  by_cases hvalue : name = "value"
  · simp [hvalue]
  by_cases hspan : name = "span"
  · simp [hspan]
  by_cases hchildren : name = "children"
  · simp [hchildren]
  · simp [hkind, hrole, hvalue, hspan, hchildren]

/-- The objects of labels are the same only if all that they are made of is. -/
theorem eq_of_same_members
    (h : Json.Same (.object (l.members v xs fs)) (.object (m.members w ys gs))) :
    l = m ∧ v = w ∧ List.Forall₂ Json.Same xs ys ∧
      ∀ name, Option.Rel Json.Same (fs.lookup name) (gs.lookup name) := by
  cases h with
  | object h =>
    have hkind : Option.Rel Json.Same ((some l.kind).map (.string ·.name))
        ((some m.kind).map (.string ·.name)) := by
      simpa [lookup_members] using h "kind"
    have hrole : Option.Rel Json.Same (l.role.map .string) (m.role.map .string) := by
      simpa [lookup_members] using h "role"
    have hvalue : Option.Rel Json.Same (v.map Scalar.document) (w.map Scalar.document) := by
      simpa [lookup_members] using h "value"
    have hrange : Option.Rel Json.Same (l.range.map ByteRange.document)
        (m.range.map ByteRange.document) := by
      simpa [lookup_members] using h "span"
    have hlist : Option.Rel Json.Same (if xs.isEmpty then none else some (.array xs))
        (if ys.isEmpty then none else some (.array ys)) := by
      simpa [lookup_members] using h "children"
    have hrecord : Option.Rel Json.Same (if fs.isEmpty then none else some (.object fs))
        (if gs.isEmpty then none else some (.object gs)) := by
      simpa [lookup_members] using h "named"
    refine ⟨?_, Json.eq_of_rel_map (fun _ _ => Scalar.eq_of_same) hvalue, ?_, ?_⟩
    · have hkind := Json.eq_of_rel_map (fun _ _ h => NodeKind.name_injective h.eq_of_string) hkind
      have hrole := Json.eq_of_rel_map (fun _ _ h => h.eq_of_string) hrole
      have hrange := Json.eq_of_rel_map (fun _ _ => ByteRange.eq_of_same) hrange
      cases l
      cases m
      cases hkind
      cases hrole
      cases hrange
      rfl
    · cases xs <;> cases ys <;> cases hlist
      · exact .nil
      · rename_i h
        cases h with
        | array h => exact h
    · cases fs <;> cases gs <;> cases hrecord
      · exact fun _ => .none
      · rename_i h
        cases h with
        | object h => exact h

end Label

/-! ## Payloads that hold something -/

namespace Payload

variable {R : NodeId → NodeId → Prop} {p q : Payload}

/-- A list or a map of children, if there is one, is not empty. -/
def Filled (p : Payload) : Prop := p ≠ .children [] ∧ p ≠ .named .empty

instance (p : Payload) : Decidable p.Filled := inferInstanceAs (Decidable (_ ∧ _))

theorem filled_nothing : Filled .nothing := ⟨Payload.noConfusion, Payload.noConfusion⟩

theorem shape_of_filled (h : p.Filled) : p.shape =
    if p.scalar?.isSome then .scalar
    else if p.ordered.length ≠ 0 then .children
    else if p.names.size ≠ 0 then .named
    else .nothing := by
  cases p with
  | nothing | scalar _ => rfl
  | children ids =>
    have hids : ids.length ≠ 0 := fun hnil =>
      h.1 (congrArg children (List.length_eq_zero_iff.1 hnil))
    simp [shape, scalar?, ordered, hids]
  | named m =>
    have hm : m.size ≠ 0 := fun hnil =>
      h.2 (congrArg named (NameMap.ext (List.length_eq_zero_iff.1 hnil)))
    simp [shape, scalar?, ordered, names, hm]

/-- What a payload holds gives its shape away. -/
theorem matches_of_filled (hp : p.Filled) (hq : q.Filled) (hscalar : p.scalar? = q.scalar?)
    (hordered : List.Forall₂ R p.ordered q.ordered) (hnamed : p.names.Related R q.names) :
    p.Matches R q := by
  refine ⟨?_, hscalar, hordered, hnamed⟩
  rw [shape_of_filled hp, shape_of_filled hq, hscalar, hordered.length_eq, hnamed.size_eq]

end Payload

namespace Item

theorem listDocuments_eq_map (xs : List Item) : listDocuments xs = xs.map document := by
  induction xs with
  | nil => rfl
  | cons x xs ih => rw [listDocuments, ih, List.map_cons]

theorem recordDocuments_eq_map (fields : List (String × Item)) :
    recordDocuments fields = fields.map fun e => (e.1, e.2.document) := by
  induction fields with
  | nil => rfl
  | cons e fields ih => rw [recordDocuments, ih, List.map_cons]

/-- The document of an item is made of the documents of what it carries. -/
theorem document_build (l : Label) (f : NodeId → Item) (p : Payload) :
    (build l f p).document = .object (l.members p.scalar? (p.ordered.map fun c => (f c).document)
      (p.names.entries.map fun e => (e.1, (f e.2).document))) := by
  cases p with
  | nothing => rfl
  | scalar v => rfl
  | children ids =>
    rw [build, document, listDocuments_eq_map, List.map_map]
    rfl
  | named m =>
    rw [build, document, recordDocuments_eq_map, List.map_map]
    rfl

/-- Items of payloads that match are the same if they are for the children. -/
theorem build_eq_of_matches {l : Label} {f g : NodeId → Item} {p q : Payload}
    (h : p.Matches (fun c d => f c = g d) q) : build l f p = build l g q := by
  have hshape := h.shape
  cases p with
  | nothing =>
    cases q <;> cases hshape
    rfl
  | scalar v =>
    cases q <;> cases hshape
    rw [build, build, Payload.matches_scalar.1 h]
  | children ids =>
    cases q <;> cases hshape
    have hmap : List.Forall₂ (· = ·) (ids.map f) (_ : List Item) :=
      List.forall₂_map_left_iff.2 (List.forall₂_map_right_iff.2 h.ordered)
    rw [List.forall₂_eq_eq_eq] at hmap
    exact congrArg (list l) hmap
  | named m =>
    cases q <;> cases hshape
    exact congrArg (fun m : NameMap Item => record l m.entries) h.named.mapValues_eq

end Item

/-! ## Nodes that agree -/

namespace Tree

variable {t u : Tree} {a b c : NodeId}

/-- The children of a node by name. -/
abbrev childrenByName (t : Tree) (id : NodeId) : NameMap NodeId := (t.node id).payload.names

/-- The nodes are of one kind, with the same role, range and value; they have as many children in
their lists, which agree one by one, and under each name both have children that agree, or neither
has any. -/
inductive Agrees (t u : Tree) : NodeId → NodeId → Prop
  | intro {a b : NodeId} : t.kind a = u.kind b → (t.node a).role = (u.node b).role →
      (t.node a).range = (u.node b).range → (t.node a).scalar? = (u.node b).scalar? →
      List.Forall₂ (Agrees t u) (t.children a) (u.children b) →
      (∀ name, Option.Rel (Agrees t u) ((t.childrenByName a).get? name)
        ((u.childrenByName b).get? name)) → Agrees t u a b

/-- No way down from the node comes back to where it was, and what it meets on the way holds
something wherever it has a list or a map of children. -/
structure Full (t : Tree) (id : NodeId) : Prop where
  acyclic : t.Acyclic id
  filled : ∀ x, Relation.ReflTransGen t.Holds id x → (t.node x).payload.Filled

theorem Full.child (h : t.Full a) (hc : c ∈ t.childIds a) : t.Full c :=
  ⟨h.acyclic.child hc, fun x hx => h.filled x (.head hc hx)⟩

theorem document_item (h : t.Acyclic a) : (t.item a).document =
    .object ((t.node a).label.members (t.node a).scalar?
      ((t.children a).map fun c => (t.item c).document)
      ((t.childrenByName a).entries.map fun e => (e.1, (t.item e.2).document))) := by
  rw [h.item_eq, Item.document_build]
  rfl

/-- Nodes whose documents are the same agree. -/
theorem agrees_of_same (ha : t.Acyclic a) : ∀ {b : NodeId}, u.Acyclic b →
    Json.Same (t.item a).document (u.item b).document → Agrees t u a b := by
  refine ha.induction (motive := fun a => ∀ {b}, u.Acyclic b →
    Json.Same (t.item a).document (u.item b).document → Agrees t u a b) fun a ha ih b hb h => ?_
  rw [document_item ha, document_item hb] at h
  obtain ⟨hlabel, hvalue, hlist, hrecord⟩ := Label.eq_of_same_members h
  rw [List.forall₂_map_left_iff, List.forall₂_map_right_iff] at hlist
  refine .intro (congrArg Label.kind hlabel) (congrArg Label.role hlabel)
    (congrArg Label.range hlabel) hvalue ?_ ?_
  · exact forall₂_imp_of_mem hlist fun c hc d hd => ih c (Payload.ordered_subset_ids _ hc)
      (hb.child (Payload.ordered_subset_ids _ hd))
  · have hrelated : (t.childrenByName a).Related
        (fun c d => Json.Same (t.item c).document (u.item d).document) (u.childrenByName b) :=
      fun name => by
        have hname := hrecord name
        rw [NameMap.lookup_map_entries _ fun c => (t.item c).document,
          NameMap.lookup_map_entries _ fun d => (u.item d).document] at hname
        exact Json.rel_of_rel_map hname
    exact hrelated.imp fun c hc d hd => ih c (Payload.values_names_subset_ids _ hc)
      (hb.child (Payload.values_names_subset_ids _ hd))

/-- Nodes that agree have the same item. -/
theorem item_eq_of_agrees (ha : t.Full a) : ∀ {b : NodeId}, u.Full b →
    Agrees t u a b → t.item a = u.item b := by
  refine ha.acyclic.induction (motive := fun a => t.Full a → ∀ {b}, u.Full b → Agrees t u a b →
    t.item a = u.item b) (fun a hacyclic ih ha b hb h => ?_) ha
  cases h with
  | intro hkind hrole hrange hvalue hlist hrecord =>
    have hlabel : (t.node a).label = (u.node b).label := by
      rw [Node.label, Node.label, hrole, hrange, show (t.node a).kind = (u.node b).kind from hkind]
    have hmatches : (t.node a).payload.Matches (Agrees t u) (u.node b).payload :=
      Payload.matches_of_filled (ha.filled a .refl) (hb.filled b .refl) hvalue hlist hrecord
    rw [hacyclic.item_eq, hb.acyclic.item_eq, hlabel]
    exact Item.build_eq_of_matches (hmatches.imp fun c hc d hd =>
      ih c hc (ha.child hc) (hb.child hd))

/-- Nodes agree exactly if they have the same item. -/
theorem agrees_iff_item_eq (ha : t.Full a) (hb : u.Full b) :
    Agrees t u a b ↔ t.item a = u.item b :=
  ⟨item_eq_of_agrees ha hb, fun h =>
    agrees_of_same ha.acyclic hb.acyclic (h ▸ Json.Same.refl _)⟩

theorem document_of_root (ha : t.root = some a) : t.document = (t.item a).document := by
  rw [document, rootItem?, ha]
  rfl

theorem alike_of_item_eq (ha : t.root = some a) (hb : u.root = some b)
    (h : t.item a = u.item b) : t.alike u = true ∧ u.alike t = true := by
  have hself : (u.item b).alike (u.item b) = true := alike_itemWithin u u.size b
  have hroots : t.rootItem? = u.rootItem? := by
    rw [rootItem?, rootItem?, ha, hb, Option.map_some, Option.map_some, h]
  rw [alike, alike, hroots, rootItem?, hb]
  exact ⟨hself, hself⟩

/-! ## Where nothing is empty -/

theorem Full.clearRanges (h : t.Full a) : t.clearRanges.Full a := by
  have hpayload : ∀ x, (t.clearRanges.node x).payload = (t.node x).payload := fun x => by
    rw [node_clearRanges]
  have hholds := holds_eq_of_payload hpayload
  refine ⟨?_, fun x hx => ?_⟩
  · rw [Acyclic, hholds]
    exact h.acyclic
  · rw [hpayload]
    exact h.filled x (hholds ▸ hx)

/-- A store with every child behind its parent and without an empty list or map. -/
theorem full_of_childrenBehind (h : t.childrenBehind = true)
    (hfilled : ∀ x < t.size, (t.node x).payload.Filled) (id : NodeId) : t.Full id := by
  refine ⟨acyclic_of_childrenBehind h id, fun x _ => ?_⟩
  rcases Nat.lt_or_ge x t.size with hx | hx
  · exact hfilled x hx
  · rw [node_of_size_le hx]
    exact Payload.filled_nothing

theorem Sound.within_of_holds (hs : t.Sound) {x : NodeId}
    (h : Relation.ReflTransGen t.Holds a x) : t.Within a x := by
  induction h with
  | refl => exact .here
  | tail _ hc ih => exact ih.trans (Within.here.of_child hs.links hc)

end Tree

/-- Nothing is empty in a parsed tree. -/
theorem full_parseTokens (options : ParseOptions) (tokens : List LocatedToken) :
    ∃ root, (parseTokens options tokens).root = some root ∧
      (parseTokens options tokens).Full root := by
  obtain ⟨root, hsound, hroot, hlt, -⟩ := parseTokens_spec options tokens
  refine ⟨root, hroot, hsound.acyclic_payloads root, fun x hx => ?_⟩
  have hpart : (parseTokens options tokens).item x ∈ (Grammar.readTokens options tokens).1.parts :=
    map_item_reachable options tokens ▸ List.mem_map_of_mem
      ((Tree.mem_reachable hsound hroot hlt).2 (hsound.within_of_holds hx))
  have hformed := (Grammar.formed_readTokens options tokens).1 _ hpart
  rw [Tree.item_eq hsound] at hformed
  obtain ⟨hnamed, hchildren⟩ := hformed.payload
  exact ⟨hchildren, fun hempty => hnamed (congrArg Payload.shape hempty)⟩

/-- Of trees in which no way down from the root comes back and nothing is empty, as parsed trees
are, two have the same document exactly if they agree node for node; it makes no difference whether
documents are compared as they are written or as values. Trees with the same document are alike. -/
theorem document_tells_apart :
    (∀ (t u : Tree) (a b : NodeId), t.root = some a → u.root = some b → t.Full a → u.Full b →
      (t.document = u.document ↔ t.Agrees u a b) ∧
      (Json.Same t.document u.document ↔ t.Agrees u a b) ∧
      (Json.Same t.document u.document → t.alike u = true ∧ u.alike t = true)) ∧
    (∀ options tokens, ∃ root, (parseTokens options tokens).root = some root ∧
      (parseTokens options tokens).Full root) ∧
    ∀ tokens, ∃ root, (parseUnlocated tokens).root = some root ∧
      (parseUnlocated tokens).Full root := by
  refine ⟨fun t u a b hroot hroot' ha hb => ?_, full_parseTokens, fun tokens => ?_⟩
  · have hitem := Tree.agrees_iff_item_eq ha hb
    rw [Tree.document_of_root hroot, Tree.document_of_root hroot']
    have hsame : Json.Same (t.item a).document (u.item b).document → t.Agrees u a b :=
      Tree.agrees_of_same ha.acyclic hb.acyclic
    refine ⟨⟨fun h => hsame (h ▸ .refl _), fun h => congrArg Item.document (hitem.1 h)⟩,
      ⟨hsame, fun h => hitem.1 h ▸ .refl _⟩, fun h => ?_⟩
    exact Tree.alike_of_item_eq hroot hroot' (hitem.1 (hsame h))
  · obtain ⟨root, hroot, hfull⟩ := full_parseTokens .default (tokens.map (⟨·, .empty 0⟩))
    rw [parseUnlocated]
    exact ⟨root, (Tree.root_clearRanges _).trans hroot, hfull.clearRanges⟩

/-- A list of a name, a number and an end mark. -/
def shortList : Tree where
  nodes := #[{ Node.ofKind .statement with payload := .children [1, 2, 3] },
    (Node.leaf .identifier (.text "x")).withRange ⟨0, 1⟩, Node.leaf .number (.integer 1),
    Node.ofKind .terminator]
  root := some 0

/-- The same list from another store, with a node that is out of reach. -/
def shuffledList : Tree where
  nodes := #[Node.error "lost", { Node.ofKind .statement with payload := .children [4, 2, 3] },
    { Node.leaf .number (.integer 1) with depth := 5 }, Node.ofKind .terminator,
    (Node.leaf .identifier (.text "x")).withRange ⟨0, 1⟩]
  root := some 1

/-- A text in place of the number. -/
def misreadList : Tree where
  nodes := #[{ Node.ofKind .statement with payload := .children [1, 2, 3] },
    (Node.leaf .identifier (.text "x")).withRange ⟨0, 1⟩, Node.leaf .number (.text "1"),
    Node.ofKind .terminator]
  root := some 0

theorem document_tells_apart_lists :
    shortList.Full 0 ∧ shuffledList.Full 1 ∧ misreadList.Full 0 ∧
      shortList.document = shuffledList.document ∧ shortList.alike shuffledList = true ∧
      ¬ Json.Same shortList.document misreadList.document := by
  have hshort : shortList.Full 0 := Tree.full_of_childrenBehind (by decide) (by decide) 0
  have hshuffled : shuffledList.Full 1 := Tree.full_of_childrenBehind (by decide) (by decide) 1
  have hmisread : misreadList.Full 0 := Tree.full_of_childrenBehind (by decide) (by decide) 0
  have hagrees : shortList.Agrees shuffledList 0 1 :=
    .intro rfl rfl rfl rfl
      (.cons (.intro rfl rfl rfl rfl .nil NameMap.related_empty) <|
        .cons (.intro rfl rfl rfl rfl .nil NameMap.related_empty) <|
          .cons (.intro rfl rfl rfl rfl .nil NameMap.related_empty) .nil)
      NameMap.related_empty
  have hpair := document_tells_apart.1 shortList shuffledList 0 1 rfl rfl hshort hshuffled
  have hapart := document_tells_apart.1 shortList misreadList 0 0 rfl rfl hshort hmisread
  refine ⟨hshort, hshuffled, hmisread, hpair.1.2 hagrees,
    (hpair.2.2 (hpair.2.1.2 hagrees)).1, fun h => ?_⟩
  cases hapart.2.1.1 h with
  | intro _ _ _ _ hlist _ =>
    cases (List.forall₂_cons.1 (List.forall₂_cons.1 hlist).2).1 with
    | intro _ _ _ hvalue _ _ => exact absurd hvalue (by decide)

end RouteScript
