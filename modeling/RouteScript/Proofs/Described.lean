import Mathlib.Data.List.Induction
import RouteScript.Proofs.Exported
import RouteScript.Proofs.Tree.Offspring
import RouteScript.Proofs.Tree.Trace
import RouteScript.Syntax.Blueprint
/-!
# Blueprints and their trees

Building a blueprint stores node after node and hangs each where it belongs, from the bottom up,
with the checks of the edits. What comes of it is what the blueprint says if it is read as a nested
value (`Blueprint.item`, `Blueprint.document`), and it is refused only for what can be seen of
the blueprint itself: a node that is to carry two kinds of things, or one below another that stands
for nothing (`Blueprint.built_as_described`).

In between stands `Blueprint.item?`, which adds item to item as the edits hang node below node.
-/
namespace RouteScript

/-! ## Maps by name -/

namespace NameMap

variable {α β : Type}

/-- Of the entries of one name the last counts. -/
theorem get?_ofList (es : List (String × α)) (name : String) :
    (ofList es).get? name = es.reverse.lookup name := by
  induction es using List.reverseRecOn with
  | nil => rfl
  | append_singleton es e ih =>
    rw [List.reverse_concat, List.lookup_cons, ← ih, ofList, List.foldl_append]
    rw [show List.foldl _ (List.foldl _ empty es) [e] = (ofList es).insert e.1 e.2 from rfl,
      get?_insert]
    by_cases h : name = e.1
    · simp [h]
    · rw [if_neg h, beq_eq_false_iff_ne.2 h]

theorem mapValues_ofList (f : α → β) (es : List (String × α)) :
    (ofList es).mapValues f = ofList (es.map fun e => (e.1, f e.2)) := by
  refine ext_get? fun name => ?_
  rw [get?_mapValues, get?_ofList, get?_ofList, ← List.map_reverse, lookup_map_snd]

end NameMap

namespace Item

/-- The item of a label and a map of items, bare if there are none. -/
def bundleNamed (l : Label) (m : NameMap Item) : Item :=
  match m.entries with
  | [] => .bare l
  | e :: es => .record l (e :: es)

/-- The item of a label and what it is to carry: a value, or else items, or else items by name. -/
def ofParts (l : Label) (value : Option Scalar) (items : List Item)
    (fields : List (String × Item)) : Item :=
  match value, items with
  | some v, _ => .leaf l v
  | none, [] => bundleNamed l (.ofList fields)
  | none, x :: xs => .list l (x :: xs)

theorem label_bundleNamed (l : Label) (m : NameMap Item) : (bundleNamed l m).label = l := by
  unfold bundleNamed
  split <;> rfl

theorem label_ofParts (l : Label) (value : Option Scalar) (items : List Item)
    (fields : List (String × Item)) : (ofParts l value items fields).label = l := by
  unfold ofParts
  split
  · rfl
  · exact label_bundleNamed l _
  · rfl

theorem document_bundleNamed (l : Label) (m : NameMap Item) :
    (bundleNamed l m).document = .object (l.members none [] (m.mapValues document).entries) := by
  rw [show (m.mapValues document).entries = m.entries.map fun e => (e.1, e.2.document) from rfl,
    bundleNamed]
  cases m.entries with
  | nil => rfl
  | cons e es => rw [document, recordDocuments_eq_map]

/-- The document of an item says what the item was made of, if that was of one kind. -/
theorem document_ofParts {l : Label} {value : Option Scalar} {items : List Item}
    {fields : List (String × Item)} (hvalue : value ≠ none → items = [] ∧ fields = [])
    (hitems : items = [] ∨ fields = []) : (ofParts l value items fields).document =
      .object (l.members value (items.map document)
        (NameMap.ofList (fields.map fun e => (e.1, e.2.document))).entries) := by
  cases value with
  | some v =>
    obtain ⟨rfl, rfl⟩ := hvalue (Option.some_ne_none v)
    rfl
  | none =>
    cases items with
    | nil =>
      rw [← NameMap.mapValues_ofList]
      exact document_bundleNamed l _
    | cons x xs =>
      obtain rfl := hitems.resolve_left (List.cons_ne_nil x xs)
      rw [ofParts, document, listDocuments_eq_map]
      rfl

/-- There is always room in a bundle. -/
theorem addLast?_bundle (l : Label) (xs : List Item) (x : Item) : (bundle l xs).addLast? x =
    if x.label.kind = .empty then none else some (bundle l (xs ++ [x])) := by
  rw [bundle_append]
  cases xs <;> simp [bundle, addLast?]

theorem bundleNamed_insert (l : Label) (m : NameMap Item) (name : String) (x : Item) :
    bundleNamed l (m.insert name x) = .record l (NameMap.insertEntry name x m.entries) := by
  have hne : NameMap.insertEntry name x m.entries ≠ [] :=
    List.ne_nil_of_mem ((NameMap.mem_insertEntry_iff m.sorted).2 (.inl rfl))
  rw [bundleNamed, NameMap.entries_insert]
  split
  · contradiction
  · rename_i hcons
    rw [hcons]

theorem addNamed?_bundleNamed (l : Label) (m : NameMap Item) (name : String) (x : Item) :
    (bundleNamed l m).addNamed? name x =
      if x.label.kind = .empty then none else some (bundleNamed l (m.insert name x)) := by
  rw [bundleNamed_insert, bundleNamed]
  split <;> rename_i hm <;> simp [addNamed?, hm]

end Item

namespace Blueprint

variable {b x : Blueprint}

/-! ## Blueprints as nested values -/

/-- The kind of the topmost node. -/
def kind : Blueprint → NodeKind
  | .node kind _ _ _ _ => kind

mutual

/-- The item that a blueprint describes; of the named children of one name the last counts. -/
def item : Blueprint → Item
  | .node kind value role children named =>
    .ofParts ⟨kind, role, none⟩ value (items children) (fields named)

/-- The items that blueprints describe. -/
def items : List Blueprint → List Item
  | [] => []
  | x :: xs => x.item :: items xs

/-- The items that blueprints with names describe. -/
def fields : List (String × Blueprint) → List (String × Item)
  | [] => []
  | (name, x) :: xs => (name, x.item) :: fields xs

end

mutual

/-- The document that a blueprint describes; of the named children of one name the last counts. -/
def document : Blueprint → Json
  | .node kind value role children named =>
    .object (Label.members ⟨kind, role, none⟩ value (documents children)
      (NameMap.ofList (memberDocuments named)).entries)

/-- The documents that blueprints describe. -/
def documents : List Blueprint → List Json
  | [] => []
  | x :: xs => x.document :: documents xs

/-- The documents that blueprints with names describe. -/
def memberDocuments : List (String × Blueprint) → List (String × Json)
  | [] => []
  | (name, x) :: xs => (name, x.document) :: memberDocuments xs

end

mutual

/-- The blueprint and all those below it, each before its own. -/
def parts : Blueprint → List Blueprint
  | .node kind value role children named =>
    .node kind value role children named :: (partsAll children ++ partsNamed named)

/-- The blueprints of a list and all those below them. -/
def partsAll : List Blueprint → List Blueprint
  | [] => []
  | x :: xs => parts x ++ partsAll xs

/-- The blueprints of a list with names and all those below them. -/
def partsNamed : List (String × Blueprint) → List Blueprint
  | [] => []
  | (_, x) :: xs => parts x ++ partsNamed xs

end

/-- The blueprints below the topmost node. -/
def descendants : Blueprint → List Blueprint
  | .node _ _ _ children named => partsAll children ++ partsNamed named

/-- The topmost node is to carry one kind of things: if it has a value it has no children, and its
children have no names, or all of them do. -/
def Single : Blueprint → Prop
  | .node _ value _ children named =>
    (value ≠ none → children = [] ∧ named = []) ∧ (children = [] ∨ named = [])

instance : ∀ b : Blueprint, Decidable b.Single
  | .node _ _ _ _ _ => inferInstanceAs (Decidable (_ ∧ _))

/-- Every node is to carry one kind of things, and none below another stands for nothing. -/
structure Fit (b : Blueprint) : Prop where
  single : ∀ x ∈ b.parts, x.Single
  solid : ∀ x ∈ b.descendants, x.kind ≠ .empty

theorem mem_parts_iff : x ∈ b.parts ↔ x = b ∨ x ∈ b.descendants := by
  cases b
  rw [parts, descendants, List.mem_cons]

theorem mem_partsAll : ∀ {xs : List Blueprint}, x ∈ partsAll xs ↔ ∃ y ∈ xs, x ∈ y.parts
  | [] => by simp [partsAll]
  | y :: xs => by rw [partsAll, List.mem_append, mem_partsAll]; simp

theorem mem_partsNamed : ∀ {xs : List (String × Blueprint)},
    x ∈ partsNamed xs ↔ ∃ e ∈ xs, x ∈ e.2.parts
  | [] => by simp [partsNamed]
  | (name, y) :: xs => by rw [partsNamed, List.mem_append, mem_partsNamed]; simp

/-- A blueprint that fits below another node. -/
def FitBelow (b : Blueprint) : Prop := b.Fit ∧ b.kind ≠ .empty

theorem fitBelow_iff : b.FitBelow ↔ ∀ x ∈ b.parts, x.Single ∧ x.kind ≠ .empty := by
  constructor
  · rintro ⟨hfit, hkind⟩ x hx
    refine ⟨hfit.single x hx, ?_⟩
    rcases mem_parts_iff.1 hx with rfl | hx
    · exact hkind
    · exact hfit.solid x hx
  · exact fun h => ⟨⟨fun x hx => (h x hx).1, fun x hx => (h x (mem_parts_iff.2 (.inr hx))).2⟩,
      (h b (mem_parts_iff.2 (.inl rfl))).2⟩

/-- A blueprint fits exactly if its topmost node does, and all of its children below it. -/
theorem fit_iff {kind : NodeKind} {value : Option Scalar} {role : Option String}
    {children : List Blueprint} {named : List (String × Blueprint)} :
    (node kind value role children named).Fit ↔
      (node kind value role children named).Single ∧ (∀ c ∈ children, c.FitBelow) ∧
        ∀ e ∈ named, e.2.FitBelow := by
  simp only [fitBelow_iff]
  constructor
  · rintro ⟨hsingle, hsolid⟩
    have hbelow : ∀ x ∈ partsAll children ++ partsNamed named, x.Single ∧ x.kind ≠ .empty :=
      fun x hx => ⟨hsingle x (mem_parts_iff.2 (.inr hx)), hsolid x hx⟩
    exact ⟨hsingle _ (mem_parts_iff.2 (.inl rfl)),
      fun c hc x hx => hbelow x (List.mem_append_left _ (mem_partsAll.2 ⟨c, hc, hx⟩)),
      fun e he x hx => hbelow x (List.mem_append_right _ (mem_partsNamed.2 ⟨e, he, hx⟩))⟩
  · rintro ⟨htop, hchildren, hnamed⟩
    have hbelow : ∀ x ∈ descendants (node kind value role children named),
        x.Single ∧ x.kind ≠ .empty := fun x hx => by
      rcases List.mem_append.1 hx with hx | hx
      · obtain ⟨c, hc, hx⟩ := mem_partsAll.1 hx
        exact hchildren c hc x hx
      · obtain ⟨e, he, hx⟩ := mem_partsNamed.1 hx
        exact hnamed e he x hx
    refine ⟨fun x hx => ?_, fun x hx => (hbelow x hx).2⟩
    rcases mem_parts_iff.1 hx with rfl | hx
    · exact htop
    · exact (hbelow x hx).1

/-! ## Item by item -/

mutual

/-- The item of a blueprint, made by adding the items of its children one after the other. -/
def item? : Blueprint → Option Item
  | .node kind value role children named =>
    (addAll? (.ofParts ⟨kind, role, none⟩ value [] []) children).bind (addAllNamed? · named)

/-- An item with those of blueprints at its end. -/
def addAll? (a : Item) : List Blueprint → Option Item
  | [] => some a
  | x :: xs => (x.item?.bind a.addLast?).bind (addAll? · xs)

/-- An item with those of blueprints under their names. -/
def addAllNamed? (a : Item) : List (String × Blueprint) → Option Item
  | [] => some a
  | (name, x) :: xs => (x.item?.bind (a.addNamed? name)).bind (addAllNamed? · xs)

end

theorem addTo_node (t : Tree) (kind : NodeKind) (value : Option Scalar) (role : Option String)
    (children : List Blueprint) (named : List (String × Blueprint)) :
    addTo t (.node kind value role children named) =
      ((addChildren (t.push (start kind value role)).2 t.size children).bind
        (addNamed · t.size named)).map (t.size, ·) := by
  rw [addTo]
  simp only [Tree.push]
  cases addChildren _ t.size children <;> rfl

theorem addChildren_cons (t : Tree) (id : NodeId) (x : Blueprint) (xs : List Blueprint) :
    addChildren t id (x :: xs) =
      ((addTo t x).bind fun r => r.2.attach id r.1).bind (addChildren · id xs) := by
  rw [addChildren]
  cases addTo t x with
  | error e => rfl
  | ok r =>
    simp only [Except.bind]
    cases r.2.attach id r.1 <;> rfl

theorem addNamed_cons (t : Tree) (id : NodeId) (name : String) (x : Blueprint)
    (xs : List (String × Blueprint)) : addNamed t id ((name, x) :: xs) =
      ((addTo t x).bind fun r => r.2.attachNamed id name r.1).bind (addNamed · id xs) := by
  rw [addNamed]
  cases addTo t x with
  | error e => rfl
  | ok r =>
    simp only [Except.bind]
    cases r.2.attachNamed id name r.1 <;> rfl

open RouteScript.Tree

/-- The node that is pushed first has the item of a node with nothing below it. -/
theorem expanded_push {t : Tree} (hs : t.Sound) (kind : NodeKind) (value : Option Scalar)
    (role : Option String) : Expanded t (t.push (start kind value role)).2 t.size
      (.ofParts ⟨kind, role, none⟩ value [] []) := by
  have hids : (start kind value role).payload.ids = [] := by cases value <;> rfl
  have htop := top_push hs hids rfl
  refine ⟨grows_push hs hids rfl, ?_⟩
  cases value <;> exact htop

mutual

/-- Adding a blueprint to a store goes as making its item does. -/
theorem addTo_follows {t : Tree} (hs : t.Sound) : ∀ b : Blueprint,
    Follows (fun r x => Expanded t r.2 r.1 x) (addTo t b) b.item?
  | .node kind value role children named => by
    rw [addTo_node, item?]
    have hchildren := addChildren_follows hs (expanded_push hs kind value role) children
    exact (hchildren.bind fun u a hu => addNamed_follows hs hu named).map fun _ _ h => h

theorem addChildren_follows {v t : Tree} {n : NodeId} {a : Item} (hv : v.Sound)
    (hn : Expanded v t n a) : ∀ xs : List Blueprint,
      Follows (fun u b => Expanded v u n b) (addChildren t n xs) (addAll? a xs)
  | [] => by
    rw [addChildren, addAll?]
    exact .ok hn
  | x :: xs => by
    rw [addChildren_cons, addAll?]
    exact ((addTo_follows hn.grows.sound x).bind fun _ _ hx => attach_follows hv hn hx).bind
      fun _ _ hn => addChildren_follows hv hn xs

theorem addNamed_follows {v t : Tree} {n : NodeId} {a : Item} (hv : v.Sound)
    (hn : Expanded v t n a) : ∀ xs : List (String × Blueprint),
      Follows (fun u b => Expanded v u n b) (addNamed t n xs) (addAllNamed? a xs)
  | [] => by
    rw [addNamed, addAllNamed?]
    exact .ok hn
  | (name, x) :: xs => by
    rw [addNamed_cons, addAllNamed?]
    exact ((addTo_follows hn.grows.sound x).bind fun _ _ hx => attachNamed_follows hv hn hx).bind
      fun _ _ hn => addNamed_follows hv hn xs

end

/-! ## What blueprints come to -/

theorem kind_item : ∀ b : Blueprint, b.item.label.kind = b.kind
  | .node kind value role children named => by
    rw [item, Item.label_ofParts]
    rfl

/-- A leaf has no room for children. -/
theorem addAll?_leaf {l : Label} {v : Scalar} {xs : List Blueprint} {a : Item} :
    addAll? (.leaf l v) xs = some a ↔ xs = [] ∧ a = .leaf l v := by
  have hfull : (Item.leaf l v).addLast? = fun _ => none := funext fun y => by simp [Item.addLast?]
  cases xs with
  | nil => simp [addAll?, eq_comm]
  | cons x xs => simp [addAll?, hfull]

/-- An item without room for others under names stays as it is only if there are none. -/
theorem addAllNamed?_of_full {a : Item} (ha : ∀ name y, a.addNamed? name y = none)
    {xs : List (String × Blueprint)} {c : Item} :
    addAllNamed? a xs = some c ↔ xs = [] ∧ c = a := by
  cases xs with
  | nil => simp [addAllNamed?, eq_comm]
  | cons e xs => simp [addAllNamed?, funext (ha _)]

theorem addAllNamed?_leaf {l : Label} {v : Scalar} {xs : List (String × Blueprint)} {a : Item} :
    addAllNamed? (.leaf l v) xs = some a ↔ xs = [] ∧ a = .leaf l v :=
  addAllNamed?_of_full fun _ _ => by simp [Item.addNamed?]

theorem addAllNamed?_list {l : Label} {ys : List Item} {xs : List (String × Blueprint)}
    {a : Item} : addAllNamed? (.list l ys) xs = some a ↔ xs = [] ∧ a = .list l ys :=
  addAllNamed?_of_full fun _ _ => by simp [Item.addNamed?]

/-- What has room for all that stands for something takes a blueprint exactly if it fits below. -/
theorem bind_item?_eq_some_iff {f : Item → Option Item} {g : Item → Item} {a : Item}
    (hx : ∀ {a}, x.item? = some a ↔ x.Fit ∧ a = x.item)
    (hf : ∀ y, f y = if y.label.kind = .empty then none else some (g y)) :
    x.item?.bind f = some a ↔ x.FitBelow ∧ a = g x.item := by
  simp only [Option.bind_eq_some_iff, hx, hf, FitBelow, Option.ite_none_left_eq_some,
    Option.some.injEq]
  constructor
  · rintro ⟨y, ⟨hfit, rfl⟩, hkind, rfl⟩
    exact ⟨⟨hfit, kind_item x ▸ hkind⟩, rfl⟩
  · rintro ⟨⟨hfit, hkind⟩, rfl⟩
    exact ⟨_, ⟨hfit, rfl⟩, (kind_item x).symm ▸ hkind, rfl⟩

mutual

/-- The item of a blueprint can be made exactly if the blueprint fits, and it is what the blueprint
describes. -/
theorem item?_eq_some_iff : ∀ {b : Blueprint} {a : Item},
    b.item? = some a ↔ b.Fit ∧ a = b.item
  | .node kind value role children named, a => by
    rw [item?, Option.bind_eq_some_iff, fit_iff, item]
    cases value with
    | some v =>
      rw [show Item.ofParts ⟨kind, role, none⟩ (some v) [] [] = .leaf _ v from rfl]
      simp only [addAll?_leaf]
      constructor
      · rintro ⟨_, ⟨rfl, rfl⟩, h⟩
        obtain ⟨rfl, rfl⟩ := addAllNamed?_leaf.1 h
        exact ⟨⟨⟨fun _ => ⟨rfl, rfl⟩, .inl rfl⟩, by simp⟩, rfl⟩
      · rintro ⟨⟨hsingle, -⟩, rfl⟩
        obtain ⟨rfl, rfl⟩ := hsingle.1 (Option.some_ne_none v)
        exact ⟨_, ⟨rfl, rfl⟩, addAllNamed?_leaf.2 ⟨rfl, rfl⟩⟩
    | none =>
      have hsingle : (node kind none role children named).Single ↔ children = [] ∨ named = [] :=
        ⟨And.right, fun h => ⟨fun hne => absurd rfl hne, h⟩⟩
      rw [hsingle, show Item.ofParts ⟨kind, role, none⟩ none [] [] = .bundle _ [] from rfl]
      simp only [addAll?_bundle, and_assoc, exists_and_left, exists_eq_left]
      cases children with
      | nil =>
        rw [show Item.bundle ⟨kind, role, none⟩ ([] ++ items []) = .bundleNamed _ .empty from rfl,
          addAllNamed?_bundle]
        simp [Item.ofParts, items, NameMap.ofList]
      | cons c cs =>
        rw [show Item.bundle ⟨kind, role, none⟩ ([] ++ items (c :: cs)) =
          .list _ (items (c :: cs)) from rfl, addAllNamed?_list]
        simp only [reduceCtorEq, false_or, Item.ofParts, items]
        constructor
        · rintro ⟨hchildren, rfl, rfl⟩
          exact ⟨rfl, hchildren, by simp, rfl⟩
        · rintro ⟨rfl, hchildren, -, rfl⟩
          exact ⟨hchildren, rfl, rfl⟩

theorem addAll?_bundle : ∀ {xs : List Blueprint} {l : Label} {done : List Item} {a : Item},
    addAll? (.bundle l done) xs = some a ↔
      (∀ x ∈ xs, x.FitBelow) ∧ a = .bundle l (done ++ items xs)
  | [], l, done, a => by simp [addAll?, items, eq_comm]
  | x :: xs, l, done, a => by
    rw [addAll?, Option.bind_eq_some_iff]
    simp only [bind_item?_eq_some_iff item?_eq_some_iff (Item.addLast?_bundle l done)]
    simp [addAll?_bundle, items, and_assoc]

theorem addAllNamed?_bundle : ∀ {xs : List (String × Blueprint)} {l : Label} {m : NameMap Item}
    {a : Item}, addAllNamed? (.bundleNamed l m) xs = some a ↔
      (∀ e ∈ xs, e.2.FitBelow) ∧
        a = .bundleNamed l ((fields xs).foldl (fun m e => m.insert e.1 e.2) m)
  | [], l, m, a => by simp [addAllNamed?, fields, eq_comm]
  | (name, x) :: xs, l, m, a => by
    rw [addAllNamed?, Option.bind_eq_some_iff]
    simp only [bind_item?_eq_some_iff item?_eq_some_iff (Item.addNamed?_bundleNamed l m name)]
    simp [addAllNamed?_bundle, fields, and_assoc]

end

/-! ## Documents -/

mutual

/-- The document of the item that a blueprint describes is the one that it describes. -/
theorem document_item : ∀ {b : Blueprint}, b.Fit → b.item.document = b.document
  | .node kind value role children named, h => by
    obtain ⟨⟨hvalue, hchildren⟩, hlast, hnamed⟩ := fit_iff.1 h
    rw [item, document, Item.document_ofParts
      (fun hv => (hvalue hv).imp (congrArg items) (congrArg fields))
      (hchildren.imp (congrArg items) (congrArg fields)), documents_items hlast,
      memberDocuments_fields hnamed]

theorem documents_items : ∀ {xs : List Blueprint}, (∀ x ∈ xs, x.FitBelow) →
    (items xs).map Item.document = documents xs
  | [], _ => rfl
  | x :: xs, h => by
    obtain ⟨hx, hxs⟩ := List.forall_mem_cons.1 h
    rw [items, documents, List.map_cons, document_item hx.1, documents_items hxs]

theorem memberDocuments_fields : ∀ {xs : List (String × Blueprint)},
    (∀ e ∈ xs, e.2.FitBelow) →
      (fields xs).map (fun e => (e.1, e.2.document)) = memberDocuments xs
  | [], _ => rfl
  | (name, x) :: xs, h => by
    obtain ⟨hx, hxs⟩ := List.forall_mem_cons.1 h
    rw [fields, memberDocuments, List.map_cons, document_item hx.1, memberDocuments_fields hxs]

end

/-! ## Building -/

/-- Building a blueprint goes as making its item does, which becomes that of the root. -/
theorem build_follows (b : Blueprint) : Follows (fun t x => t.Sound ∧
    ∃ root, t.root = some root ∧ t.OnTop root ∧ t.item root = x) b.build b.item? := by
  refine (addTo_follows sound_empty b).map fun ⟨root, t⟩ x h => ?_
  have hs := h.grows.sound
  obtain ⟨hsound, hroot, -, -⟩ := setRoot_spec hs h.top.lt_size
  exact ⟨hsound, root, hroot, onTop_setRoot hs h.top.lt_size, item_setRoot hs h.top⟩

/-- A blueprint can be built exactly if every node is to carry one kind of things, and none below
another stands for nothing. The tree is the nested value that the blueprint describes, its root is
at depth zero, and depths count the links from there. -/
theorem built_as_described (b : Blueprint) :
    ((∃ t, b.build = .ok t) ↔
      (∀ x ∈ b.parts, x.Single) ∧ ∀ x ∈ b.descendants, x.kind ≠ .empty) ∧
    ∀ t, b.build = .ok t → t.rootItem? = some b.item ∧ t.document = b.document ∧
      ∃ root, t.root = some root ∧ t.depth root = 0 ∧ t.CountsFrom root := by
  have hfollows := build_follows b
  constructor
  · rw [hfollows.exists_iff]
    constructor
    · rintro ⟨x, hx⟩
      have hfit := (item?_eq_some_iff.1 hx).1
      exact ⟨hfit.single, hfit.solid⟩
    · exact fun ⟨hsingle, hsolid⟩ => ⟨_, item?_eq_some_iff.2 ⟨⟨hsingle, hsolid⟩, rfl⟩⟩
  · intro t ht
    rw [ht] at hfollows
    generalize hx : b.item? = y at hfollows
    cases hfollows with
    | ok h =>
      obtain ⟨hsound, root, hroot, htop, hitem⟩ := h
      obtain ⟨hfit, rfl⟩ := item?_eq_some_iff.1 hx
      refine ⟨?_, ?_, root, hroot, htop.zero, htop.countsFrom hsound hroot⟩
      · rw [rootItem?, hroot, Option.map_some, hitem]
      · rw [document_of_root hroot, hitem, document_item hfit]

/-- A block with a name given twice, the second time to a list. -/
def renamed : Blueprint :=
  (((ofKind .block).withNamed "b" (leaf .number (.integer 1))).withNamed "a"
    ((leaf .string (.text "x")).withRole "left")).withNamed "b"
      ((ofKind .statement).withChild (ofKind .terminator))

/-- A leaf with a child. -/
def overfull : Blueprint := (ofKind .root).withChild ((leaf .number (.integer 1)).withChild
  (ofKind .terminator))

theorem built_as_described_renamed : (∃ t, renamed.build = .ok t ∧
    t.rootItem? = some (.record ⟨.block, none, none⟩
      [("a", .leaf ⟨.string, some "left", none⟩ (.text "x")),
       ("b", .list ⟨.statement, none, none⟩ [.bare ⟨.terminator, none, none⟩])])) ∧
    ¬ ∃ t, overfull.build = .ok t := by
  constructor
  · obtain ⟨hbuilt, hread⟩ := built_as_described renamed
    obtain ⟨t, ht⟩ := hbuilt.2 (by decide)
    exact ⟨t, ht, (hread t ht).1.trans rfl⟩
  · exact mt (built_as_described overfull).1.1 (by decide)

end Blueprint
end RouteScript
