import Mathlib.Data.List.Nodup
import RouteScript.Proofs.Tree.Links
import RouteScript.Syntax.Item
/-!
# Walks of a sound tree

On a sound tree no walk is cut short by its bound, so the bounded walks satisfy the equations of the
unbounded ones: the item of a node is made of the items of its children (`item_eq`), and the walk of
a node is the node and then the walks of its children (`subtree_eq`). The items met on the way down
are the parts of the item of the node (`map_item_subtree`).
-/
namespace RouteScript

/-! ## Parts of an item -/

mutual

/-- An item and all items below it, each before its children. -/
def Item.parts : Item → List Item
  | .bare l => [.bare l]
  | .leaf l v => [.leaf l v]
  | .list l xs => .list l xs :: partsAll xs
  | .record l xs => .record l xs :: partsFields xs

/-- The parts of several items. -/
def Item.partsAll : List Item → List Item
  | [] => []
  | x :: xs => x.parts ++ partsAll xs

/-- The parts of several fields. -/
def Item.partsFields : List (String × Item) → List Item
  | [] => []
  | (_, x) :: xs => x.parts ++ partsFields xs

end

namespace Item

theorem partsAll_eq_flatMap : ∀ xs : List Item, partsAll xs = xs.flatMap parts
  | [] => rfl
  | x :: xs => by rw [partsAll, partsAll_eq_flatMap xs, List.flatMap_cons]

theorem partsFields_eq_flatMap : ∀ xs : List (String × Item),
    partsFields xs = xs.flatMap fun e => e.2.parts
  | [] => rfl
  | (_, x) :: xs => by rw [partsFields, partsFields_eq_flatMap xs, List.flatMap_cons]

theorem mem_partsAll {x : Item} {xs : List Item} :
    x ∈ partsAll xs ↔ ∃ y ∈ xs, x ∈ y.parts := by
  rw [partsAll_eq_flatMap, List.mem_flatMap]

/-- The item of a label and a payload, made of the items of the children. -/
def build (l : Label) (f : NodeId → Item) : Payload → Item
  | .nothing => .bare l
  | .scalar value => .leaf l value
  | .children ids => .list l (ids.map f)
  | .named ids => .record l (ids.entries.map fun e => (e.1, f e.2))

theorem build_congr {l : Label} {f g : NodeId → Item} {p : Payload} (h : ∀ c ∈ p.ids, f c = g c) :
    build l f p = build l g p := by
  cases p with
  | nothing => rfl
  | scalar _ => rfl
  | children ids =>
    have h' : ∀ c ∈ ids, f c = g c := h
    rw [build, build, List.map_congr_left h']
  | named m =>
    rw [build, build, List.map_congr_left fun e he => by rw [h e.2 (List.mem_map.2 ⟨e, he, rfl⟩)]]

@[simp] theorem label_build (l : Label) (f : NodeId → Item) (p : Payload) :
    (build l f p).label = l := by
  cases p <;> rfl

theorem parts_build (l : Label) (f : NodeId → Item) (p : Payload) :
    (build l f p).parts = build l f p :: p.ids.flatMap fun c => (f c).parts := by
  cases p with
  | nothing => rfl
  | scalar _ => rfl
  | children ids =>
    rw [build, parts, partsAll_eq_flatMap, List.flatMap_map]
    rfl
  | named m =>
    rw [build, parts, partsFields_eq_flatMap, List.flatMap_map, Payload.ids, NameMap.values,
      List.flatMap_map]

theorem self_mem_parts (x : Item) : x ∈ x.parts := by
  cases x <;> simp [parts]

end Item

namespace Tree

variable {t u : Tree} {level : NodeId → Nat} {id c x : NodeId} {bound more : Nat}

/-- The walk down from a node, to `bound` levels, is not cut short. -/
def Fits (t : Tree) (bound : Nat) (id : NodeId) : Prop :=
  ∀ x, t.Within id x → t.rank x < t.rank id + bound

theorem Fits.pos (h : t.Fits bound id) : 0 < bound := by
  have := h id .here
  omega

theorem Fits.child (hs : t.Sound) (h : t.Fits (bound + 1) id) (hc : c ∈ t.childIds id) :
    t.Fits bound c := fun x hx => by
  have := h x (hx.of_child hs.links hc)
  have := hs.level_child hc
  omega

theorem fits_size (hs : t.Sound) (hid : id < t.size) : t.Fits t.size id :=
  fun _ hx => hx.level_lt hs.links hid

theorem fits_size_child (hs : t.Sound) (hc : c ∈ t.childIds id) : t.Fits t.size c :=
  fits_size hs (hs.child_lt_size hc)

/-- What holds of a node whenever it holds of its children holds of every node of the store. -/
theorem Sound.induction (hs : t.Sound) {motive : NodeId → Prop}
    (step : ∀ x < t.size, (∀ c ∈ t.childIds x, motive c) → motive x) (hid : id < t.size) :
    motive id := by
  have key : ∀ (bound : Nat) (x : NodeId), t.Fits bound x → x < t.size → motive x := by
    intro bound
    induction bound with
    | zero => exact fun x h => absurd h.pos (by omega)
    | succ bound ih =>
      exact fun x h hx => step x hx fun c hc => ih c (h.child hs hc) (hs.child_lt_size hc)
  exact key _ id (fits_size hs hid) hid

/-! ## Items -/

theorem itemWithin_succ (t : Tree) (bound : Nat) (id : NodeId) :
    t.itemWithin (bound + 1) id =
      .build (t.node id).label (t.itemWithin bound) (t.node id).payload := by
  simp only [itemWithin]
  cases (t.node id).payload <;> rfl

theorem itemWithin_congr (hs : t.Sound) : ∀ {bound more : Nat} {id : NodeId}, t.Fits bound id →
    t.Fits more id → t.itemWithin bound id = t.itemWithin more id
  | 0, _, _, h, _ => absurd h.pos (by omega)
  | _ + 1, 0, _, _, h => absurd h.pos (by omega)
  | bound + 1, more + 1, id, h, k => by
    rw [itemWithin_succ, itemWithin_succ]
    exact Item.build_congr fun c hc => itemWithin_congr hs (h.child hs hc) (k.child hs hc)

/-- The item of a node is made of its label, its value and the items of its children. -/
theorem item_eq (hs : t.Sound) (id : NodeId) :
    t.item id = .build (t.node id).label t.item (t.node id).payload := by
  rcases Nat.lt_or_ge id t.size with hid | hid
  · have hfit := fits_size hs hid
    obtain ⟨bound, hb⟩ := Nat.exists_eq_add_one_of_ne_zero (Nat.ne_zero_of_lt hid)
    conv => lhs; rw [item, hb, itemWithin_succ]
    exact Item.build_congr fun c hc =>
      itemWithin_congr hs ((hb ▸ hfit).child hs hc) (fits_size_child hs hc)
  · have hn : (t.node id).payload = .nothing := by rw [node_of_size_le hid]; rfl
    rw [hn, item]
    cases t.size with
    | zero => rfl
    | succ bound => rw [itemWithin_succ, hn]; rfl

@[simp] theorem label_item (hs : t.Sound) (id : NodeId) :
    (t.item id).label = (t.node id).label := by
  rw [item_eq hs, Item.label_build]

theorem kind_item (hs : t.Sound) (id : NodeId) : (t.item id).label.kind = t.kind id := by
  rw [label_item hs]
  rfl

/-- The item of a node depends on the labels and payloads of the nodes within it only. -/
theorem item_congr (hs : t.Sound) (hu : u.Sound) (hid : id < t.size)
    (hsame : ∀ x, t.Within id x → (u.node x).label = (t.node x).label ∧
      (u.node x).payload = (t.node x).payload) : u.item id = t.item id := by
  refine hs.induction (motive := fun y => t.Within id y → u.item y = t.item y)
    (fun y _ ih hy => ?_) hid .here
  rw [item_eq hs, item_eq hu, (hsame y hy).1, (hsame y hy).2]
  exact Item.build_congr fun c hc => ih c hc (hy.trans (Within.here.of_child hs.links hc))

/-! ## Walks -/

theorem length_preorderWithin (t : Tree) : ∀ (bound : Nat) (id : NodeId),
    (t.preorderWithin bound id).length = t.spread bound id
  | 0, _ => rfl
  | bound + 1, id => by
    rw [preorderWithin, spread, List.length_cons]
    induction t.childIds id with
    | nil => rfl
    | cons c ids ih =>
      rw [List.flatMap_cons, List.length_append, List.foldr_cons, ← ih,
        length_preorderWithin t bound c, Nat.add_assoc]

theorem preorderWithin_congr (hs : t.Sound) : ∀ {bound more : Nat} {id : NodeId},
    t.Fits bound id → t.Fits more id → t.preorderWithin bound id = t.preorderWithin more id
  | 0, _, _, h, _ => absurd h.pos (by omega)
  | _ + 1, 0, _, _, h => absurd h.pos (by omega)
  | bound + 1, more + 1, id, h, k => by
    rw [preorderWithin, preorderWithin, List.flatMap_congr fun c hc =>
      preorderWithin_congr hs (h.child hs hc) (k.child hs hc)]

theorem preorder_eq (hs : t.Sound) (hid : id < t.size) :
    t.preorder id = id :: (t.childIds id).flatMap t.preorder := by
  have hfit := fits_size hs hid
  obtain ⟨bound, hb⟩ := Nat.exists_eq_add_one_of_ne_zero (Nat.ne_zero_of_lt hid)
  conv => lhs; rw [preorder, hb, preorderWithin]
  rw [List.flatMap_congr fun c hc =>
    preorderWithin_congr hs ((hb ▸ hfit).child hs hc) (fits_size_child hs hc)]
  rfl

/-- With a visit to spare for each node within the stack, all of it is walked. -/
theorem visit_eq (hs : t.Sound) : ∀ (visits : Nat) (stack : List NodeId),
    (∀ c ∈ stack, c < t.size) → (stack.flatMap t.preorder).length = visits →
      t.visit visits stack = stack.flatMap t.preorder
  | 0, [], _, _ => rfl
  | _ + 1, [], _, h => by simp at h
  | 0, c :: stack, hlt, h => by
    rw [List.flatMap_cons, preorder_eq hs (hlt c (by simp))] at h
    cases h
  | visits + 1, c :: stack, hlt, h => by
    have hc := hlt c (by simp)
    have hstack : (c :: stack).flatMap t.preorder =
        c :: (t.childIds c ++ stack).flatMap t.preorder := by
      rw [List.flatMap_cons, preorder_eq hs hc, List.flatMap_append, List.cons_append]
    rw [hstack, List.length_cons] at h
    rw [visit, hstack, visit_eq hs visits _ ?_ (Nat.succ.inj h)]
    intro d hd
    rcases List.mem_append.1 hd with hd | hd
    · exact hs.child_lt_size hd
    · exact hlt d (List.mem_cons_of_mem _ hd)

/-- The walk with a stack goes in the order of the recursive one. -/
theorem subtree_eq_preorder (hs : t.Sound) (hid : id < t.size) : t.subtree id = t.preorder id := by
  rw [subtree, ← length_preorderWithin]
  simpa using visit_eq hs _ [id] (by simpa using hid) (by simp [preorder])

/-- The walk of a node meets what is within it, and nothing else. -/
theorem mem_preorder (hs : t.Sound) (hid : id < t.size) :
    x ∈ t.preorder id ↔ t.Within id x := by
  refine hs.induction (motive := fun y => x ∈ t.preorder y ↔ t.Within y x) (fun y hy ih => ?_) hid
  rw [preorder_eq hs hy, List.mem_cons, List.mem_flatMap]
  constructor
  · rintro (rfl | ⟨c, hc, hx⟩)
    · exact .here
    · exact ((ih c hc).1 hx).of_child hs.links hc
  · intro hx
    refine (hx.cases_child hs.links).imp_right ?_
    rintro ⟨c, hc, hx⟩
    exact ⟨c, hc, (ih c hc).2 hx⟩

theorem mem_reachable (hs : t.Sound) (hr : t.root = some id) (hid : id < t.size) :
    x ∈ t.reachable ↔ t.Within id x := by
  have hwalk : t.reachable = t.preorder id := by
    rw [reachable, hr]
    exact subtree_eq_preorder hs hid
  rw [hwalk, mem_preorder hs hid]

/-- A walk meets each node once. -/
theorem nodup_preorder (hs : t.Sound) (hid : id < t.size) : (t.preorder id).Nodup := by
  refine hs.induction (motive := fun y => (t.preorder y).Nodup) (fun y hy ih => ?_) hid
  have hmem : ∀ c ∈ t.childIds y, ∀ x, x ∈ t.preorder c ↔ t.Within c x := fun c hc x =>
    mem_preorder hs (hs.child_lt_size hc)
  rw [preorder_eq hs hy, List.nodup_cons]
  constructor
  · intro hin
    obtain ⟨c, hc, hyc⟩ := List.mem_flatMap.1 hin
    have hle := (((hmem c hc y).1 hyc).level_le hs.links).1
    have hrise := hs.level_child hc
    omega
  · refine List.nodup_flatMap.2 ⟨ih, (hs.once y).imp_of_mem fun {c d} hc hd hne => ?_⟩
    intro x hxc hxd
    refine hne (((hmem c hc x).1 hxc).eq_of_level hs.links ((hmem d hd x).1 hxd) ?_)
    rw [hs.level_child hc, hs.level_child hd]

/-- The items of the nodes that a walk meets are the parts of the item of the node. -/
theorem map_item_preorder (hs : t.Sound) (hid : id < t.size) :
    (t.preorder id).map t.item = (t.item id).parts := by
  refine hs.induction (motive := fun y => (t.preorder y).map t.item = (t.item y).parts)
    (fun y hy ih => ?_) hid
  rw [preorder_eq hs hy, item_eq hs y, Item.parts_build, ← item_eq hs y, List.map_cons,
    List.map_flatMap]
  exact congrArg _ (List.flatMap_congr ih)

end Tree
end RouteScript
