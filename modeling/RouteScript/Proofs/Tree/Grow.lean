import RouteScript.Proofs.Tree.Reached
import RouteScript.Proofs.Tree.Walk
/-!
# Trees that grow

A tree is built from nodes that are new: what was in the store before stays as it was. A tree
`Grows` if only nodes are added, and `GrowsBut` for one node if that one may change as well. A node
that hangs nowhere is a *top*; hanging new nodes below a top, and relabelling it, are said here by
what becomes of its item (`hangLast_top`, `moveChildren_top`, `item_relabel`).
-/
namespace RouteScript

namespace Item

/-- The item of a label and a list of items, bare if there are none. -/
def bundle (l : Label) : List Item → Item
  | [] => .bare l
  | x :: xs => .list l (x :: xs)

/-- The item with another label. -/
def withLabel (l : Label) : Item → Item
  | .bare _ => .bare l
  | .leaf _ v => .leaf l v
  | .list _ xs => .list l xs
  | .record _ xs => .record l xs

@[simp] theorem label_bundle (l : Label) (xs : List Item) : (bundle l xs).label = l := by
  cases xs <;> rfl

@[simp] theorem label_withLabel (l : Label) (x : Item) : (x.withLabel l).label = l := by
  cases x <;> rfl

@[simp] theorem withLabel_label (x : Item) : x.withLabel x.label = x := by
  cases x <;> rfl

@[simp] theorem withLabel_bundle (l m : Label) (xs : List Item) :
    (bundle m xs).withLabel l = bundle l xs := by
  cases xs <;> rfl

theorem withLabel_build (l m : Label) (f : NodeId → Item) (p : Payload) :
    (build m f p).withLabel l = build l f p := by
  cases p <;> rfl

theorem bundle_append (l : Label) (xs : List Item) (x : Item) :
    bundle l (xs ++ [x]) = .list l (xs ++ [x]) := by
  cases xs <;> rfl

end Item

namespace Tree

variable {t u v : Tree} {c f g n p x y : NodeId} {l : Label} {xs ys : List Item}

/-! ## Growing -/

/-- The tree `u` is `t` with nodes added. -/
structure Grows (t u : Tree) : Prop where
  sound : u.Sound
  size_le : t.size ≤ u.size
  keeps : ∀ x, x < t.size → u.node x = t.node x

/-- The tree `u` is `t` with nodes added and the node `n` changed. -/
structure GrowsBut (n : NodeId) (t u : Tree) : Prop where
  sound : u.Sound
  size_le : t.size ≤ u.size
  keeps : ∀ x, x < t.size → x ≠ n → u.node x = t.node x

theorem Grows.refl (hs : t.Sound) : Grows t t := ⟨hs, Nat.le_refl _, fun _ _ => rfl⟩

theorem Grows.trans (h : Grows t u) (k : Grows u v) : Grows t v where
  sound := k.sound
  size_le := Nat.le_trans h.size_le k.size_le
  keeps x hx := by rw [k.keeps x (Nat.lt_of_lt_of_le hx h.size_le), h.keeps x hx]

theorem Grows.but (h : Grows t u) (n : NodeId) : GrowsBut n t u :=
  ⟨h.sound, h.size_le, fun x hx _ => h.keeps x hx⟩

theorem GrowsBut.trans (h : GrowsBut n t u) (k : GrowsBut n u v) : GrowsBut n t v where
  sound := k.sound
  size_le := Nat.le_trans h.size_le k.size_le
  keeps x hx hn := by
    rw [k.keeps x (Nat.lt_of_lt_of_le hx h.size_le) hn, h.keeps x hx hn]

/-- A change of one new node is no change of what was there before. -/
theorem Grows.transBut (h : Grows t u) (k : GrowsBut n u v) (hn : t.size ≤ n) : Grows t v where
  sound := k.sound
  size_le := Nat.le_trans h.size_le k.size_le
  keeps x hx := by
    have hxn : x ≠ n := fun e => absurd hx (Nat.not_lt.2 (e ▸ hn))
    rw [k.keeps x (Nat.lt_of_lt_of_le hx h.size_le) hxn, h.keeps x hx]

/-- What was there before is not within a new node. -/
theorem GrowsBut.not_within (h : GrowsBut n t u) (hs : t.Sound) (hn : (u.node n).parent = none)
    (hf : t.size ≤ f) (hx : x < t.size) : ¬ u.Within f x := by
  intro hw
  induction hw with
  | here => exact absurd hx (Nat.not_lt.2 hf)
  | @under c p hp _ ih =>
    have hcn : c ≠ n := fun e => by rw [e, hn] at hp; cases hp
    rw [h.keeps c hx hcn] at hp
    exact ih (hs.parent_lt_size hp)

theorem Grows.item (h : Grows t u) (hs : t.Sound) (hx : x < t.size) : u.item x = t.item x :=
  item_congr hs h.sound hx fun y hy => by
    have := h.keeps y (hy.lt_size hx)
    exact ⟨by rw [this], by rw [this]⟩

theorem grows_push {n : Node} (hs : t.Sound) (hids : n.payload.ids = [])
    (hparent : n.parent = none) : Grows t (t.push n).2 where
  sound := hs.push hids hparent
  size_le := by rw [size_push]; exact Nat.le_succ _
  keeps x hx := by rw [node_push, if_neg (Nat.ne_of_lt hx)]

/-! ## Tops -/

/-- A node from `low` on that hangs nowhere and has the item. -/
structure Top (t : Tree) (low : Nat) (n : NodeId) (x : Item) : Prop where
  low_le : low ≤ n
  lt_size : n < t.size
  parent : (t.node n).parent = none
  item : t.item n = x

theorem Top.grows {low : Nat} {a : Item} (h : t.Top low n a) (hs : t.Sound) (k : Grows t u) :
    u.Top low n a where
  low_le := h.low_le
  lt_size := Nat.lt_of_lt_of_le h.lt_size k.size_le
  parent := by rw [k.keeps n h.lt_size, h.parent]
  item := by rw [k.item hs h.lt_size, h.item]

theorem Top.mono {low low' : Nat} {a : Item} (h : t.Top low n a) (hl : low' ≤ low) :
    t.Top low' n a :=
  ⟨Nat.le_trans hl h.low_le, h.lt_size, h.parent, h.item⟩

theorem Top.label {low : Nat} {a : Item} (h : t.Top low n a) (hs : t.Sound) :
    (t.node n).label = a.label := by
  rw [← h.item, label_item hs]

/-- No payload holds a top. -/
theorem Top.erase_eq {low : Nat} {a : Item} (h : t.Top low n a) (hs : t.Sound) (x : NodeId) :
    (t.node x).payload.erase n = (t.node x).payload :=
  hs.links.erase_eq (by simp [h.parent])

/-- The node that is pushed is a top. -/
theorem top_push {n : Node} (hs : t.Sound) (hids : n.payload.ids = []) (hparent : n.parent = none) :
    (t.push n).2.Top t.size t.size (.build n.label (fun _ => .bare n.label) n.payload) where
  low_le := Nat.le_refl _
  lt_size := by rw [size_push]; exact Nat.lt_succ_self _
  parent := by rw [node_push, if_pos rfl, hparent]
  item := by
    rw [item_eq (hs.push hids hparent), node_push, if_pos rfl]
    exact Item.build_congr fun c hc => by simp [hids] at hc

/-- What a top with a bundle carries. -/
theorem payload_of_item_bundle (hs : t.Sound) (h : t.item n = .bundle l xs) :
    (t.node n).label = l ∧
      ((t.node n).payload.shape = .nothing ∨ (t.node n).payload.shape = .children) ∧
      (t.children n).map t.item = xs := by
  rw [item_eq hs] at h
  cases hp : (t.node n).payload with
  | nothing =>
    rw [hp] at h
    cases xs with
    | nil =>
      exact ⟨by simpa [Item.build, Item.bundle] using h, .inl rfl,
        by simp [children, hp, Payload.ordered]⟩
    | cons _ _ => simp [Item.build, Item.bundle] at h
  | scalar _ => rw [hp] at h; cases xs <;> simp [Item.build, Item.bundle] at h
  | named _ => rw [hp] at h; cases xs <;> simp [Item.build, Item.bundle] at h
  | children ids =>
    rw [hp] at h
    cases xs with
    | nil => simp [Item.build, Item.bundle] at h
    | cons _ _ =>
      simp only [Item.build, Item.bundle, Item.list.injEq] at h
      exact ⟨h.1, .inr rfl, by simpa [children, hp, Payload.ordered] using h.2⟩

/-! ## Hanging new nodes below a top -/

/-- Items that hold neither the new nor the former parent of a node stay as they were. -/
theorem item_hangLast (hs : t.Sound) (hc : c < t.size) (hp : p < t.size)
    (hok : t.refusalAs? .children p c = none) (hy : y < t.size) (hyp : ¬ t.Within y p)
    (hyc : ∀ q, (t.node c).parent = some q → ¬ t.Within y q) :
    (t.hangLast p c).item y = t.item y := by
  obtain ⟨hsound, hnode⟩ := hangLast_spec hs hc hp hok
  refine item_congr hs hsound hy fun x hx => ?_
  have hxp : x ≠ p := fun e => hyp (e ▸ hx)
  rw [hnode]
  exact ⟨rfl, by simpa [hxp] using hs.links.erase_eq fun e => hyc x e hx⟩

/-- A node that hangs nowhere takes another that it does not hold as the last of its items. -/
theorem item_hangLast_self (hs : t.Sound) (hc : c < t.size) (hp : p < t.size)
    (hok : t.refusalAs? .children p c = none) (hitem : t.item p = .bundle l xs)
    (htop : (t.node p).parent = none)
    (hpc : ∀ q, (t.node c).parent = some q → ¬ t.Within p q) :
    (t.hangLast p c).item p = .bundle l (xs ++ [t.item c]) := by
  obtain ⟨hsound, hnode⟩ := hangLast_spec hs hc hp hok
  obtain ⟨hlabel, -, hitems⟩ := payload_of_item_bundle hs hitem
  have hcyc := ((refusalAs?_eq_none hs.links).1 hok).2.2
  have hkids : (t.children p).map (t.hangLast p c).item = xs := by
    rw [← hitems]
    refine List.map_congr_left fun d hd => ?_
    have hdp := (hs.linked p d).1 (children_subset t p hd)
    refine item_hangLast hs hc hp hok (lt_size_of_parent hdp) (fun hw => ?_) fun q hq hw => ?_
    · rw [← hw.eq_of_parent_none htop, htop] at hdp
      cases hdp
    · exact hpc q hq (hw.of_child hs.links (children_subset t p hd))
  have hself : (t.hangLast p c).item c = t.item c := by
    refine item_hangLast hs hc hp hok hc hcyc fun q hq hw => ?_
    have := (hw.level_le hs.links).1
    have := hs.rises c q hq
    omega
  have hout : (t.node c).parent ≠ some p := fun e => hpc p e .here
  rw [item_eq hsound, hnode]
  simp only [if_pos, hs.links.erase_eq hout]
  rw [Item.build, List.map_append, List.map_cons, List.map_nil, hself, hkids, ← hlabel,
    Item.bundle_append]
  rfl

/-- A new node becomes the last item of a top, and items that hold neither the top nor the former
parent of the node stay as they were. -/
theorem hangLast_top {low : Nat} (hv : v.Sound) (h : GrowsBut n v t)
    (hn : t.Top low n (.bundle l xs)) (hnf : n ≠ f) (hf : v.size ≤ f) (hft : f < t.size)
    (hsolid : t.kind f ≠ .empty)
    (hparent : ∀ p, (t.node f).parent = some p → v.size ≤ p ∧ ¬ t.Within n p) :
    t.refusalAs? .children n f = none ∧ GrowsBut n v (t.hangLast n f) ∧
      (t.hangLast n f).Top low n (.bundle l (xs ++ [t.item f])) ∧
      (∀ y, y ≠ f → ((t.hangLast n f).node y).parent = (t.node y).parent) ∧
      ∀ y, y < t.size → ¬ t.Within y n → (∀ p, (t.node f).parent = some p → ¬ t.Within y p) →
        (t.hangLast n f).item y = t.item y := by
  have hs := h.sound
  have hshape := (payload_of_item_bundle hs hn.item).2.1
  have hcyc : ¬ t.Within f n := fun hw => hnf (hw.eq_of_parent_none hn.parent)
  have hok : t.refusalAs? .children n f = none :=
    (refusalAs?_eq_none hs.links).2 ⟨hshape, hsolid, hcyc⟩
  obtain ⟨hsound, hnode⟩ := hangLast_spec hs hft hn.lt_size hok
  refine ⟨hok, ⟨hsound, ?_, fun x hx hxn => ?_⟩, ⟨hn.low_le, ?_, ?_, ?_⟩, fun y hy => ?_,
    fun y hy hyn hyf => item_hangLast hs hft hn.lt_size hok hy hyn hyf⟩
  · rw [size_hangLast]
    exact h.size_le
  · have hxf : x ≠ f := fun e => absurd hx (Nat.not_lt.2 (e ▸ hf))
    have hout := h.not_within hv hn.parent hf hx
    rw [hnode, if_neg hxn, if_neg hxf, rebased_of_not_within hout,
      hs.links.erase_eq fun e => absurd hx (Nat.not_lt.2 (hparent x e).1)]
    exact h.keeps x hx hxn
  · rw [size_hangLast]
    exact hn.lt_size
  · rw [hnode, if_neg hnf]
    exact hn.parent
  · exact item_hangLast_self hs hft hn.lt_size hok hn.item hn.parent fun p hp => (hparent p hp).2
  · rw [hnode, if_neg hy]

/-- Hanging a new top below another one. -/
theorem hang_top {low : Nat} {a : Item} (hv : v.Sound) (hnf : n ≠ f) (h : GrowsBut n v t)
    (hn : t.Top low n (.bundle l xs)) (hf : t.Top v.size f a) (hsolid : a.label.kind ≠ .empty) :
    t.refusalAs? .children n f = none ∧ GrowsBut n v (t.hangLast n f) ∧
      (t.hangLast n f).Top low n (.bundle l (xs ++ [a])) := by
  have hkind : t.kind f ≠ .empty := by
    rw [← hf.item, label_item h.sound] at hsolid
    exact hsolid
  have hang := hangLast_top hv h hn hnf hf.low_le hf.lt_size hkind (by simp [hf.parent])
  rw [hf.item] at hang
  exact ⟨hang.1, hang.2.1, hang.2.2.1⟩

/-- The children of a new top become the last items of another top, one after the other. -/
theorem attachAll_top {low : Nat} (hv : v.Sound) (hnv : n < v.size) (hg : v.size ≤ g) :
    ∀ (ids : List NodeId) (t : Tree) (xs : List Item), GrowsBut n v t →
      t.Top low n (.bundle l xs) → (t.node g).parent = none → ids.Nodup →
      (∀ c ∈ ids, (t.node c).parent = some g) →
      ∃ u, t.attachAll n ids = (u, none) ∧ GrowsBut n v u ∧
        u.Top low n (.bundle l (xs ++ ids.map t.item))
  | [], t, xs, h, hn, _, _, _ => ⟨t, rfl, h, by simpa using hn⟩
  | c :: ids, t, xs, h, hn, hgp, hnd, hids => by
    have hs := h.sound
    have hcp := hids c (by simp)
    have hgn : g ≠ n := fun e => absurd hnv (Nat.not_lt.2 (e ▸ hg))
    have hgc : g ≠ c := fun e => by rw [← e, hgp] at hcp; cases hcp
    have hnc : n ≠ c := fun e => by rw [← e, hn.parent] at hcp; cases hcp
    have hcv : v.size ≤ c := by
      by_contra hlt
      rw [h.keeps c (Nat.lt_of_not_le hlt) hnc.symm] at hcp
      exact absurd (hv.parent_lt_size hcp) (Nat.not_lt.2 hg)
    have houter : ∀ y, (t.node y).parent = some g → ¬ t.Within y n ∧ ¬ t.Within y g := by
      refine fun y hy => ⟨fun hw => ?_, fun hw => ?_⟩
      · rw [← hw.eq_of_parent_none hn.parent, hn.parent] at hy
        cases hy
      · rw [← hw.eq_of_parent_none hgp, hgp] at hy
        cases hy
    have hwg : ¬ t.Within n g := fun hw => hgn (hw.eq_of_parent_none hgp)
    obtain ⟨hok, hgrow, htop, hpar, hitem⟩ := hangLast_top hv h hn hnc hcv (lt_size_of_parent hcp)
      (hs.solid g c ((hs.linked g c).2 hcp)) fun p hp => by
        cases hcp.symm.trans hp
        exact ⟨hg, hwg⟩
    have hcids := List.nodup_cons.1 hnd
    have hne : ∀ d ∈ ids, d ≠ c := fun d hd e => hcids.1 (e ▸ hd)
    have hrest := attachAll_top hv hnv hg ids (t.hangLast n c) (xs ++ [t.item c]) hgrow htop
      (by rw [hpar g hgc, hgp]) hcids.2
      fun d hd => by rw [hpar d (hne d hd)]; exact hids d (List.mem_cons_of_mem _ hd)
    have hmap : ids.map (t.hangLast n c).item = ids.map t.item := by
      refine List.map_congr_left fun d hd => ?_
      have hdp := hids d (List.mem_cons_of_mem _ hd)
      refine hitem d (lt_size_of_parent hdp) (houter d hdp).1 fun p hp => ?_
      cases hcp.symm.trans hp
      exact (houter d hdp).2
    rw [hmap, List.append_assoc] at hrest
    rw [attachAll, hok]
    exact hrest

/-- The items of a new top move to the end of those of another. -/
theorem moveChildren_top {low : Nat} {m : Label} (hv : v.Sound) (hn : v.Top low n (.bundle l xs))
    (h : Grows v t) (hg : t.Top v.size g (.bundle m ys)) :
    ∃ u, t.moveChildren n g = (u, none) ∧ GrowsBut n v u ∧
      u.Top low n (.bundle l (xs ++ ys)) := by
  have hs := h.sound
  have hitems := (payload_of_item_bundle hs hg.item).2.2
  have := attachAll_top hv hn.lt_size hg.low_le (t.children g) t xs (h.but n) (hn.grows hv h)
    hg.parent (nodup_children hs g) fun _ hc => parent_of_mem_children hs hc
  rwa [hitems] at this

/-! ## Relabelling -/

theorem item_modify_of_not_within {f : Node → Node} (hs : t.Sound) (hf : Relabels f)
    (hy : y < t.size) (hc : ¬ t.Within y c) : (t.modify c f).item y = t.item y := by
  refine item_congr hs (hs.relabel hf c) hy fun x hx => ?_
  have hxc : x ≠ c := fun e => hc (e ▸ hx)
  by_cases hlt : c < t.size
  · rw [node_modify hlt, if_neg hxc]
    exact ⟨rfl, rfl⟩
  · rw [modify_of_size_le (Nat.not_lt.1 hlt)]
    exact ⟨rfl, rfl⟩

/-- Relabelling a node relabels its item. -/
theorem item_relabel {f : Node → Node} (hs : t.Sound) (hf : Relabels f) (hc : c < t.size) :
    (t.modify c f).item c = (t.item c).withLabel (f (t.node c)).label := by
  rw [item_eq (hs.relabel hf c), item_eq hs c, Item.withLabel_build, node_modify hc, if_pos rfl,
    hf.payload]
  refine Item.build_congr fun d hd => item_modify_of_not_within hs hf (hs.child_lt_size hd) ?_
  intro hw
  have := (hw.level_le hs.links).1
  have := hs.level_child hd
  omega

theorem Top.relabel {low : Nat} {a : Item} {f : Node → Node} (h : t.Top low n a) (hs : t.Sound)
    (hf : Relabels f) : (t.modify n f).Top low n (a.withLabel (f (t.node n)).label) where
  low_le := h.low_le
  lt_size := by rw [size_modify]; exact h.lt_size
  parent := by rw [hf.sameLinks.1.parent, h.parent]
  item := by rw [item_relabel hs hf h.lt_size, h.item]

/-- Relabelling a node that a top does not hold. -/
theorem Top.relabel_other {low : Nat} {a : Item} {f : Node → Node} (h : t.Top low n a)
    (hs : t.Sound) (hf : Relabels f) (hc : ¬ t.Within n c) : (t.modify c f).Top low n a where
  low_le := h.low_le
  lt_size := by rw [size_modify]; exact h.lt_size
  parent := by rw [hf.sameLinks.1.parent, h.parent]
  item := by rw [item_modify_of_not_within hs hf h.lt_size hc, h.item]

/-- Relabelling a child of a node relabels one of its items. -/
theorem item_relabel_child {f : Node → Node} {ids : List NodeId} (hs : t.Sound) (hf : Relabels f)
    (hn : (t.node n).payload = .children ids) (hc : c ∈ ids) :
    (t.modify c f).item n = .list (t.node n).label (ids.map fun d =>
      if d = c then (t.item c).withLabel (f (t.node c)).label else t.item d) := by
  have hids : t.childIds n = ids := by rw [childIds, hn, Payload.ids_children]
  have hcn : c ∈ t.childIds n := hids ▸ hc
  have hclt := hs.child_lt_size hcn
  rw [item_eq (hs.relabel hf c), node_modify hclt, if_neg (hs.ne_child hcn).symm, hn]
  refine congrArg _ (List.map_congr_left fun d hd => ?_)
  have hdn : d ∈ t.childIds n := hids ▸ hd
  by_cases hdc : d = c
  · rw [if_pos hdc, hdc, item_relabel hs hf hclt]
  · rw [if_neg hdc, item_modify_of_not_within hs hf (hs.child_lt_size hdn)]
    exact fun hw => hdc (hw.eq_of_siblings hs.links hdn hcn)

theorem growsBut_relabel {f : Node → Node} (hs : t.Sound) (hf : Relabels f) (hn : n < t.size) :
    GrowsBut n t (t.modify n f) where
  sound := hs.relabel hf n
  size_le := Nat.le_of_eq (size_modify ..).symm
  keeps x _ hx := by rw [node_modify hn, if_neg hx]

/-- Making a top the root changes no item. -/
theorem item_setRoot {low : Nat} {a : Item} (hs : t.Sound) (h : t.Top low n a) :
    (t.setRoot n).item n = a := by
  obtain ⟨hsound, -, -, hnode⟩ := setRoot_spec hs h.lt_size
  rw [← h.item]
  refine item_congr hs hsound h.lt_size fun x _ => ?_
  rw [hnode]
  exact ⟨rfl, h.erase_eq hs x⟩

end Tree
end RouteScript
