import RouteScript.Proofs.Tree.Grow
import RouteScript.Proofs.Tree.Names
import RouteScript.Proofs.Tree.Rooted
/-!
# New nodes below new nodes

A tree is `Expanded` at a node if the node is new, hangs nowhere and has an item. Hanging another
new node below it then does to its item what one would expect, be it as the last child or under a
name, even a name that a child has already; and the edit is refused exactly if the item has no room
for the other (`attach_follows`, `attachNamed_follows`).
-/
namespace RouteScript

/-! ## Maps by name -/

namespace NameMap

variable {α β : Type}

theorem insertEntry_map (f : α → β) (name : String) (x : α) : ∀ es : List (String × α),
    insertEntry name (f x) (es.map fun e => (e.1, f e.2)) =
      (insertEntry name x es).map fun e => (e.1, f e.2)
  | [] => rfl
  | e :: es => by
    rw [List.map_cons, insertEntry, insertEntry, insertEntry_map f name x es]
    split
    · rfl
    · split <;> rfl

theorem mem_values_of_mem_insert {m : NameMap α} {name : String} {x y : α}
    (h : y ∈ (m.insert name x).values) : y = x ∨ y ∈ m.values := by
  obtain ⟨e, he, rfl⟩ := List.mem_map.1 h
  exact (mem_insertEntry he).imp (congrArg Prod.snd) (List.mem_map_of_mem (f := Prod.snd))

end NameMap

/-! ## Items with one more item -/

namespace Item

/-- The item with another at its end, if it has room for one and the other stands for something. -/
def addLast? (a x : Item) : Option Item :=
  if x.label.kind = .empty then none
  else match a with
    | .bare l => some (.list l [x])
    | .list l xs => some (.list l (xs ++ [x]))
    | .leaf _ _ | .record _ _ => none

/-- The item with another under a name, if it has room for one and the other stands for
something. -/
def addNamed? (name : String) (a x : Item) : Option Item :=
  if x.label.kind = .empty then none
  else match a with
    | .bare l => some (.record l (NameMap.insertEntry name x []))
    | .record l fields => some (.record l (NameMap.insertEntry name x fields))
    | .leaf _ _ | .list _ _ => none

variable {l : Label} {f : NodeId → Item} {p : Payload} {x : Item} {name : String}

theorem addLast?_build : (build l f p).addLast? x =
    if (p.shape = .nothing ∨ p.shape = .children) ∧ x.label.kind ≠ .empty
    then some (.list l (p.ordered.map f ++ [x])) else none := by
  by_cases hx : x.label.kind = .empty <;> cases p <;>
    simp [build, addLast?, Payload.shape, Payload.ordered, hx]

theorem addNamed?_build : (build l f p).addNamed? name x =
    if (p.shape = .nothing ∨ p.shape = .named) ∧ x.label.kind ≠ .empty
    then some (.record l (NameMap.insertEntry name x (p.names.entries.map fun e => (e.1, f e.2))))
    else none := by
  by_cases hx : x.label.kind = .empty <;> cases p <;>
    simp [build, addNamed?, Payload.shape, Payload.names, hx]

end Item

/-! ## Results side by side -/

/-- What can fail with a reason succeeds where the other does, with a result that goes with its. -/
inductive Follows {ε α β : Type} (P : α → β → Prop) : Except ε α → Option β → Prop
  | ok {a : α} {b : β} : P a b → Follows P (.ok a) (some b)
  | error {e : ε} : Follows P (.error e) none

theorem Follows.bind {ε α β γ δ : Type} {P : α → β → Prop} {Q : γ → δ → Prop} {x : Except ε α}
    {y : Option β} {f : α → Except ε γ} {g : β → Option δ} (h : Follows P x y)
    (hf : ∀ a b, P a b → Follows Q (f a) (g b)) : Follows Q (x.bind f) (y.bind g) := by
  cases h with
  | ok h => exact hf _ _ h
  | error => exact .error

theorem Follows.map {ε α β γ : Type} {P : α → β → Prop} {Q : γ → β → Prop} {x : Except ε α}
    {y : Option β} {f : α → γ} (h : Follows P x y) (hf : ∀ a b, P a b → Q (f a) b) :
    Follows Q (x.map f) y := by
  cases h with
  | ok h => exact .ok (hf _ _ h)
  | error => exact .error

theorem Follows.exists_iff {ε α β : Type} {P : α → β → Prop} {x : Except ε α} {y : Option β}
    (h : Follows P x y) : (∃ a, x = .ok a) ↔ ∃ b, y = some b := by
  cases h with
  | ok h => exact ⟨fun _ => ⟨_, rfl⟩, fun _ => ⟨_, rfl⟩⟩
  | error => exact ⟨fun ⟨_, h⟩ => (by cases h), fun ⟨_, h⟩ => (by cases h)⟩

namespace Tree

variable {t u v w : Tree} {n f : NodeId} {a x : Item} {former : Option NodeId} {p : Payload}
  {name : String}

/-- The tree `t` is `v` with nodes added, among them a top with an item. -/
structure Expanded (v t : Tree) (n : NodeId) (a : Item) : Prop where
  grows : Grows v t
  top : t.Top v.size n a

/-- What an edit that hangs `f` below `n` makes of a tree: `n` carries `p` then, and the child that
`f` takes the place of, if there is one, hangs nowhere. -/
structure Hangs (t u : Tree) (n f : NodeId) (former : Option NodeId) (p : Payload) : Prop where
  sound : u.Sound
  size : u.size = t.size
  node : ∀ x, u.node x = { t.node x with
    payload := if x = n then p else (t.node x).payload.erase f
    parent := if x = f then some n else if former = some x then none else (t.node x).parent
    depth := t.rebased t.depth f (t.depth n + 1) x }

theorem hangs_last (hs : t.Sound) (hf : f < t.size) (hn : n < t.size)
    (hok : t.refusalAs? .children n f = none) : Hangs t (t.hangLast n f) n f none
      (.children (((t.node n).payload.erase f).ordered ++ [f])) := by
  obtain ⟨hsound, hnode⟩ := hangLast_spec hs hf hn hok
  exact ⟨hsound, size_hangLast .., fun x => by simpa using hnode x⟩

theorem hangs_named (name : String) (hs : t.Sound) (hf : f < t.size) (hn : n < t.size)
    (hok : t.refusalAs? .named n f = none) : Hangs t (t.hangNamed n name f) n f
      (((t.node n).payload.erase f).names.get? name)
      (.named (((t.node n).payload.erase f).names.insert name f)) :=
  have hspec := hangNamed_spec hs hf hn hok
  ⟨hspec.1, size_hangNamed .., hspec.2⟩

/-- A new top that hangs below another one leaves what was there before as it was, and the other
gets the item of its new payload. -/
theorem Hangs.expanded (h : Hangs u w n f former p) (hv : v.Sound) (hn : Expanded v u n a)
    (hf : u.Top v.size f x) (hnf : n ≠ f)
    (hformer : ∀ c, former = some c → c ∈ u.childIds n)
    (hids : ∀ c ∈ p.ids, c = f ∨ c ∈ u.childIds n) :
    Expanded v w n (.build (u.node n).label u.item p) := by
  have hs := hn.grows.sound
  have herase := hf.erase_eq hs
  have hparent : ∀ c ∈ u.childIds n, (u.node c).parent = some n := fun c => (hs.linked n c).1
  constructor
  · refine ⟨h.sound, h.size ▸ hn.grows.size_le, fun y hy => ?_⟩
    have hyn : y ≠ n := fun e => absurd hy (Nat.not_lt.2 (e ▸ hn.top.low_le))
    have hyf : y ≠ f := fun e => absurd hy (Nat.not_lt.2 (e ▸ hf.low_le))
    -- a node that was there before hangs below no new one
    have hyformer : former ≠ some y := fun e => by
      have hlink := hparent y (hformer y e)
      rw [hn.grows.keeps y hy] at hlink
      exact absurd (hv.parent_lt_size hlink) (Nat.not_lt.2 hn.top.low_le)
    have hout := (hn.grows.but n).not_within hv hn.top.parent hf.low_le hy
    rw [h.node, if_neg hyn, if_neg hyf, if_neg hyformer, rebased_of_not_within hout, herase]
    exact hn.grows.keeps y hy
  · refine ⟨hn.top.low_le, h.size ▸ hn.top.lt_size, ?_, ?_⟩
    · rw [h.node, if_neg hnf]
      simp only [hn.top.parent, ite_self]
    · rw [item_eq h.sound, h.node, if_pos rfl]
      refine Item.build_congr fun c hc => ?_
      have hfree : ¬ u.Within c n := by
        rcases hids c hc with rfl | hc
        · exact fun hw => hnf (hw.eq_of_parent_none hn.top.parent)
        · exact fun hw => hs.ne_child hc (hw.eq_of_parent_none hn.top.parent).symm
      have hlt : c < u.size := by
        rcases hids c hc with rfl | hc
        · exact hf.lt_size
        · exact hs.child_lt_size hc
      refine item_congr hs h.sound hlt fun y hy => ?_
      have hyn : y ≠ n := fun e => hfree (e ▸ hy)
      rw [h.node, if_neg hyn, herase]
      exact ⟨rfl, rfl⟩

theorem Expanded.next (hn : Expanded v t n a) (hf : Expanded t u f x) :
    Expanded v u n a ∧ u.Top v.size f x ∧ n ≠ f :=
  ⟨⟨hn.grows.trans hf.grows, hn.top.grows hn.grows.sound hf.grows⟩,
    hf.top.mono hn.grows.size_le,
    Nat.ne_of_lt (Nat.lt_of_lt_of_le hn.top.lt_size hf.top.low_le)⟩

theorem Expanded.refusalAs?_eq_none (hn : Expanded v t n a) (hf : Expanded t u f x)
    {shape : Shape} : u.refusalAs? shape n f = none ↔
      ((u.node n).payload.shape = .nothing ∨ (u.node n).payload.shape = shape) ∧
        x.label.kind ≠ .empty := by
  obtain ⟨hn', -, hnf⟩ := hn.next hf
  have hfree : ¬ u.Within f n := fun hw => hnf (hw.eq_of_parent_none hn'.top.parent)
  rw [Tree.refusalAs?_eq_none hf.grows.sound.links, ← hf.top.item, kind_item hf.grows.sound,
    and_iff_left hfree]

/-- Attaching a new node to another puts its item behind those of the other, or fails if there is
no room for it. -/
theorem attach_follows (hv : v.Sound) (hn : Expanded v t n a) (hf : Expanded t u f x) :
    Follows (fun w b => Expanded v w n b) (u.attach n f) (a.addLast? x) := by
  have hs := hf.grows.sound
  obtain ⟨hn', htop, hnf⟩ := hn.next hf
  rw [← hn'.top.item, item_eq hs, Item.addLast?_build, attach]
  by_cases hok : u.refusalAs? .children n f = none
  · rw [if_pos ((hn.refusalAs?_eq_none hf).1 hok), hok]
    have hangs := hangs_last hs hf.top.lt_size hn'.top.lt_size hok
    rw [htop.erase_eq hs] at hangs
    have hitem := hangs.expanded hv hn' htop hnf (fun _ h => by cases h) fun c hc =>
      (List.mem_append.1 hc).symm.imp List.mem_singleton.1 fun h => children_subset u n h
    rw [Item.build, List.map_append, List.map_singleton, hf.top.item] at hitem
    exact .ok hitem
  · rw [if_neg (mt (hn.refusalAs?_eq_none hf).2 hok)]
    obtain ⟨e, he⟩ := Option.ne_none_iff_exists'.1 hok
    rw [he]
    exact .error

/-- Attaching a new node to another under a name puts its item under that name in the other, or
fails if there is no room for it. -/
theorem attachNamed_follows (hv : v.Sound) (hn : Expanded v t n a) (hf : Expanded t u f x) :
    Follows (fun w b => Expanded v w n b) (u.attachNamed n name f) (a.addNamed? name x) := by
  have hs := hf.grows.sound
  obtain ⟨hn', htop, hnf⟩ := hn.next hf
  have hsub : (u.node n).payload.names.values ⊆ u.childIds n :=
    Payload.values_names_subset_ids _
  rw [← hn'.top.item, item_eq hs, Item.addNamed?_build, attachNamed]
  by_cases hok : u.refusalAs? .named n f = none
  · rw [if_pos ((hn.refusalAs?_eq_none hf).1 hok), hok]
    have hangs := hangs_named name hs hf.top.lt_size hn'.top.lt_size hok
    rw [htop.erase_eq hs] at hangs
    have hitem := hangs.expanded hv hn' htop hnf
      (fun c hc => hsub (NameMap.mem_values_of_get? hc))
      fun c hc => (NameMap.mem_values_of_mem_insert hc).imp_right (@hsub c)
    rw [Item.build, NameMap.entries_insert, ← NameMap.insertEntry_map, hf.top.item] at hitem
    exact .ok hitem
  · rw [if_neg (mt (hn.refusalAs?_eq_none hf).2 hok)]
    obtain ⟨e, he⟩ := Option.ne_none_iff_exists'.1 hok
    rw [he]
    exact .error

end Tree
end RouteScript
