import RouteScript.Proofs.Tree.Named
/-!
# Trees that edits lead to

Whatever edits are made of nodes of the store, refused ones and half done moves among them, the
links of the tree agree and its depths count on along them: every edit keeps a tree `Sound`.
-/
namespace RouteScript
namespace Tree

variable {t u : Tree} {c p id x : NodeId} {n : Node} {f : Node → Node}

/-! ## Each edit keeps a tree sound -/

theorem sound_empty : Tree.empty.Sound where
  linked p c := by simp [childIds, node, Tree.empty, Node.ofKind, Payload.ids]
  once p := by simp [childIds, node, Tree.empty, Node.ofKind, Payload.ids]
  solid p c h := by simp [childIds, node, Tree.empty, Node.ofKind, Payload.ids] at h
  rises c p h := by simp [node, Tree.empty, Node.ofKind] at h
  counted c p h := by simp [node, Tree.empty, Node.ofKind] at h

/-- A new node that carries no children and hangs nowhere. -/
theorem Sound.push (hs : t.Sound) (hids : n.payload.ids = []) (hparent : n.parent = none) :
    (t.push n).2.Sound := by
  have hold : (t.node t.size).payload.ids = [] ∧ (t.node t.size).parent = none := by
    rw [node_of_size_le (Nat.le_refl _)]
    exact ⟨rfl, rfl⟩
  have hpay : ∀ x, (t.push n).2.childIds x = t.childIds x := by
    intro x
    rw [childIds, node_push]
    by_cases hx : x = t.size
    · rw [if_pos hx, hids, childIds, hx, hold.1]
    · rw [if_neg hx]
  have hpar : ∀ x, ((t.push n).2.node x).parent = (t.node x).parent := by
    intro x
    rw [node_push]
    by_cases hx : x = t.size
    · rw [if_pos hx, hparent, hx, hold.2]
    · rw [if_neg hx]
  have hkeep : ∀ x, x < t.size → (t.push n).2.node x = t.node x := fun x hx => by
    rw [node_push, if_neg (Nat.ne_of_lt hx)]
  have hlinked : (t.push n).2.Linked t.rank := {
    linked := fun p c => by rw [hpay, hpar]; exact hs.linked p c
    once := fun p => by rw [hpay]; exact hs.once p
    solid := fun p c hc => by
      rw [hpay] at hc
      rw [kind, hkeep c (hs.child_lt_size hc)]
      exact hs.solid p c hc
    rises := fun c p hp => hs.rises c p (hpar c ▸ hp) }
  refine hlinked.sound fun c p hp => ?_
  rw [hpar] at hp
  rw [depth, depth, hkeep c (lt_size_of_parent hp), hkeep p (hs.parent_lt_size hp)]
  exact hs.counted c p hp

/-- A change of one node that its links have no part in. -/
structure Relabels (f : Node → Node) : Prop where
  kind : ∀ n, (f n).kind = n.kind
  payload : ∀ n, (f n).payload = n.payload
  parent : ∀ n, (f n).parent = n.parent
  depth : ∀ n, (f n).depth = n.depth

theorem modify_of_size_le (h : t.size ≤ id) : t.modify id f = t := by
  have key : t.nodes.modify id f = t.nodes := by
    refine Array.ext_getElem? fun i => ?_
    rw [Array.getElem?_modify]
    split
    · rename_i hi
      rw [← hi, Array.getElem?_eq_none (show t.nodes.size ≤ id from h)]
      rfl
    · rfl
  rw [modify, key]

theorem Relabels.sameLinks (hf : Relabels f) :
    SameLinks t (t.modify id f) ∧ ∀ x, (t.modify id f).depth x = t.depth x := by
  by_cases hid : id < t.size
  · have key := node_modify hid f
    refine ⟨⟨fun x => ?_, fun x => ?_, fun x => ?_⟩, fun x => ?_⟩ <;> by_cases hx : x = id
    all_goals simp [Tree.kind, Tree.depth, key, hx, hf.kind, hf.payload, hf.parent, hf.depth]
  · rw [modify_of_size_le (Nat.not_lt.1 hid)]
    exact ⟨⟨fun _ => rfl, fun _ => rfl, fun _ => rfl⟩, fun _ => rfl⟩

theorem Sound.relabel (hs : t.Sound) (hf : Relabels f) (id : NodeId) : (t.modify id f).Sound :=
  hf.sameLinks.1.sound hf.sameLinks.2 hs

theorem relabels_role (role : String) : Relabels fun n => { n with role := some role } :=
  ⟨fun _ => rfl, fun _ => rfl, fun _ => rfl, fun _ => rfl⟩

theorem relabels_range (change : Node → Option ByteRange) :
    Relabels fun n => { n with range := change n } :=
  ⟨fun _ => rfl, fun _ => rfl, fun _ => rfl, fun _ => rfl⟩

theorem node_clearRanges (t : Tree) (x : NodeId) :
    t.clearRanges.node x = { t.node x with range := none } := by
  simp only [clearRanges, node, Array.getElem?_map]
  cases t.nodes[x]? <;> rfl

theorem Sound.clearRanges (hs : t.Sound) : t.clearRanges.Sound := by
  refine SameLinks.sound (t := t) ⟨fun x => ?_, fun x => ?_, fun x => ?_⟩ (fun x => ?_) hs
  all_goals simp [kind, depth, node_clearRanges]

/-- Attaching nodes one after the other keeps a tree sound, wherever it ends. -/
theorem Sound.attachAll : ∀ {ids : List NodeId} {t : Tree}, t.Sound → p < t.size →
    (∀ c ∈ ids, c < t.size) → (t.attachAll p ids).1.Sound
  | [], _, hs, _, _ => hs
  | c :: ids, t, hs, hp, hids => by
    rw [Tree.attachAll]
    split
    · exact hs
    · rename_i hok
      refine (hangLast_spec hs (hids c (by simp)) hp hok).1.attachAll ?_ fun d hd => ?_
      · rwa [size_hangLast]
      · rw [size_hangLast]
        exact hids d (List.mem_cons_of_mem _ hd)

theorem size_attachAll : ∀ (ids : List NodeId) (t : Tree), (t.attachAll p ids).1.size = t.size
  | [], _ => rfl
  | c :: ids, t => by
    rw [attachAll]
    split
    · rfl
    · exact (size_attachAll ids _).trans (size_hangLast ..)

theorem children_subset (t : Tree) (x : NodeId) : t.children x ⊆ t.childIds x := by
  intro c hc
  cases h : (t.node x).payload <;> simp_all [children, childIds, Payload.ordered, Payload.ids]

theorem nodup_children (hs : t.Sound) (x : NodeId) : (t.children x).Nodup := by
  have := hs.once x
  cases h : (t.node x).payload <;> simp_all [children, childIds, Payload.ordered, Payload.ids]

theorem parent_of_mem_children (hs : t.Sound) (hc : c ∈ t.children p) :
    (t.node c).parent = some p :=
  (hs.linked p c).1 (children_subset t p hc)

theorem Sound.moveChildren (hs : t.Sound) (hp : p < t.size) (q : NodeId) :
    (t.moveChildren p q).1.Sound :=
  hs.attachAll hp fun _ hc => hs.child_lt_size (children_subset t q hc)

/-! ## A new root -/

/-- Making a node the root: it leaves the payload that held it, and all that is within it moves
along to depth zero. -/
theorem setRoot_spec (hs : t.Sound) (hc : c < t.size) :
    (t.setRoot c).Sound ∧ (t.setRoot c).root = some c ∧ (t.setRoot c).size = t.size ∧
      ∀ x, (t.setRoot c).node x = { t.node x with
        payload := (t.node x).payload.erase c
        parent := if x = c then none else (t.node x).parent
        depth := t.rebased t.depth c 0 x } := by
  have hl := hs.links
  let v : Tree := { t.unlink c with root := some c }
  have hv : ∀ x, v.node x = (t.unlink c).node x := fun _ => rfl
  let w := v.modify c fun n => { n with parent := none, depth := 0 }
  have hvc : c < v.size := by
    show c < (t.unlink c).size
    rwa [size_unlink]
  have hw : ∀ x, w.node x = { (t.unlink c).node x with
      depth := if x = c then 0 else t.depth x } := by
    intro x
    rw [node_modify hvc]
    by_cases hx : x = c
    · simp [hx, hv, node_unlink hl]
    · simp [hx, hv, node_unlink hl, depth]
  have hsame : SameLinks (t.unlink c) w := by constructor <;> intro x <;> simp [kind, hw]
  have hlinked : w.Linked t.rank := hsame.linked (hl.unlink c)
  have hwithin : ∀ x, w.Within c x ↔ t.Within c x := fun x => hsame.within.trans (within_unlink hl)
  have hcounted : w.Counted (t.rebased t.depth c 0) := fun x q hq => by
    rw [hsame.parent, node_unlink hl] at hq
    by_cases hx : x = c
    · simp [hx] at hq
    · exact hs.counted.rebased_rises (by simpa [hx] using hq) hx
  have hstamp := stamped_stampBelow hlinked hcounted (by simpa [w] using hvc)
    (show w.depth c = t.rebased t.depth c 0 c by rw [depth, hw, rebased_count_self]; simp)
  have hnode := hstamp.node_eq fun x hx => by
    have hxc : x ≠ c := fun e => hx (e ▸ .here)
    rw [depth, hw, rebased_of_not_within (mt (hwithin x).2 hx)]
    simp [hxc]
  have hstamped : t.setRoot c = w.stampBelow c := rfl
  refine ⟨?_, by rw [hstamped, root_stampBelow]; rfl, ?_, fun x => ?_⟩
  · have hdepth : (t.setRoot c).depth = t.rebased t.depth c 0 :=
      funext fun x => by rw [hstamped, depth, hnode]
    exact (hstamp.sameLinks.linked hlinked).sound
      (hdepth ▸ hstamp.sameLinks.counted hcounted)
  · rw [hstamped, size_stampBelow, size_modify]
    exact size_unlink t c
  · rw [hstamped, hnode, hw, node_unlink hl]

end Tree
end RouteScript
