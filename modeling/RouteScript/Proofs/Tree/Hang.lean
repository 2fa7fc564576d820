import RouteScript.Proofs.Tree.Stamp
/-!
# What an edit does to each node

Taking a node from its parent, and hanging it below another, said node by node (`node_unlink`,
`hangLast_spec`). Depths change within the moved node only: they are *rebased* there, and so they
count on along the links of the new tree. The level of the old links, rebased in the same way, is a
level of the new ones.
-/
namespace RouteScript

namespace Payload

variable {id x : NodeId} {p : Payload}

@[simp] theorem ids_children (l : List NodeId) : (children l).ids = l := rfl

@[simp] theorem ids_named (m : NameMap NodeId) : (named m).ids = m.values := rfl

theorem ids_erase (id : NodeId) (p : Payload) : (p.erase id).ids = p.ids.filter (· ≠ id) := by
  cases p with
  | named m => simp [erase, ids, NameMap.values, List.filter_map, Function.comp_def]
  | _ => rfl

theorem mem_ids_erase : x ∈ (p.erase id).ids ↔ x ∈ p.ids ∧ x ≠ id := by
  simp [ids_erase]

theorem erase_eq_self (h : id ∉ p.ids) : p.erase id = p := by
  have key : ∀ x ∈ p.ids, x ≠ id := fun x hx e => h (e ▸ hx)
  cases p with
  | children ids =>
    simp only [erase, children.injEq, List.filter_eq_self]
    exact fun x hx => by simpa using key x hx
  | named m =>
    simp only [erase, named.injEq]
    refine NameMap.ext (List.filter_eq_self.2 fun e he => ?_)
    simpa using key e.2 (List.mem_map.2 ⟨e, he, rfl⟩)
  | _ => rfl

/-- The children by name, none for the other shapes. -/
def names : Payload → NameMap NodeId
  | .named ids => ids
  | _ => .empty

end Payload

namespace Tree

variable {t u v : Tree} {level : NodeId → Nat} {count : NodeId → UInt32} {c p q x : NodeId}
  {name : String}

/-! ## Taking a node from its parent -/

@[simp] theorem size_unlink (t : Tree) (c : NodeId) : (t.unlink c).size = t.size := by
  unfold unlink
  split
  · rfl
  · dsimp only
    split <;> simp [modify, size]

/-- What is not the parent of a node does not hold it. -/
theorem Linked.erase_eq (hl : t.Linked level) (h : (t.node c).parent ≠ some x) :
    (t.node x).payload.erase c = (t.node x).payload :=
  Payload.erase_eq_self fun hm => h ((hl.linked x c).1 hm)

theorem node_unlink (hl : t.Linked level) :
    (t.unlink c).node x = { t.node x with
      payload := (t.node x).payload.erase c
      parent := if x = c then none else (t.node x).parent } := by
  cases hp : (t.node c).parent with
  | none =>
    have hsame : t.unlink c = t := by rw [unlink, hp]
    rw [hsame, hl.erase_eq (by simp [hp])]
    by_cases hx : x = c
    · rw [if_pos hx, hx, show (none : Option NodeId) = (t.node c).parent from hp.symm]
    · rw [if_neg hx]
  | some p =>
    have hnode : (t.unlink c).node x = ((t.modify c fun n => { n with parent := none }).modify p
        fun n => { n with payload := n.payload.erase c }).node x := by
      rw [unlink, hp]
      dsimp only
      split <;> rfl
    have hpc : p ≠ c := (hl.ne_child ((hl.linked p c).2 hp)).symm
    rw [hnode, node_modify (by rw [size_modify]; exact hl.parent_lt_size hp),
      node_modify (lt_size_of_parent hp), node_modify (lt_size_of_parent hp), if_neg hpc]
    by_cases hxp : x = p
    · rw [if_pos hxp, hxp, if_neg hpc]
    · rw [if_neg hxp, hl.erase_eq (by rw [hp]; exact fun e => hxp (Option.some.inj e).symm)]
      by_cases hxc : x = c
      · rw [if_pos hxc, if_pos hxc, hxc]
      · rw [if_neg hxc, if_neg hxc]

theorem Linked.unlink (hl : t.Linked level) (c : NodeId) : (t.unlink c).Linked level where
  linked q x := by
    rw [childIds, node_unlink hl, node_unlink hl, Payload.mem_ids_erase]
    by_cases hx : x = c
    · simp [hx]
    · simpa [hx] using hl.linked q x
  once q := by
    rw [childIds, node_unlink hl, Payload.ids_erase]
    exact (hl.once q).filter _
  solid q x hx := by
    rw [childIds, node_unlink hl, Payload.mem_ids_erase] at hx
    rw [kind, node_unlink hl]
    exact hl.solid q x hx.1
  rises x q hq := by
    rw [node_unlink hl] at hq
    by_cases hx : x = c
    · simp [hx] at hq
    · exact hl.rises x q (by simpa [hx] using hq)

theorem Counted.unlink (hc : t.Counted count) (hl : t.Linked level) (c : NodeId) :
    (t.unlink c).Counted count := fun x q hq => by
  rw [node_unlink hl] at hq
  by_cases hx : x = c
  · simp [hx] at hq
  · exact hc x q (by simpa [hx] using hq)

/-- Taking a node from its parent takes nothing from what is within it. -/
theorem within_unlink (hl : t.Linked level) : (t.unlink c).Within c x ↔ t.Within c x :=
  Within.congr fun y hy => by simp [node_unlink hl, hy]

/-- What is within a node outside of which another is taken from its parent stays within it. -/
theorem within_unlink_outside (hl : t.Linked level) (hq : (t.node q).parent = some p)
    (hout : ¬ t.Within c p) : (t.unlink q).Within c x ↔ t.Within c x := by
  constructor
  · intro h
    induction h with
    | here => exact .here
    | @under y z hz _ ih =>
      rw [node_unlink hl] at hz
      by_cases hy : y = q
      · simp [hy] at hz
      · exact .under (by simpa [hy] using hz) ih
  · intro h
    induction h with
    | here => exact .here
    | @under y z hz hw ih =>
      have hy : y ≠ q := by
        rintro rfl
        exact hout (Option.some.inj (hq.symm.trans hz) ▸ hw)
      exact .under (by rw [node_unlink hl]; simpa [hy] using hz) ih

/-! ## Values within a moved node -/

section
variable {α : Type} [Add α] [Sub α] {value : NodeId → α} {base : α}

open Classical in
/-- The values with that of a node put at `base`, and those of all that is within it moved along. -/
noncomputable def rebased (t : Tree) (value : NodeId → α) (c : NodeId) (base : α)
    (x : NodeId) : α :=
  if t.Within c x then base + (value x - value c) else value x

theorem rebased_of_within (h : t.Within c x) :
    t.rebased value c base x = base + (value x - value c) := if_pos h

theorem rebased_of_not_within (h : ¬ t.Within c x) : t.rebased value c base x = value x := if_neg h

theorem rebased_congr (h : ∀ x, u.Within c x ↔ t.Within c x) :
    u.rebased value c base = t.rebased value c base := by
  funext x
  by_cases hx : t.Within c x
  · rw [rebased_of_within hx, rebased_of_within ((h x).2 hx)]
  · rw [rebased_of_not_within hx, rebased_of_not_within (mt (h x).1 hx)]

/-- Rebased values still grow along a link that does not end in the moved node. -/
theorem rebased_of_parent [One α] (hx : (t.node x).parent = some q) (hxc : x ≠ c)
    (hrise : value x = value q + 1)
    (hin : t.Within c q → base + (value x - value c) = base + (value q - value c) + 1) :
    t.rebased value c base x = t.rebased value c base q + 1 := by
  by_cases hw : t.Within c q
  · rw [rebased_of_within hw, rebased_of_within (.under hx hw), hin hw]
  · have hwx : ¬ t.Within c x := by
      intro h
      cases h with
      | here => exact hxc rfl
      | under hp h => rw [hx] at hp; exact hw (Option.some.inj hp ▸ h)
    rw [rebased_of_not_within hw, rebased_of_not_within hwx, hrise]

end

@[simp] theorem rebased_level_self {base : Nat} : t.rebased level c base c = base := by
  rw [rebased_of_within .here]
  omega

@[simp] theorem rebased_count_self {base : UInt32} : t.rebased count c base c = base := by
  rw [rebased_of_within .here, UInt32.sub_self, UInt32.add_zero]

/-- A rebased level still grows along every link that does not end in the moved node. -/
theorem Linked.rebased_rises {base : Nat} (hl : t.Linked level) (hx : (t.node x).parent = some q)
    (hxc : x ≠ c) : t.rebased level c base x = t.rebased level c base q + 1 := by
  have hrise := hl.rises x q hx
  refine rebased_of_parent hx hxc hrise fun hw => ?_
  have := (hw.level_le hl).1
  omega

/-- A rebased counter still goes on along every link that does not end in the moved node. -/
theorem Counted.rebased_rises {base : UInt32} (hc : t.Counted count)
    (hx : (t.node x).parent = some q) (hxc : x ≠ c) :
    t.rebased count c base x = t.rebased count c base q + 1 := by
  have hrise := hc x q hx
  exact rebased_of_parent hx hxc hrise fun _ => by grind

/-! ## Hanging a node below another -/

/-- A tree with one more link, from `p` to a node that hung nowhere, is linked along the rebased
level. -/
theorem Linked.hang (hl : v.Linked level) (hc : (v.node c).parent = none)
    (hsolid : v.kind c ≠ .empty) (hcyc : ¬ v.Within c p) (hkind : ∀ x, u.kind x = v.kind x)
    (hparent : ∀ x, (u.node x).parent = if x = c then some p else (v.node x).parent)
    (hids : ∀ x, x ≠ p → u.childIds x = v.childIds x)
    (hmem : ∀ x, x ∈ u.childIds p ↔ x = c ∨ x ∈ v.childIds p) (honce : (u.childIds p).Nodup) :
    u.Linked (v.rebased level c (level p + 1)) where
  linked q x := by
    rw [hparent]
    by_cases hq : q = p
    · subst hq
      rw [hmem]
      by_cases hx : x = c
      · simp [hx]
      · simpa [hx] using hl.linked q x
    · rw [hids q hq]
      by_cases hx : x = c
      · subst hx
        simp [hl.linked q x, hc, Ne.symm hq]
      · simpa [hx] using hl.linked q x
  once q := by
    by_cases hq : q = p
    · exact hq ▸ honce
    · rw [hids q hq]
      exact hl.once q
  solid q x hx := by
    rw [hkind]
    by_cases hq : q = p
    · rcases (hmem x).1 (hq ▸ hx) with rfl | hx
      · exact hsolid
      · exact hl.solid p x hx
    · exact hl.solid q x (hids q hq ▸ hx)
  rises x q hq := by
    rw [hparent] at hq
    by_cases hx : x = c
    · have : p = q := by simpa [hx] using hq
      rw [hx, rebased_level_self, ← this, rebased_of_not_within hcyc]
    · exact hl.rebased_rises (by simpa [hx] using hq) hx

/-- A counter, rebased, counts along one more link as well. -/
theorem Counted.hang (hv : v.Counted count) (hcyc : ¬ v.Within c p)
    (hparent : ∀ x, (u.node x).parent = if x = c then some p else (v.node x).parent) :
    u.Counted (v.rebased count c (count p + 1)) := fun x q hq => by
  rw [hparent] at hq
  by_cases hx : x = c
  · have : p = q := by simpa [hx] using hq
    rw [hx, rebased_count_self, ← this, rebased_of_not_within hcyc]
  · exact hv.rebased_rises (by simpa [hx] using hq) hx

/-- Settling a node under a parent whose payload holds it already, when a counter goes on along the
links that then are and tells the depths outside of the node. -/
theorem node_settleUnder (hc : c < t.size) (hl : (t.place c p (t.depth p + 1)).Linked level)
    (hcount : (t.place c p (t.depth p + 1)).Counted count) (hcc : count c = t.depth p + 1)
    (hd : ∀ x, ¬ (t.place c p (t.depth p + 1)).Within c x → t.depth x = count x) (x : NodeId) :
    (t.settleUnder p c).node x = { t.node x with
      parent := if x = c then some p else (t.node x).parent
      depth := count x } := by
  have hplaced : (t.place c p (t.depth p + 1)).depth c = count c := by
    rw [depth, node_place hc, if_pos rfl, hcc]
  have hstamp := stamped_stampBelow hl hcount (by rwa [size_place]) hplaced
  have hout : ∀ y, ¬ (t.place c p (t.depth p + 1)).Within c y →
      (t.place c p (t.depth p + 1)).depth y = count y := by
    intro y hy
    have hyc : y ≠ c := fun e => hy (e ▸ .here)
    rw [depth, node_place hc, if_neg hyc]
    exact hd y hy
  have hnode := hstamp.node_eq hout x
  rw [node_place hc] at hnode
  rw [show t.settleUnder p c = (t.place c p (t.depth p + 1)).stampBelow c from rfl, hnode]
  by_cases hx : x = c
  · simp [hx]
  · simp [hx]

/-- A tree `w` that differs from `v` in the payload of `p` only, which holds a node that hung
nowhere in `v`, is sound once that node is settled there. -/
theorem sound_settleUnder {w : Tree} (hl : v.Linked level) (hcount : v.Counted w.depth)
    (hc : c < w.size) (hfree : (v.node c).parent = none) (hsolid : v.kind c ≠ .empty)
    (hcyc : ¬ v.Within c p) (hkind : ∀ x, w.kind x = v.kind x)
    (hparent : ∀ x, (w.node x).parent = (v.node x).parent)
    (hids : ∀ x, x ≠ p → w.childIds x = v.childIds x)
    (hmem : ∀ x, x ∈ w.childIds p ↔ x = c ∨ x ∈ v.childIds p) (honce : (w.childIds p).Nodup) :
    (w.settleUnder p c).Sound ∧ ∀ x, (w.settleUnder p c).node x = { w.node x with
      parent := if x = c then some p else (w.node x).parent
      depth := v.rebased w.depth c (w.depth p + 1) x } := by
  have hplace : ∀ x, (w.place c p (w.depth p + 1)).node x = { w.node x with
      parent := if x = c then some p else (w.node x).parent
      depth := if x = c then w.depth p + 1 else w.depth x } := by
    intro x
    rw [node_place hc]
    by_cases hx : x = c
    · simp [hx]
    · simp [hx, depth]
  have hparent' : ∀ x, ((w.place c p (w.depth p + 1)).node x).parent =
      if x = c then some p else (v.node x).parent := fun x => by rw [hplace, ← hparent]
  have hwithin : ∀ x, (w.place c p (w.depth p + 1)).Within c x ↔ v.Within c x := fun x =>
    Within.congr fun y hy => by rw [hplace, if_neg hy, hparent]
  have hlinked : (w.place c p (w.depth p + 1)).Linked (v.rebased level c (level p + 1)) := by
    refine hl.hang hfree hsolid hcyc (fun x => ?_) hparent' (fun x hx => ?_) (fun x => ?_) ?_
    · rw [kind, hplace, ← hkind]
    · rw [childIds, hplace, ← hids x hx]
    · rw [childIds, hplace, ← hmem]
    · rw [childIds, hplace]
      exact honce
  have hcounted := hcount.hang (u := w.place c p (w.depth p + 1)) hcyc hparent'
  have hnode := node_settleUnder hc hlinked hcounted rebased_count_self fun x hx =>
    (rebased_of_not_within (mt (hwithin x).2 hx)).symm
  refine ⟨?_, hnode⟩
  have hsame : SameLinks (w.place c p (w.depth p + 1)) (w.settleUnder p c) := by
    constructor <;> intro x <;> simp [kind, hnode, hplace]
  have hdepth : (w.settleUnder p c).depth = v.rebased w.depth c (w.depth p + 1) :=
    funext fun x => by rw [depth, hnode]
  exact (hsame.linked hlinked).sound (hdepth ▸ hsame.counted hcounted)

@[simp] theorem size_settleUnder (t : Tree) (p c : NodeId) : (t.settleUnder p c).size = t.size := by
  simp [settleUnder]

@[simp] theorem size_hangLast (t : Tree) (p c : NodeId) : (t.hangLast p c).size = t.size := by
  simp [hangLast]

/-! ## Reasons to refuse -/

theorem refusal?_eq_none (hl : t.Linked level) :
    t.refusal? p c = none ↔ t.kind c ≠ .empty ∧ ¬ t.Within c p := by
  rw [← isWithin_iff hl]
  unfold refusal?
  by_cases he : (t.node c).isEmpty = true
  · simp [he, show t.kind c = .empty by simpa [Node.isEmpty] using he]
  · have : t.kind c ≠ .empty := by simpa [Node.isEmpty] using he
    by_cases hw : t.isWithin c p = true <;> simp [he, hw, this]

theorem refusalAs?_eq_none (hl : t.Linked level) {shape : Shape} :
    t.refusalAs? shape p c = none ↔
      ((t.node p).payload.shape = .nothing ∨ (t.node p).payload.shape = shape) ∧
        t.kind c ≠ .empty ∧ ¬ t.Within c p := by
  rw [← refusal?_eq_none hl]
  unfold refusalAs?
  dsimp only
  split
  · rename_i h
    simp [h.1, h.2]
  · rename_i h
    have : (t.node p).payload.shape = .nothing ∨ (t.node p).payload.shape = shape := by
      by_cases hn : (t.node p).payload.shape = .nothing
      · exact .inl hn
      · exact .inr (Decidable.not_not.1 fun hs => h ⟨hn, hs⟩)
    simp [this]

/-! ## The last child -/

/-- Hanging a node as the last child of another: it leaves the payload that held it, ends that of
its new parent, and all that is within it moves along. -/
theorem hangLast_spec (hs : t.Sound) (hc : c < t.size) (hp : p < t.size)
    (hok : t.refusalAs? .children p c = none) :
    (t.hangLast p c).Sound ∧ ∀ x, (t.hangLast p c).node x = { t.node x with
      payload := if x = p then .children (((t.node p).payload.erase c).ordered ++ [c])
        else (t.node x).payload.erase c
      parent := if x = c then some p else (t.node x).parent
      depth := t.rebased t.depth c (t.depth p + 1) x } := by
  have hl := hs.links
  obtain ⟨hshape, hsolid, hcyc⟩ := (refusalAs?_eq_none hl).1 hok
  have hpc : p ≠ c := fun e => hcyc (e ▸ .here)
  have hord : ((t.node p).payload.erase c).ids = ((t.node p).payload.erase c).ordered := by
    cases hpay : (t.node p).payload <;> simp_all [Payload.shape, Payload.erase, Payload.ids,
      Payload.ordered]
  have hv := hl.unlink c
  have hvc : ((t.unlink c).node c).parent = none := by simp [node_unlink hl]
  let w := (t.unlink c).modify p fun n => { n with payload := .children (n.payload.ordered ++ [c]) }
  have hw : ∀ x, w.node x = { t.node x with
      payload := if x = p then .children (((t.node p).payload.erase c).ordered ++ [c])
        else (t.node x).payload.erase c
      parent := if x = c then none else (t.node x).parent } := by
    intro x
    rw [node_modify (by rwa [size_unlink])]
    by_cases hx : x = p
    · simp [hx, node_unlink hl]
    · simp [hx, node_unlink hl]
  have hdepth : w.depth = t.depth := funext fun x => by rw [depth, hw]; rfl
  have hsettled := sound_settleUnder (w := w) (v := t.unlink c) (p := p) hv
    (hdepth ▸ hs.counted.unlink hl c) (by simpa [w] using hc) hvc
    (by simpa [kind, node_unlink hl] using hsolid) (mt (within_unlink hl).1 hcyc)
    (fun x => by simp [kind, hw, node_unlink hl])
    (fun x => by simp [hw, node_unlink hl]) (fun x hx => by simp [childIds, hw, node_unlink hl, hx])
    (fun x => by simp [childIds, hw, node_unlink hl, hord, or_comm]) ?_
  · refine ⟨hsettled.1, fun x => (hsettled.2 x).trans ?_⟩
    rw [hw, hdepth, rebased_congr fun x => within_unlink hl]
    by_cases hx : x = c <;> simp [hx]
  · have hnd := hv.once p
    simp only [childIds, node_unlink hl, hord] at hnd
    simp only [childIds, hw, if_pos, Payload.ids_children]
    refine List.nodup_append.2 ⟨hnd, by simp, fun a ha b hb => ?_⟩
    rw [← hord] at ha
    have := (Payload.mem_ids_erase.1 ha).2
    simp_all

end Tree
end RouteScript
