import Mathlib.Logic.Relation
import RouteScript.Proofs.Tree.Walk
/-!
# Payloads without a cycle

Payloads that are set by hand have no parents and no depths to go with them, so nothing is known of
them but what they hold. If no way down from a node comes back to where it was, then every way down
ends before it has met more nodes than the store has (`Acyclic.endsWithin`). So the walk that makes
the item of the node is not cut short, and the item is made of the items of its children
(`Acyclic.item_eq`), as in a sound tree.
-/
namespace RouteScript
namespace Tree

variable {t u : Tree} {c id : NodeId}

/-- The node `c` is a child of `p` by the payload of `p`. -/
def Holds (t : Tree) (p c : NodeId) : Prop := c ∈ t.childIds p

/-- No way down from the node comes back to where it was. -/
def Acyclic (t : Tree) (id : NodeId) : Prop :=
  ∀ x, Relation.ReflTransGen t.Holds id x → ¬ Relation.TransGen t.Holds x x

/-- Every way down from the node ends within `bound` links. -/
def EndsWithin (t : Tree) : Nat → NodeId → Prop
  | 0, id => (t.node id).payload = .nothing
  | bound + 1, id => ∀ c ∈ t.childIds id, t.EndsWithin bound c

theorem Acyclic.child (h : t.Acyclic id) (hc : c ∈ t.childIds id) : t.Acyclic c := fun x hx =>
  h x (.head hc hx)

theorem holds_eq_of_payload (h : ∀ x, (u.node x).payload = (t.node x).payload) :
    u.Holds = t.Holds := by
  funext p c
  rw [Holds, Holds, childIds, h]

/-! ## No way down is longer than the store -/

/-- Below different nodes of the store there is room for no more than the others. -/
theorem endsWithin_of_path : ∀ {bound : Nat} {above : List NodeId} {id : NodeId}, above.Nodup →
    (∀ a ∈ above, a < t.size ∧ Relation.TransGen t.Holds a id) → t.Acyclic id →
      t.size ≤ above.length + bound → t.EndsWithin bound id := by
  have apart : ∀ {above : List NodeId} {id : NodeId}, above.Nodup →
      (∀ a ∈ above, a < t.size ∧ Relation.TransGen t.Holds a id) → t.Acyclic id →
        (id :: above).Nodup := fun hnodup habove hacyclic =>
    List.nodup_cons.2 ⟨fun hm => hacyclic _ .refl (habove _ hm).2, hnodup⟩
  intro bound
  induction bound with
  | zero =>
    intro above id hnodup habove hacyclic hroom
    have hout : t.size ≤ id := by
      refine Nat.le_of_not_lt fun hid => ?_
      have hsub : id :: above ⊆ List.range t.size := List.cons_subset.2
        ⟨List.mem_range.2 hid, fun a ha => List.mem_range.2 (habove a ha).1⟩
      have hle := (List.subperm_of_subset (apart hnodup habove hacyclic) hsub).length_le
      rw [List.length_cons, List.length_range] at hle
      omega
    rw [EndsWithin, node_of_size_le hout]
    rfl
  | succ bound ih =>
    intro above id hnodup habove hacyclic hroom c hc
    refine ih (apart hnodup habove hacyclic) (List.forall_mem_cons.2
      ⟨⟨lt_size_of_mem_childIds hc, .single hc⟩, fun a ha => ?_⟩) (hacyclic.child hc) ?_
    · exact ⟨(habove a ha).1, (habove a ha).2.tail hc⟩
    · rw [List.length_cons]
      omega

theorem Acyclic.endsWithin (h : t.Acyclic id) : t.EndsWithin t.size id :=
  endsWithin_of_path List.nodup_nil (by simp) h (by simp)

/-! ## Items -/

theorem EndsWithin.itemWithin_eq : ∀ {bound more : Nat} {id : NodeId}, t.EndsWithin bound id →
    t.EndsWithin more id → t.itemWithin bound id = t.itemWithin more id
  | 0, 0, _, _, _ => rfl
  | 0, more + 1, id, (h : (t.node id).payload = .nothing), _ => by
    rw [itemWithin_succ, h]
    rfl
  | bound + 1, 0, id, _, (h : (t.node id).payload = .nothing) => by
    rw [itemWithin_succ, h]
    rfl
  | bound + 1, more + 1, id, h, k => by
    rw [itemWithin_succ, itemWithin_succ]
    exact Item.build_congr fun c hc => (h c hc).itemWithin_eq (k c hc)

/-- The item of a node is made of its label, its value and the items of its children. -/
theorem Acyclic.item_eq (h : t.Acyclic id) :
    t.item id = .build (t.node id).label t.item (t.node id).payload := by
  have key : ∀ bound, t.EndsWithin bound id →
      t.itemWithin bound id = .build (t.node id).label t.item (t.node id).payload
    | 0, (hp : (t.node id).payload = .nothing) => by
      rw [hp]
      rfl
    | bound + 1, hends => by
      rw [itemWithin_succ]
      exact Item.build_congr fun c hc => (hends c hc).itemWithin_eq (h.child hc).endsWithin
  exact key _ h.endsWithin

/-- What holds of a node whenever it holds of its children holds where no way down comes back. -/
theorem Acyclic.induction {motive : NodeId → Prop} (h : t.Acyclic id)
    (step : ∀ x, t.Acyclic x → (∀ c ∈ t.childIds x, motive c) → motive x) : motive id := by
  have key : ∀ (bound : Nat) (x : NodeId), t.Acyclic x → t.EndsWithin bound x → motive x := by
    intro bound
    induction bound with
    | zero =>
      intro x hx (hp : (t.node x).payload = .nothing)
      refine step x hx fun c hc => ?_
      rw [childIds, hp] at hc
      cases hc
    | succ bound ih => exact fun x hx hends => step x hx fun c hc => ih c (hx.child hc) (hends c hc)
  exact key _ id h h.endsWithin

/-! ## Levels -/

/-- Where a level rises on every way down, none comes back. -/
theorem acyclic_of_rises (level : NodeId → Nat)
    (h : ∀ p c, c ∈ t.childIds p → level p < level c) (id : NodeId) : t.Acyclic id := by
  have rises : ∀ x y, Relation.TransGen t.Holds x y → level x < level y := by
    intro x y hxy
    induction hxy with
    | single hc => exact h _ _ hc
    | tail _ hc ih => exact Nat.lt_trans ih (h _ _ hc)
  exact fun x _ hx => Nat.lt_irrefl _ (rises x x hx)

theorem Sound.acyclic_payloads (hs : t.Sound) (id : NodeId) : t.Acyclic id :=
  acyclic_of_rises t.rank (fun p c hc => by rw [hs.level_child hc]; omega) id

/-- Whether every child comes behind its parent in the store. -/
def childrenBehind (t : Tree) : Bool :=
  (List.range t.size).all fun p => (t.childIds p).all (p < ·)

theorem acyclic_of_childrenBehind (h : t.childrenBehind = true) (id : NodeId) : t.Acyclic id := by
  refine acyclic_of_rises (fun x => x) (fun p c hc => ?_) id
  have hp := List.mem_range.2 (lt_size_of_mem_childIds hc)
  simpa using List.all_eq_true.1 (List.all_eq_true.1 h p hp) c hc

end Tree
end RouteScript
