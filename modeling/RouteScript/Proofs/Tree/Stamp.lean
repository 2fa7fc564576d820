import RouteScript.Proofs.Tree.Links
import RouteScript.Syntax.Edit
/-!
# Stamps

Stamping below a node changes nothing but the depths within it. If a counter goes on by one along
the links of a tree and agrees with the depth of the node, the depths within it are that counter
afterwards (`stamped_stampBelow`): the bound on the walk is never felt, since what lies within a
node lies less than the size of the store below it.
-/
namespace RouteScript
namespace Tree

variable {t u v : Tree} {level : NodeId → Nat} {count : NodeId → UInt32} {id p x : NodeId}
  {d : UInt32}

@[simp] theorem size_place (t : Tree) (id p : NodeId) (d : UInt32) :
    (t.place id p d).size = t.size :=
  size_modify ..

@[simp] theorem root_place (t : Tree) (id p : NodeId) (d : UInt32) :
    (t.place id p d).root = t.root := rfl

/-! ## Size and root -/

theorem size_placeAll (ids : List NodeId) : ∀ t : Tree,
    (ids.foldl (fun t c => t.place c p d) t).size = t.size := by
  induction ids with
  | nil => intro t; rfl
  | cons c ids ih => intro t; rw [List.foldl_cons, ih, size_place]

theorem root_placeAll (ids : List NodeId) : ∀ t : Tree,
    (ids.foldl (fun t c => t.place c p d) t).root = t.root := by
  induction ids with
  | nil => intro t; rfl
  | cons c ids ih => intro t; rw [List.foldl_cons, ih, root_place]

theorem size_root_stampWithin : ∀ (bound : Nat) (t : Tree) (id : NodeId),
    (stampWithin bound t id).size = t.size ∧ (stampWithin bound t id).root = t.root
  | 0, _, _ => ⟨rfl, rfl⟩
  | bound + 1, t, id => by
    rw [stampWithin]
    rw [← size_placeAll (p := id) (d := (t.node id).depth + 1) (t.node id).payload.ids t,
      ← root_placeAll (p := id) (d := (t.node id).depth + 1) (t.node id).payload.ids t]
    generalize (t.node id).payload.ids.foldl _ t = placed
    induction (t.node id).payload.ids with
    | nil => exact ⟨rfl, rfl⟩
    | cons c ids ih =>
      rw [List.foldr_cons]
      have h := size_root_stampWithin bound
        (ids.foldr (fun child t => stampWithin bound t child) placed) c
      exact ⟨h.1.trans ih.1, h.2.trans ih.2⟩

@[simp] theorem size_stampBelow (t : Tree) (id : NodeId) : (t.stampBelow id).size = t.size :=
  (size_root_stampWithin ..).1

@[simp] theorem root_stampBelow (t : Tree) (id : NodeId) : (t.stampBelow id).root = t.root :=
  (size_root_stampWithin ..).2

theorem node_place (h : id < t.size) :
    (t.place id p d).node x = if x = id then { t.node id with parent := some p, depth := d }
      else t.node x :=
  node_modify h _ x

/-! ## Depths within a set of nodes -/

/-- The tree `u` is `t` with the depths of the nodes in `inside` taken from the counter. -/
structure Stamped (count : NodeId → UInt32) (inside : NodeId → Prop) (t u : Tree) : Prop where
  stamps : ∀ x, inside x → u.node x = { t.node x with depth := count x }
  keeps : ∀ x, ¬ inside x → u.node x = t.node x

namespace Stamped

variable {inside more : NodeId → Prop}

theorem sameLinks (h : Stamped count inside t u) : SameLinks t u := by
  have key : ∀ x, u.kind x = t.kind x ∧ (u.node x).payload = (t.node x).payload ∧
      (u.node x).parent = (t.node x).parent := by
    intro x
    by_cases hx : inside x
    · simp [Tree.kind, h.stamps x hx]
    · simp [Tree.kind, h.keeps x hx]
  exact ⟨fun x => (key x).1, fun x => (key x).2.1, fun x => (key x).2.2⟩

/-- The depth is what the counter says inside, and wherever it was that before. -/
theorem depth_eq (h : Stamped count inside t u) (hx : inside x ∨ t.depth x = count x) :
    u.depth x = count x := by
  by_cases hi : inside x
  · rw [depth, h.stamps x hi]
  · rw [depth, h.keeps x hi]
    exact hx.resolve_left hi

theorem refl (h : ∀ x, inside x → t.depth x = count x) : Stamped count inside t t where
  stamps x hx := by rw [← h x hx]; rfl
  keeps _ _ := rfl

/-- One stamp after another stamps what either of them does. -/
theorem trans (h : Stamped count inside t u) (k : Stamped count more u v) :
    Stamped count (fun x => inside x ∨ more x) t v where
  stamps x hx := by
    by_cases hm : more x
    · rw [k.stamps x hm]
      by_cases hi : inside x
      · rw [h.stamps x hi]
      · rw [h.keeps x hi]
    · rw [k.keeps x hm, h.stamps x (hx.resolve_right hm)]
  keeps x hx := by
    rw [k.keeps x fun h => hx (.inr h), h.keeps x fun h => hx (.inl h)]

/-- If the counter told every other depth before, it tells the new depths throughout. -/
theorem node_eq (h : Stamped count inside t u) (hd : ∀ x, ¬ inside x → t.depth x = count x)
    (x : NodeId) : u.node x = { t.node x with depth := count x } := by
  by_cases hi : inside x
  · exact h.stamps x hi
  · rw [h.keeps x hi, ← hd x hi]
    rfl

/-- Nodes whose depth the counter told before may be taken in. -/
theorem widen (h : Stamped count inside t u) (hsub : ∀ x, inside x → more x)
    (hmore : ∀ x, more x → inside x ∨ t.depth x = count x) : Stamped count more t u where
  stamps x hx := by
    by_cases hi : inside x
    · exact h.stamps x hi
    · rw [h.keeps x hi, ← (hmore x hx).resolve_left hi]
      rfl
  keeps x hx := h.keeps x fun hi => hx (hsub x hi)

end Stamped

/-! ## The stamps of a walk -/

/-- Placing children of a node stamps just them. -/
theorem stamped_placeAll : ∀ (ids : List NodeId) (t : Tree), t.Linked level → t.Counted count →
    (∀ c ∈ ids, c ∈ t.childIds p) →
      Stamped count (· ∈ ids) t (ids.foldl (fun t c => t.place c p (count p + 1)) t)
  | [], _, _, _, _ => .refl fun _ hx => absurd hx (by simp)
  | c :: ids, t, hl, hcount, hids => by
    have hc := hids c (by simp)
    have hparent := (hl.linked p c).1 hc
    have hone : Stamped count (· = c) t (t.place c p (count p + 1)) := by
      have hlt := hl.child_lt_size hc
      refine ⟨fun x hx => ?_, fun x hx => ?_⟩
      · rw [node_place hlt, if_pos hx, hx, ← hcount c p hparent, ← hparent]
      · rw [node_place hlt, if_neg hx]
    have hsame := hone.sameLinks
    have hrest := stamped_placeAll ids _ (hsame.linked hl) (hsame.counted hcount) fun d hd => by
      rw [childIds, hsame.payload]
      exact hids d (List.mem_cons_of_mem _ hd)
    exact (hone.trans hrest).widen (by simp) fun x hx => .inl (by simpa using hx)

/-- Stamping below several nodes stamps what is within any of them, if stamping below one does. -/
theorem stamped_foldr (stampOne : Tree → NodeId → Tree) :
    ∀ (ids : List NodeId), (∀ c ∈ ids, u.depth c = count c) →
      (∀ v c, c ∈ ids → SameLinks u v → v.depth c = count c →
        Stamped count (v.Within c) v (stampOne v c)) →
      Stamped count (fun x => ∃ c ∈ ids, u.Within c x) u (ids.foldr (fun c v => stampOne v c) u)
  | [], _, _ => .refl fun _ hx => absurd hx (by simp)
  | c :: ids, hd, hone => by
    have hrest := stamped_foldr stampOne ids (fun d hm => hd d (List.mem_cons_of_mem _ hm))
      fun v d hm => hone v d (List.mem_cons_of_mem _ hm)
    have hsame := hrest.sameLinks
    have hc := hone _ c (by simp) hsame (hrest.depth_eq (.inr (hd c (by simp))))
    refine (hrest.trans hc).widen (fun x hx => ?_) fun x hx => .inl ?_
    · simpa [hsame.within, or_comm] using hx
    · simpa [hsame.within, or_comm] using hx

/-- Stamping below a node, down to more levels than there are within it, stamps all of them. -/
theorem stamped_stampWithin : ∀ (bound : Nat) (t : Tree) (id : NodeId), t.Linked level →
    t.Counted count → t.depth id = count id → (∀ x, t.Within id x → level x < level id + bound) →
      Stamped count (t.Within id) t (stampWithin bound t id)
  | 0, t, id, _, _, _, hfit => absurd (hfit id .here) (by omega)
  | bound + 1, t, id, hl, hcount, hd, hfit => by
    have hplaced := stamped_placeAll (p := id) (t.childIds id) t hl hcount fun _ h => h
    rw [← hd] at hplaced
    have hsame := hplaced.sameLinks
    have hbelow := stamped_foldr (stampWithin bound) (t.childIds id)
      (fun c hc => hplaced.depth_eq (.inl hc)) fun v c hc hv hvd => by
        refine stamped_stampWithin bound v c (hv.linked (hsame.linked hl))
          (hv.counted (hsame.counted hcount)) hvd fun x hx => ?_
        have hx' := hsame.within.1 (hv.within.1 hx)
        have := hfit x (hx'.of_child hl hc)
        rw [hl.level_child hc]
        omega
    refine (hplaced.trans hbelow).widen (fun x hx => ?_) fun x hx => ?_
    · rcases hx with hx | ⟨c, hc, hx⟩
      · exact Within.here.of_child hl hx
      · exact (hsame.within.1 hx).of_child hl hc
    · rcases hx.cases_child hl with rfl | ⟨c, hc, hx⟩
      · exact .inr hd
      · exact .inl (.inr ⟨c, hc, hsame.within.2 hx⟩)

theorem stamped_stampBelow (hl : t.Linked level) (hcount : t.Counted count) (hid : id < t.size)
    (hd : t.depth id = count id) : Stamped count (t.Within id) t (t.stampBelow id) :=
  stamped_stampWithin _ _ _ hl hcount hd fun _ hx => hx.level_lt hl hid

end Tree
end RouteScript
