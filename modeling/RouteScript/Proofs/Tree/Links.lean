import Mathlib.Data.List.Perm.Subperm
import RouteScript.Syntax.Walk
/-!
# Links of a tree

Every link between two nodes is kept twice, in the payload of the parent and in the child. A tree is
`Linked` along a `level` if both say the same, no node hangs twice, and the level grows by one along
every link. A level rules out cycles, and since the nodes above a node all have different levels,
there are no more of them than there are nodes in the store: no walk along links is cut short.

The depths that nodes carry are no such level. A depth is a counter of 32 bits, and a child that is
replaced keeps the depth it had, so depths can rise with every edit until they begin again at zero.
What serves as a level of any tree that has one is the number of nodes above each (`Linked.own`). A
tree is `Sound` if that is a level of its links and depths count on from parent to child.
-/
namespace RouteScript
namespace Tree

/-- The node hangs below `top`, at any distance, or is `top`. -/
inductive Within (t : Tree) (top : NodeId) : NodeId → Prop
  | here : Within t top top
  | under {c p : NodeId} : (t.node c).parent = some p → Within t top p → Within t top c

/-- Both ends of every link agree, no node hangs twice or stands for nothing, and `level` grows by
one along every link. -/
structure Linked (t : Tree) (level : NodeId → Nat) : Prop where
  linked : ∀ p c, c ∈ t.childIds p ↔ (t.node c).parent = some p
  once : ∀ p, (t.childIds p).Nodup
  solid : ∀ p c, c ∈ t.childIds p → t.kind c ≠ .empty
  rises : ∀ c p, (t.node c).parent = some p → level c = level p + 1

/-- How many nodes lie above a node. -/
def rank (t : Tree) (id : NodeId) : Nat := (t.lineage id).tail.length

/-- The depth of a node, which says how far the node lies below the top as long as no counter has
begun again. -/
def depth (t : Tree) (id : NodeId) : UInt32 := (t.node id).depth

/-- The counter goes on by one along every link. -/
def Counted (t : Tree) (count : NodeId → UInt32) : Prop :=
  ∀ c p, (t.node c).parent = some p → count c = count p + 1

/-- The links of the tree agree, and every child counts on from the depth of its parent. -/
structure Sound (t : Tree) : Prop extends links : t.Linked t.rank where
  counted : t.Counted t.depth

variable {t u : Tree} {level : NodeId → Nat} {top mid c p q x y : NodeId}

/-! ## Nodes beyond the store -/

theorem node_of_size_le (h : t.size ≤ x) : t.node x = .ofKind .empty := by
  have : t.nodes[x]? = none := Array.getElem?_eq_none h
  simp [node, this]

theorem lt_size_of_parent (h : (t.node c).parent = some p) : c < t.size := by
  by_contra hc
  rw [node_of_size_le (Nat.le_of_not_lt hc)] at h
  cases h

theorem lt_size_of_mem_childIds (h : c ∈ t.childIds p) : p < t.size := by
  by_contra hp
  rw [childIds, node_of_size_le (Nat.le_of_not_lt hp)] at h
  cases h

namespace Linked

theorem parent_lt_size (h : t.Linked level) (hc : (t.node c).parent = some p) : p < t.size :=
  lt_size_of_mem_childIds ((h.linked p c).2 hc)

theorem child_lt_size (h : t.Linked level) (hc : c ∈ t.childIds p) : c < t.size :=
  lt_size_of_parent ((h.linked p c).1 hc)

/-- A node is the child of one parent only. -/
theorem parent_unique (h : t.Linked level) (hp : c ∈ t.childIds p) (hq : c ∈ t.childIds q) :
    p = q := by
  have := ((h.linked p c).1 hp).symm.trans ((h.linked q c).1 hq)
  exact Option.some.inj this

theorem level_child (h : t.Linked level) (hc : c ∈ t.childIds p) : level c = level p + 1 :=
  h.rises c p ((h.linked p c).1 hc)

theorem ne_child (h : t.Linked level) (hc : c ∈ t.childIds p) : c ≠ p := by
  rintro rfl
  have := h.level_child hc
  omega

end Linked

/-! ## Within -/

namespace Within

theorem trans (h : t.Within top mid) (k : t.Within mid x) : t.Within top x := by
  induction k with
  | here => exact h
  | under hp _ ih => exact .under hp ih

/-- A node within another lies no higher, and only the node itself lies as high. -/
theorem level_le (hl : t.Linked level) (h : t.Within top x) :
    level top ≤ level x ∧ (level top = level x → top = x) := by
  induction h with
  | here => exact ⟨Nat.le_refl _, fun _ => rfl⟩
  | under hp _ ih =>
    have := hl.rises _ _ hp
    exact ⟨by omega, fun h => absurd h (by omega)⟩

/-- A node within another is that node, or hangs within one of its children. -/
theorem cases_child (hl : t.Linked level) (h : t.Within top x) :
    x = top ∨ ∃ c ∈ t.childIds top, t.Within c x := by
  induction h with
  | here => exact .inl rfl
  | @under c p hp _ ih =>
    rcases ih with rfl | ⟨d, hd, hw⟩
    · exact .inr ⟨c, (hl.linked _ _).2 hp, .here⟩
    · exact .inr ⟨d, hd, .under hp hw⟩

theorem of_child (hl : t.Linked level) (hc : c ∈ t.childIds top) (h : t.Within c x) :
    t.Within top x :=
  trans (.under ((hl.linked _ _).1 hc) .here) h

/-- Only a node itself is within a node of the same parent. -/
theorem eq_of_siblings (hl : t.Linked level) (hx : x ∈ t.childIds p) (hy : y ∈ t.childIds p)
    (h : t.Within x y) : x = y :=
  (h.level_le hl).2 (by rw [hl.level_child hx, hl.level_child hy])

/-- Of the nodes that hold a node, there is one on a level at most. -/
theorem eq_of_level (hl : t.Linked level) (h : t.Within x y) (k : t.Within top y)
    (hlevel : level x = level top) : x = top := by
  induction h with
  | here => exact ((k.level_le hl).2 hlevel.symm).symm
  | @under c p hp hw ih =>
    cases k with
    | here =>
      -- the upper node lies above the lower one, so not on its level
      have hle := (hw.level_le hl).1
      have hrise := hl.rises _ _ hp
      omega
    | under hp' k =>
      obtain rfl := Option.some.inj (hp.symm.trans hp')
      exact ih k

/-- What hangs nowhere is within itself only. -/
theorem eq_of_parent_none (hx : (t.node x).parent = none) (h : t.Within top x) : x = top := by
  cases h with
  | here => rfl
  | under hp _ => rw [hx] at hp; cases hp

theorem lt_size (htop : top < t.size) (h : t.Within top x) : x < t.size := by
  cases h with
  | here => exact htop
  | under hp _ => exact lt_size_of_parent hp

/-- Which nodes are within `top` depends on the parents of the others only. -/
theorem congr (hp : ∀ x, x ≠ top → (u.node x).parent = (t.node x).parent) :
    u.Within top x ↔ t.Within top x := by
  constructor
  · intro h
    induction h with
    | here => exact .here
    | @under c p hc _ ih =>
      by_cases hct : c = top
      · exact hct ▸ .here
      · exact .under (hp c hct ▸ hc) ih
  · intro h
    induction h with
    | here => exact .here
    | @under c p hc _ ih =>
      by_cases hct : c = top
      · exact hct ▸ .here
      · exact .under ((hp c hct).symm ▸ hc) ih

end Within

/-! ## No chain is longer than the store -/

/-- The nodes from one within `top` up to it are all different and all in the store. -/
theorem Within.chain (hl : t.Linked level) (htop : top < t.size) (h : t.Within top x) :
    ∃ above : List NodeId, above.Nodup ∧ above.length = level x - level top + 1 ∧
      ∀ y ∈ above, y < t.size ∧ level y ≤ level x := by
  induction h with
  | here => exact ⟨[top], by simp, by simp, by simp [htop]⟩
  | @under c p hp hw ih =>
    obtain ⟨above, hnd, hlen, hall⟩ := ih
    have hc := hl.rises c p hp
    have hle := (hw.level_le hl).1
    refine ⟨c :: above, List.nodup_cons.2 ⟨fun hm => ?_, hnd⟩, ?_, fun y hy => ?_⟩
    · have := (hall c hm).2
      omega
    · rw [List.length_cons, hlen]
      omega
    · rcases List.mem_cons.1 hy with rfl | hy
      · exact ⟨lt_size_of_parent hp, Nat.le_refl _⟩
      · have := hall y hy
        exact ⟨this.1, by omega⟩

/-- What is within a node lies less than the size of the store below it. -/
theorem Within.level_lt (hl : t.Linked level) (htop : top < t.size) (h : t.Within top x) :
    level x < level top + t.size := by
  obtain ⟨above, hnd, hlen, hall⟩ := h.chain hl htop
  have hsub : above ⊆ List.range t.size := fun y hy => List.mem_range.2 (hall y hy).1
  have hle := (List.subperm_of_subset hnd hsub).length_le
  rw [List.length_range] at hle
  have := (h.level_le hl).1
  omega

theorem within_of_mem_lineageWithin : ∀ (bound : Nat) (x : NodeId),
    y ∈ t.lineageWithin bound x → t.Within y x
  | 0, x, h => by
    have : y = x := by simpa [lineageWithin] using h
    exact this ▸ .here
  | bound + 1, x, h => by
    rw [lineageWithin] at h
    split at h
    · have : y = x := by simpa using h
      exact this ▸ .here
    · rename_i p hp
      rcases List.mem_cons.1 h with rfl | h
      · exact .here
      · exact .under hp (within_of_mem_lineageWithin bound p h)

theorem Within.mem_lineageWithin (hl : t.Linked level) (h : t.Within top x) :
    ∀ bound, level x ≤ level top + bound → top ∈ t.lineageWithin bound x := by
  induction h with
  | here =>
    intro bound _
    cases bound with
    | zero => simp [lineageWithin]
    | succ bound => rw [lineageWithin]; split <;> simp
  | @under c p hp hw ih =>
    intro bound hb
    have hc := hl.rises c p hp
    have hle := (hw.level_le hl).1
    cases bound with
    | zero => omega
    | succ bound =>
      rw [lineageWithin, hp]
      exact List.mem_cons_of_mem _ (ih bound (by omega))

/-- The walk upwards finds exactly the nodes above. -/
theorem isWithin_iff (hl : t.Linked level) : t.isWithin top x = true ↔ t.Within top x := by
  rw [isWithin, lineage, List.contains_iff_mem]
  constructor
  · exact within_of_mem_lineageWithin _ _
  · intro h
    rcases Nat.lt_or_ge top t.size with htop | htop
    · exact h.mem_lineageWithin hl _ (Nat.le_of_lt (h.level_lt hl htop))
    · refine h.mem_lineageWithin hl _ ?_
      cases h with
      | here => omega
      | under hp hw =>
        rcases hw.cases_child hl with rfl | ⟨d, hd, -⟩
        · exact absurd (hl.parent_lt_size hp) (Nat.not_lt.2 htop)
        · exact absurd (lt_size_of_mem_childIds hd) (Nat.not_lt.2 htop)

/-! ## The number of nodes above -/

theorem lineageWithin_of_free (h : (t.node x).parent = none) (bound : Nat) :
    t.lineageWithin bound x = [x] := by
  cases bound with
  | zero => rfl
  | succ bound => rw [lineageWithin, h]

theorem lineageWithin_of_parent (h : (t.node c).parent = some p) (bound : Nat) :
    t.lineageWithin (bound + 1) c = c :: t.lineageWithin bound p := by
  rw [lineageWithin, h]

theorem lineage_eq_cons (t : Tree) (x : NodeId) : t.lineage x = x :: (t.lineage x).tail := by
  rw [lineage]
  cases t.size with
  | zero => rfl
  | succ bound =>
    rw [lineageWithin]
    split <;> rfl

/-- A walk upwards that has not used its bound up finds no more with a higher one. -/
theorem lineageWithin_succ : ∀ {bound : Nat} {x : NodeId},
    (t.lineageWithin (bound + 1) x).length ≤ bound + 1 →
      t.lineageWithin bound x = t.lineageWithin (bound + 1) x := by
  intro bound
  induction bound with
  | zero =>
    intro x h
    cases hx : (t.node x).parent with
    | none => rw [lineageWithin_of_free hx, lineageWithin_of_free hx]
    | some p =>
      rw [lineageWithin_of_parent hx] at h
      simp [lineageWithin] at h
  | succ bound ih =>
    intro x h
    cases hx : (t.node x).parent with
    | none => rw [lineageWithin_of_free hx, lineageWithin_of_free hx]
    | some p =>
      rw [lineageWithin_of_parent hx, List.length_cons] at h
      rw [lineageWithin_of_parent hx, lineageWithin_of_parent hx, ih (by omega)]

namespace Linked

/-- Nobody is met twice on the way up. -/
theorem nodup_lineageWithin (hl : t.Linked level) : ∀ (bound : Nat) (x : NodeId),
    (t.lineageWithin bound x).Nodup
  | 0, x => by simp [lineageWithin]
  | bound + 1, x => by
    cases hx : (t.node x).parent with
    | none => simp [lineageWithin_of_free hx]
    | some p =>
      rw [lineageWithin_of_parent hx]
      refine List.nodup_cons.2 ⟨fun hm => ?_, hl.nodup_lineageWithin bound p⟩
      have hle := ((within_of_mem_lineageWithin bound p hm).level_le hl).1
      have hrise := hl.rises x p hx
      omega

theorem lineageWithin_subset (hl : t.Linked level) : ∀ {bound : Nat} {x : NodeId}, x < t.size →
    t.lineageWithin bound x ⊆ List.range t.size
  | 0, x, hx => by simpa [lineageWithin] using hx
  | bound + 1, x, hx => by
    cases hp : (t.node x).parent with
    | none => simpa [lineageWithin_of_free hp] using hx
    | some p =>
      rw [lineageWithin_of_parent hp]
      exact List.cons_subset.2
        ⟨List.mem_range.2 hx, hl.lineageWithin_subset (hl.parent_lt_size hp)⟩

/-- The ancestors of a node are its parent and the ancestors of that. -/
theorem lineage_of_parent (hl : t.Linked level) (hp : (t.node c).parent = some p) :
    t.lineage c = c :: t.lineage p := by
  obtain ⟨bound, hbound⟩ : ∃ bound, t.size = bound + 1 :=
    Nat.exists_eq_succ_of_ne_zero (Nat.ne_zero_of_lt (lt_size_of_parent hp))
  -- the child and the nodes from its parent on are all different, so they fit in the store
  have hnodup : (t.lineageWithin (t.size + 1) c).Nodup := hl.nodup_lineageWithin _ c
  have hsub : t.lineageWithin (t.size + 1) c ⊆ List.range t.size :=
    hl.lineageWithin_subset (lt_size_of_parent hp)
  have hle := (List.subperm_of_subset hnodup hsub).length_le
  rw [lineageWithin_of_parent hp, List.length_cons, List.length_range, hbound] at hle
  rw [lineage, lineage, hbound, lineageWithin_of_parent hp, lineageWithin_succ (by omega)]

theorem rank_of_parent (hl : t.Linked level) (hp : (t.node c).parent = some p) :
    t.rank c = t.rank p + 1 := by
  rw [rank, hl.lineage_of_parent hp, List.tail_cons, lineage_eq_cons, List.length_cons, rank]

/-- The number of nodes above is a level of the links, if they have any. -/
theorem own (hl : t.Linked level) : t.Linked t.rank :=
  { hl with rises := fun _ _ hp => hl.rank_of_parent hp }

/-- A linked tree is sound if depths count on from parent to child. -/
theorem sound (hl : t.Linked level) (hd : t.Counted t.depth) : t.Sound :=
  { hl.own with counted := hd }

end Linked

theorem rank_of_free (h : (t.node x).parent = none) : t.rank x = 0 := by
  rw [rank, lineage, lineageWithin_of_free h]
  rfl

/-! ## Trees with the same links -/

/-- The two trees have the same links between nodes of the same kinds. -/
structure SameLinks (t u : Tree) : Prop where
  kind : ∀ x, u.kind x = t.kind x
  payload : ∀ x, (u.node x).payload = (t.node x).payload
  parent : ∀ x, (u.node x).parent = (t.node x).parent

namespace SameLinks

theorem linked (h : SameLinks t u) (hl : t.Linked level) : u.Linked level where
  linked p c := by rw [childIds, h.payload, h.parent]; exact hl.linked p c
  once p := by rw [childIds, h.payload]; exact hl.once p
  solid p c hc := by
    rw [childIds, h.payload] at hc
    rw [h.kind]
    exact hl.solid p c hc
  rises c p hp := hl.rises c p (h.parent c ▸ hp)

theorem within (h : SameLinks t u) : u.Within top x ↔ t.Within top x :=
  Within.congr fun x _ => h.parent x

theorem counted {count : NodeId → UInt32} (h : SameLinks t u) (hc : t.Counted count) :
    u.Counted count := fun c p hp => hc c p (h.parent c ▸ hp)

theorem sound (h : SameLinks t u) (hd : ∀ x, u.depth x = t.depth x) (hs : t.Sound) : u.Sound :=
  (h.linked hs.links).sound <| by
    rw [show u.depth = t.depth from funext hd]
    exact h.counted hs.counted

end SameLinks

end Tree
end RouteScript
