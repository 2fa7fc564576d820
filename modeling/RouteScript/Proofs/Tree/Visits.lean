import RouteScript.Proofs.Tree.Cleared
import RouteScript.Proofs.Tree.Moved
/-!
# Walking with a stack

The walk of a node keeps a stack of the nodes still to visit. Nothing in the stack shows that it
ever runs empty; it does since payloads and parents tell of one forest, where no way down comes back
and no node is met on two ways. Without any bound the walk so ends, in the order of the recursion
that puts a node before the walks of its children.
-/
namespace RouteScript
namespace Tree

variable {t : Tree} {id root x : NodeId} {ids stack rest order later : List NodeId}

/-- Taking the top of the stack and putting its children in its place, until the stack is empty and
with no bound, visits the nodes in this order. -/
inductive Visits (t : Tree) : List NodeId → List NodeId → Prop
  | done : Visits t [] []
  | next {id : NodeId} {stack order : List NodeId} :
      Visits t (t.childIds id ++ stack) order → Visits t (id :: stack) (id :: order)

/-! ## Stacks -/

/-- A walk that ends visits the nodes in one order. -/
theorem Visits.unique (h : t.Visits stack order) (k : t.Visits stack later) : order = later := by
  induction h generalizing later with
  | done => cases k; rfl
  | next _ ih =>
    cases k with
    | next k => rw [ih k]

/-- What lies deeper in the stack is visited after all of what lies on it. -/
theorem Visits.append (h : t.Visits stack order) (k : t.Visits rest later) :
    t.Visits (stack ++ rest) (order ++ later) := by
  induction h with
  | done => exact k
  | next _ ih =>
    rw [List.append_assoc] at ih
    exact .next ih

theorem Visits.flatMap {walk : NodeId → List NodeId} (h : ∀ c ∈ ids, t.Visits [c] (walk c)) :
    t.Visits ids (ids.flatMap walk) := by
  induction ids with
  | nil => exact .done
  | cons c ids ih =>
    rw [List.flatMap_cons]
    exact (h c (by simp)).append (ih fun d hd => h d (List.mem_cons_of_mem _ hd))

/-! ## Sound trees -/

theorem visits_preorder (hs : t.Sound) (hid : id < t.size) : t.Visits [id] (t.preorder id) := by
  refine hs.induction (motive := fun x => t.Visits [x] (t.preorder x)) (fun x hx ih => ?_) hid
  rw [preorder_eq hs hx]
  refine .next ?_
  rw [List.append_nil]
  exact .flatMap ih

/-- The walk ends, and in no other order than the one that is answered. -/
theorem visits_iff (hs : t.Sound) (hid : id < t.size) :
    t.Visits [id] order ↔ t.subtree id = order := by
  rw [subtree_eq_preorder hs hid]
  exact ⟨fun h => (visits_preorder hs hid).unique h, fun h => h ▸ visits_preorder hs hid⟩

theorem subtree_eq (hs : t.Sound) (hid : id < t.size) :
    t.subtree id = id :: (t.childIds id).flatMap t.subtree := by
  rw [subtree_eq_preorder hs hid, preorder_eq hs hid]
  exact congrArg _ (List.flatMap_congr fun c hc =>
    (subtree_eq_preorder hs (hs.child_lt_size hc)).symm)

/-! ## The root -/

theorem root_of_attachAll {r : NodeId} : ∀ {ids : List NodeId} {t : Tree},
    (t.attachAll id ids).1.root = some r → t.root = some r
  | [], _, h => h
  | c :: ids, t, h => by
    rw [attachAll] at h
    split at h
    · exact h
    · have hhung := root_of_attachAll h
      rw [root_hangLast] at hhung
      exact (root_unlink_eq_some.1 hhung).1

/-- No edit makes a node the root that is not in the store. -/
theorem root_run (hs : t.Sound) {e : Edit} (ha : e.Allowed t) {r : NodeId}
    (hr : (e.run t).1.root = some r) : t.root = some r ∨ r < t.size := by
  have hrun := leaves_run t e
  generalize (e.run t).1 = u at hrun hr
  cases hrun with
  | push | refused | refusedNamed | setRole | clearRanges => exact .inl hr
  | attach =>
    rw [root_hangLast] at hr
    exact .inl (root_unlink_eq_some.1 hr).1
  | attachNamed =>
    rw [root_hangNamed] at hr
    exact .inl (root_unlink_eq_some.1 hr).1
  | moveChildren p q => exact .inl (root_of_attachAll hr)
  | setRoot c =>
    obtain ⟨-, hroot, -⟩ := setRoot_spec hs ha
    exact .inr (Option.some.inj (hroot.symm.trans hr) ▸ ha)

/-- The root, if there is one, is in the store. -/
theorem Reached.root_lt_size (h : Reached t) : ∀ r, t.root = some r → r < t.size := by
  induction h with
  | start => intro r hr; cases hr
  | @step t e h ha ih =>
    intro r hr
    have hsize := size_le_run h.sound ha
    rcases root_run h.sound ha hr with hr | hr
    · exact Nat.lt_of_lt_of_le (ih r hr) hsize
    · exact Nat.lt_of_lt_of_le hr hsize

/-- In every tree that edits lead to, the walk of a node with a stack and no bound ends. What it
visits is the node and then the walks of its children in the order of the payload, which for those
with names is that of the names; it visits each node within the node, and each of them once. The
mistakes of the tree are those that the walk from the root visits, in its order. -/
theorem subtree_walked (h : Reached t) :
    (∀ id < t.size, (∀ order, t.Visits [id] order ↔ t.subtree id = order) ∧
      t.subtree id = id :: (t.childIds id).flatMap t.subtree ∧
      (∀ x, x ∈ t.subtree id ↔ t.Within id x) ∧ (t.subtree id).Nodup) ∧
    (∀ id names, (t.node id).payload = .named names →
      t.childIds id = names.entries.map (·.2) ∧ names.entries.Pairwise (·.1 < ·.1)) ∧
    (∀ root, t.root = some root →
      root < t.size ∧ t.errors = (t.subtree root).filter fun id => t.kind id = .error) ∧
    (t.root = none → t.errors = []) := by
  have hs := h.sound
  refine ⟨fun id hid => ⟨fun order => visits_iff hs hid, subtree_eq hs hid, ?_⟩, ?_,
    fun root hroot => ⟨h.root_lt_size root hroot, ?_⟩, fun hroot => ?_⟩
  · rw [subtree_eq_preorder hs hid]
    exact ⟨fun x => mem_preorder hs hid, nodup_preorder hs hid⟩
  · intro id names hnames
    exact ⟨by rw [childIds, hnames]; rfl, names.sorted⟩
  · rw [errors, reachable, hroot]
    rfl
  · rw [errors, reachable, hroot]
    rfl

/-- Two nodes that are named against the order of their names, and a mistake behind them. -/
def namedBackwards : List Edit :=
  [.push (.ofKind .root), .push (.ofKind .block), .push (.error "lost"),
   .push (.leaf .identifier (.text "x")), .push (.leaf .identifier (.text "y")), .attach 0 1,
   .attachNamed 1 "right" 3, .attachNamed 1 "left" 4, .attach 0 2, .setRoot 0]

theorem subtree_walked_namedBackwards : ∃ t : Tree, Reached t ∧ 0 < t.size ∧
    t.Visits [0] [0, 1, 4, 3, 2] ∧ t.root = some 0 ∧
    (t.errors = (t.subtree 0).filter fun id => t.kind id = .error) ∧ t.errors = [2] := by
  have h : Reached (Tree.empty.runAll namedBackwards) := Reached.start.runAll (by decide +kernel)
  obtain ⟨walks, -, mistakes, -⟩ := subtree_walked h
  have hroot : (Tree.empty.runAll namedBackwards).root = some 0 := by decide +kernel
  have hsize : 0 < (Tree.empty.runAll namedBackwards).size := by decide +kernel
  exact ⟨_, h, hsize, ((walks 0 hsize).1 _).2 (by decide +kernel), hroot,
    (mistakes 0 hroot).2, by decide +kernel⟩

end Tree
end RouteScript
