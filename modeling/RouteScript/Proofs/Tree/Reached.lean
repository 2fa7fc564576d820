import Mathlib.Logic.Relation
import RouteScript.Proofs.Tree.Depths
/-!
# Reached trees

The trees that any sequence of edits leads to from the empty one. They are all sound
(`Reached.sound`), and so their payloads, parents and depths tell of one forest
(`links_agree_of_allAllowed`). Depths do so as counters of 32 bits: how far the edits can have taken
them by then is said by the number of edits and of nodes (`depth_runAll_le`).
-/
namespace RouteScript

/-- A change that is made to a tree. -/
inductive Edit where
  | push (n : Node)
  | attach (parent child : NodeId)
  | attachNamed (parent : NodeId) (name : String) (child : NodeId)
  | moveChildren (target source : NodeId)
  | setRoot (id : NodeId)
  | setRole (id : NodeId) (role : String)
  | clearRanges

namespace Edit

/-- The tree after an edit, and why the edit was refused, if it was. -/
def run (t : Tree) : Edit → Tree × Option TreeError
  | .push n => ((t.push n).2, none)
  | .attach parent child =>
    match t.attach parent child with
    | .ok u => (u, none)
    | .error e => (t, some e)
  | .attachNamed parent name child =>
    match t.attachNamed parent name child with
    | .ok u => (u, none)
    | .error e => (t, some e)
  | .moveChildren target source => t.moveChildren target source
  | .setRoot id => (t.setRoot id, none)
  | .setRole id role => (t.setRole id role, none)
  | .clearRanges => (t.clearRanges, none)

/-- An edit names nodes of the store only, and a node that is pushed carries a value or nothing and
hangs nowhere. -/
def Allowed (t : Tree) : Edit → Prop
  | .push n => (n.payload.shape = .nothing ∨ n.payload.shape = .scalar) ∧ n.parent = none
  | .attach parent child | .attachNamed parent _ child => parent < t.size ∧ child < t.size
  | .moveChildren target source => target < t.size ∧ source < t.size
  | .setRoot id | .setRole id _ => id < t.size
  | .clearRanges => True

instance (t : Tree) : ∀ e : Edit, Decidable (e.Allowed t)
  | .push _ | .attach _ _ | .attachNamed _ _ _ | .moveChildren _ _ =>
    inferInstanceAs (Decidable (_ ∧ _))
  | .setRoot _ | .setRole _ _ => inferInstanceAs (Decidable (_ < _))
  | .clearRanges => inferInstanceAs (Decidable True)

/-- Edits of which each is allowed on the tree that those before it lead to. -/
def AllAllowed (t : Tree) : List Edit → Prop
  | [] => True
  | e :: es => e.Allowed t ∧ AllAllowed (e.run t).1 es

instance decidableAllAllowed : ∀ (t : Tree) (es : List Edit), Decidable (AllAllowed t es)
  | _, [] => inferInstanceAs (Decidable True)
  | t, e :: es =>
    have := decidableAllAllowed (e.run t).1 es
    inferInstanceAs (Decidable (_ ∧ _))

end Edit

namespace Tree

variable {t : Tree} {e : Edit}

/-- The edit `e` of `t` leaves `u`: the tree as it was if a node may not hang where it is to, and
else what the edit says. Of children that move, those before the first that may not are moved. -/
inductive Leaves (t : Tree) : Edit → Tree → Prop
  | push (n : Node) : t.Leaves (.push n) (t.push n).2
  | refused {p c : NodeId} {e : TreeError} (h : t.refusalAs? .children p c = some e) :
    t.Leaves (.attach p c) t
  | attach {p c : NodeId} (h : t.refusalAs? .children p c = none) :
    t.Leaves (.attach p c) (t.hangLast p c)
  | refusedNamed {p c : NodeId} {name : String} {e : TreeError}
    (h : t.refusalAs? .named p c = some e) : t.Leaves (.attachNamed p name c) t
  | attachNamed {p c : NodeId} {name : String} (h : t.refusalAs? .named p c = none) :
    t.Leaves (.attachNamed p name c) (t.hangNamed p name c)
  | moveChildren (p q : NodeId) : t.Leaves (.moveChildren p q) (t.attachAll p (t.children q)).1
  | setRoot (c : NodeId) : t.Leaves (.setRoot c) (t.setRoot c)
  | setRole (c : NodeId) (role : String) : t.Leaves (.setRole c role) (t.setRole c role)
  | clearRanges : t.Leaves .clearRanges t.clearRanges

theorem leaves_run (t : Tree) (e : Edit) : t.Leaves e (e.run t).1 := by
  cases e with
  | push n => exact .push n
  | attach p c =>
    simp only [Edit.run, Tree.attach]
    cases hok : t.refusalAs? .children p c with
    | some e => exact .refused hok
    | none => exact .attach hok
  | attachNamed p name c =>
    simp only [Edit.run, Tree.attachNamed]
    cases hok : t.refusalAs? .named p c with
    | some e => exact .refusedNamed hok
    | none => exact .attachNamed hok
  | moveChildren p q => exact .moveChildren p q
  | setRoot c => exact .setRoot c
  | setRole c role => exact .setRole c role
  | clearRanges => exact .clearRanges

/-- The tree after several edits. -/
def runAll (t : Tree) (edits : List Edit) : Tree := edits.foldl (fun t e => (e.run t).1) t

/-- The trees that edits lead to from the empty one. -/
inductive Reached : Tree → Prop
  | start : Reached .empty
  | step {t : Tree} {e : Edit} : Reached t → e.Allowed t → Reached (e.run t).1

theorem Reached.runAll (h : Reached t) : ∀ {edits : List Edit}, Edit.AllAllowed t edits →
    Reached (t.runAll edits) := by
  intro edits
  induction edits generalizing t with
  | nil => exact fun _ => h
  | cons e es ih => exact fun ha => ih (h.step ha.1) ha.2

/-- One edit keeps a tree sound, whether or not it is refused. -/
theorem Sound.run (hs : t.Sound) (ha : e.Allowed t) : (e.run t).1.Sound := by
  have hrun := leaves_run t e
  generalize (e.run t).1 = u at hrun ⊢
  cases hrun with
  | push n =>
    refine hs.push ?_ ha.2
    rcases ha.1 with h | h <;> cases hp : n.payload <;> simp_all [Payload.shape, Payload.ids]
  | refused | refusedNamed => exact hs
  | attach hok => exact (hangLast_spec hs ha.2 ha.1 hok).1
  | attachNamed hok => exact (hangNamed_spec hs ha.2 ha.1 hok).1
  | moveChildren p q => exact hs.moveChildren ha.1 q
  | setRoot c => exact (setRoot_spec hs ha).1
  | setRole c role => exact hs.relabel (relabels_role role) c
  | clearRanges => exact hs.clearRanges

theorem Reached.sound (h : Reached t) : t.Sound := by
  induction h with
  | start => exact sound_empty
  | step _ ha ih => exact ih.run ha

/-! ## How far depths go -/

/-- No edit drops a node. -/
theorem size_le_run (hs : t.Sound) (ha : e.Allowed t) : t.size ≤ (e.run t).1.size := by
  have hrun := leaves_run t e
  generalize (e.run t).1 = u at hrun ⊢
  cases hrun with
  | push n => exact (size_push t n).symm ▸ Nat.le_succ _
  | refused | refusedNamed => exact Nat.le_refl _
  | attach => exact Nat.le_of_eq (size_hangLast ..).symm
  | attachNamed => exact Nat.le_of_eq (size_hangNamed ..).symm
  | moveChildren p q => exact Nat.le_of_eq (size_attachAll _ t).symm
  | setRoot c => exact Nat.le_of_eq (setRoot_spec hs ha).2.2.1.symm
  | setRole c role => exact Nat.le_of_eq (size_modify ..).symm
  | clearRanges => exact Nat.le_of_eq (by simp [Tree.clearRanges, size])

/-- One edit takes no depth further than the store is large, if new nodes lie at depth zero. -/
theorem depth_run_le {d : Nat} (hs : t.Sound) (ha : e.Allowed t)
    (hnew : ∀ n, e = .push n → n.depth = 0) (hd : ∀ x, (t.depth x).toNat ≤ d) (x : NodeId) :
    ((e.run t).1.depth x).toNat ≤ d + (e.run t).1.size := by
  have hle : ∀ x, (t.depth x).toNat ≤ d + t.size := fun x => Nat.le_add_right_of_le (hd x)
  have hrun := leaves_run t e
  generalize (e.run t).1 = u at hrun ⊢
  cases hrun with
  | push n =>
    have hzero : n.depth.toNat = 0 := by rw [hnew n rfl]; rfl
    rw [depth, node_push, size_push]
    split
    · omega
    · exact Nat.le_add_right_of_le (hd x)
  | refused | refusedNamed => exact hle x
  | attach hok =>
    rw [size_hangLast]
    exact depth_hangLast_le hs ha.2 ha.1 hok (hd _) (hle x)
  | attachNamed hok =>
    rw [size_hangNamed]
    exact depth_hangNamed_le hs ha.2 ha.1 hok (hd _) (hle x)
  | moveChildren p q =>
    have hids : ∀ c ∈ t.children q, c < t.size := fun c hc =>
      hs.child_lt_size (children_subset t q hc)
    rw [size_attachAll]
    exact depth_attachAll_le hs ha.1 hids (hd p) hle x
  | setRoot c =>
    rw [(setRoot_spec hs ha).2.2.1]
    exact depth_setRoot_le hs ha (hd x)
  | setRole c role =>
    rw [setRole, size_modify, (relabels_role role).sameLinks.2 x]
    exact hle x
  | clearRanges =>
    have hsize : t.clearRanges.size = t.size := by simp [Tree.clearRanges, size]
    rw [depth, node_clearRanges, hsize]
    exact hle x

/-- Edits take no depth further than the nodes in the end, counted once for each edit. -/
theorem depth_runAll_le : ∀ {edits : List Edit} {t : Tree} {d : Nat}, t.Sound →
    Edit.AllAllowed t edits → (∀ n, .push n ∈ edits → n.depth = 0) →
      (∀ x, (t.depth x).toNat ≤ d) → t.size ≤ (t.runAll edits).size ∧
        ∀ x, ((t.runAll edits).depth x).toNat ≤ d + edits.length * (t.runAll edits).size
  | [], _, _, _, _, _, hd => ⟨Nat.le_refl _, fun x => Nat.le_add_right_of_le (hd x)⟩
  | e :: es, t, d, hs, ha, hnew, hd => by
    have hstep := depth_run_le hs ha.1 (fun n hn => hnew n (by simp [hn])) hd
    obtain ⟨hsize, hrest⟩ := depth_runAll_le (hs.run ha.1) ha.2
      (fun n hn => hnew n (List.mem_cons_of_mem _ hn)) hstep
    refine ⟨Nat.le_trans (size_le_run hs ha.1) hsize, fun x => Nat.le_trans (hrest x) ?_⟩
    rw [List.length_cons, Nat.succ_mul]
    show d + (e.run t).1.size + es.length * ((e.run t).1.runAll es).size ≤
      d + (es.length * ((e.run t).1.runAll es).size + ((e.run t).1.runAll es).size)
    omega

/-! ## One forest -/

/-- No chain of parents comes back to where it began. -/
theorem Sound.acyclic (hs : t.Sound) (id : NodeId) :
    ¬ Relation.TransGen (fun c p => (t.node c).parent = some p) id id := by
  have falls : ∀ a b, Relation.TransGen (fun c p => (t.node c).parent = some p) a b →
      t.rank b < t.rank a := by
    intro a b h
    induction h with
    | single hp => rw [hs.rises _ _ hp]; omega
    | tail _ hp ih => have := hs.rises _ _ hp; omega
  exact fun h => Nat.lt_irrefl _ (falls id id h)

/-- No node occurs twice over all payloads. -/
theorem Sound.nodup_payloads (hs : t.Sound) :
    ((List.range t.size).flatMap t.childIds).Nodup := by
  refine List.nodup_flatMap.2 ⟨fun p _ => hs.once p, List.nodup_range.imp fun {p q} hpq => ?_⟩
  exact List.disjoint_left.2 fun c hp hq => hpq (hs.parent_unique hp hq)

/-- A depth counts on as a number as long as its counter does not begin again. -/
theorem Sound.toNat_depth (hs : t.Sound) {c p : NodeId} (hp : (t.node c).parent = some p)
    (hlast : (t.depth p).toNat + 1 < UInt32.size) : (t.depth c).toNat = (t.depth p).toNat + 1 := by
  have hone : (1 : UInt32).toNat = 1 := rfl
  rw [hs.counted c p hp, UInt32.toNat_add, hone, Nat.mod_eq_of_lt hlast]

/-- After any edits of the empty tree, refused ones among them, a node is in the payload of exactly
its parent, and only once over all payloads; parents form no cycle, depths count on by one from
parent to child, and nothing that stands for nothing hangs anywhere.

Depths are counters of 32 bits that begin again at zero, unless the arithmetic is checked, and then
the edit halts the program. A child lies one deeper as a number unless its parent has come to the
last depth there is, and if new nodes lie at depth zero, no run comes that far in which edits and
nodes are few enough. -/
theorem links_agree_of_allAllowed {edits : List Edit} (ha : Edit.AllAllowed .empty edits) :
    let t := Tree.empty.runAll edits
    (∀ p c, c ∈ t.childIds p ↔ (t.node c).parent = some p) ∧
    ((List.range t.size).flatMap t.childIds).Nodup ∧
    (∀ id, ¬ Relation.TransGen (fun c p => (t.node c).parent = some p) id id) ∧
    (∀ c p, (t.node c).parent = some p → (t.node c).depth = (t.node p).depth + 1 ∧
      (((t.node p).depth : Nat) + 1 < UInt32.size →
        ((t.node c).depth : Nat) = ((t.node p).depth : Nat) + 1)) ∧
    ((∀ n, .push n ∈ edits → n.depth = 0) →
      ∀ id, ((t.node id).depth : Nat) ≤ edits.length * t.size) ∧
    ∀ p c, c ∈ t.childIds p → t.kind c ≠ .empty := by
  intro t
  have hs : t.Sound := (Reached.start.runAll ha).sound
  refine ⟨hs.linked, hs.nodup_payloads, hs.acyclic,
    fun c p hp => ⟨hs.counted c p hp, hs.toNat_depth hp⟩, fun hnew id => ?_, hs.solid⟩
  have hbound := (depth_runAll_le (d := 0) sound_empty ha hnew fun _ => Nat.le_refl 0).2 id
  rwa [Nat.zero_add] at hbound

/-- A name that is given twice, two cycles that are refused, a root that is moved and a move that
stops half way. -/
def sampleEdits : List Edit :=
  [.push (.ofKind .root), .push (.ofKind .block), .push (.ofKind .statement),
   .push (.leaf .identifier (.text "x")), .push (.leaf .identifier (.text "y")),
   .attach 0 1, .attachNamed 1 "left" 3, .attachNamed 1 "left" 4, .attach 4 0, .setRoot 1,
   .attach 2 1, .attach 1 2, .attach 0 3, .attach 0 2, .moveChildren 2 0, .setRoot 0]

theorem links_agree_of_allAllowed_sample : Edit.AllAllowed .empty sampleEdits ∧
    let t := Tree.empty.runAll sampleEdits
    t.root = some 0 ∧ t.childIds 2 = [1, 3] ∧ t.childIds 1 = [4] ∧ (t.node 4).depth = 3 ∧
      ((List.range t.size).flatMap t.childIds).Nodup ∧
      ∀ id, ((t.node id).depth : Nat) ≤ sampleEdits.length * t.size :=
  have ha : Edit.AllAllowed .empty sampleEdits := by decide +kernel
  have hlinks := links_agree_of_allAllowed ha
  have hnew : ∀ n, .push n ∈ sampleEdits → n.depth = 0 := by
    simp [sampleEdits, Node.ofKind, Node.leaf]
  ⟨ha, by decide +kernel, by decide +kernel, by decide +kernel, by decide +kernel, hlinks.2.1,
    hlinks.2.2.2.2.1 hnew⟩

end Tree
end RouteScript
