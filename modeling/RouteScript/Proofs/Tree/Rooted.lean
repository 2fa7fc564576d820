import RouteScript.Proofs.Tree.Reached
import RouteScript.Proofs.Tree.Walk
/-!
# The root

A root lies on top: it hangs nowhere and its depth is zero. Every depth below it then counts the
links down to the node (`OnTop.countsFrom`), so its ancestors, and stamping the tree anew changes
nothing (`Sound.rooted`). Edits keep this but for one, which hangs the root itself below
another node: a root that hangs nowhere is not taken from a parent, so it stays the root, now with a
parent (`root_of_hangsRoot`). The trees along a run of edits all have their root on top exactly if
no edit of the run does that (`rooted_iff_sparesRoot`).
-/
namespace RouteScript

namespace Edit

/-- The edit hangs the root below another node. -/
def HangsRoot (t : Tree) : Edit → Prop
  | .attach parent child => t.root = some child ∧ t.refusalAs? .children parent child = none
  | .attachNamed parent _ child => t.root = some child ∧ t.refusalAs? .named parent child = none
  | _ => False

instance (t : Tree) : ∀ e : Edit, Decidable (e.HangsRoot t)
  | .attach _ _ | .attachNamed _ _ _ => inferInstanceAs (Decidable (_ ∧ _))
  | .push _ | .moveChildren _ _ | .setRoot _ | .setRole _ _ | .clearRanges =>
    inferInstanceAs (Decidable False)

/-- Edits of which none hangs what is the root when its turn comes. -/
def SparesRoot (t : Tree) : List Edit → Prop
  | [] => True
  | e :: es => ¬ e.HangsRoot t ∧ SparesRoot (e.run t).1 es

instance decidableSparesRoot : ∀ (t : Tree) (es : List Edit), Decidable (SparesRoot t es)
  | _, [] => inferInstanceAs (Decidable True)
  | t, e :: es =>
    have := decidableSparesRoot (e.run t).1 es
    inferInstanceAs (Decidable (_ ∧ _))

end Edit

namespace Tree

/-- The node lies `k` links below `top`. -/
inductive Below (t : Tree) (top : NodeId) : Nat → NodeId → Prop
  | here : Below t top 0 top
  | down {k : Nat} {p c : NodeId} : Below t top k p → c ∈ t.childIds p → Below t top (k + 1) c

/-- A node of the store that hangs nowhere, at depth zero. -/
structure OnTop (t : Tree) (r : NodeId) : Prop where
  stored : r < t.size
  free : (t.node r).parent = none
  zero : t.depth r = 0

/-- Depths count the links from `root` down to each node of the tree, and what they come to is the
number of links as long as there are no more nodes than the counter has values. -/
structure CountsFrom (t : Tree) (root : NodeId) : Prop where
  counts : ∀ k x, t.Below root k x → x ∈ t.reachable ∧ t.depth x = .ofNat k
  reached : ∀ x ∈ t.reachable, ∃ k < t.size, t.Below root k x
  exact : t.size ≤ UInt32.size →
    ∀ k x, t.Below root k x ↔ x ∈ t.reachable ∧ (t.depth x : Nat) = k

/-- If the tree has a root, it lies on top and depths count the links from it, just as stamping
would have it. -/
structure Rooted (t : Tree) : Prop where
  onTop : ∀ r, t.root = some r → t.OnTop r
  counts : ∀ r, t.root = some r → t.CountsFrom r
  stamped : t.stamp = t

variable {t u : Tree} {e : Edit} {c id p r root top x : NodeId} {name : String} {k : Nat}

/-! ## What lies below the root -/

theorem Below.within (h : t.Below top k x) (hs : t.Sound) :
    t.Within top x ∧ t.rank x = t.rank top + k := by
  induction h with
  | here => exact ⟨.here, rfl⟩
  | down _ hc ih =>
    have := hs.level_child hc
    exact ⟨ih.1.trans (Within.here.of_child hs.links hc), by omega⟩

theorem Within.below_rank_sub (h : t.Within top x) (hs : t.Sound) :
    t.Below top (t.rank x - t.rank top) x := by
  induction h with
  | here => rw [Nat.sub_self]; exact .here
  | @under c p hp hw ih =>
    have hrise := hs.rises c p hp
    have hle := (hw.level_le hs.links).1
    rw [show t.rank c - t.rank top = t.rank p - t.rank top + 1 by omega]
    exact .down ih ((hs.linked p c).2 hp)

/-- Below a node on top, the depth counts the nodes above. -/
theorem OnTop.depth_eq (h : t.OnTop root) (hs : t.Sound) (hw : t.Within root x) :
    t.depth x = .ofNat (t.rank x) := by
  have hcount := hs.counted.of_within hs.links hw
  rwa [h.zero, UInt32.zero_add, rank_of_free h.free] at hcount

/-- Below a node on top, there are fewer nodes above another than in the store. -/
theorem OnTop.rank_lt_size (h : t.OnTop root) (hs : t.Sound) (hw : t.Within root x) :
    t.rank x < t.size := by
  simpa [rank_of_free h.free] using hw.level_lt hs.links h.stored

theorem OnTop.toNat_depth (h : t.OnTop root) (hs : t.Sound) (hsize : t.size ≤ UInt32.size)
    (hw : t.Within root x) : (t.depth x).toNat = t.rank x := by
  have hlt := h.rank_lt_size hs hw
  rw [h.depth_eq hs hw, UInt32.toNat_ofNat']
  exact Nat.mod_eq_of_lt (Nat.lt_of_lt_of_le hlt hsize)

/-- Depths count the links from a root that lies on top. -/
theorem OnTop.countsFrom (h : t.OnTop root) (hs : t.Sound) (hr : t.root = some root) :
    t.CountsFrom root := by
  have hmem : ∀ {x}, x ∈ t.reachable ↔ t.Within root x := mem_reachable hs hr h.stored
  have hrank : ∀ {k x}, t.Below root k x → t.Within root x ∧ t.rank x = k := fun hb => by
    simpa [rank_of_free h.free] using hb.within hs
  have hbelow : ∀ {x}, t.Within root x → t.Below root (t.rank x) x := fun hw => by
    simpa [rank_of_free h.free] using hw.below_rank_sub hs
  refine ⟨fun k x hb => ?_, fun x hx => ?_, fun hsize k x => ?_⟩
  · obtain ⟨hw, rfl⟩ := hrank hb
    exact ⟨hmem.2 hw, h.depth_eq hs hw⟩
  · have hw := hmem.1 hx
    exact ⟨_, h.rank_lt_size hs hw, hbelow hw⟩
  · rw [hmem]
    constructor
    · intro hb
      obtain ⟨hw, rfl⟩ := hrank hb
      exact ⟨hw, h.toNat_depth hs hsize hw⟩
    · rintro ⟨hw, rfl⟩
      rw [h.toNat_depth hs hsize hw]
      exact hbelow hw

/-- Two trees with the same nodes and the same root are the same. -/
theorem eq_of_node (hsize : u.size = t.size) (hroot : u.root = t.root)
    (hnode : ∀ x, u.node x = t.node x) : u = t := by
  have hnodes : u.nodes = t.nodes := by
    refine Array.ext hsize fun i hu ht => ?_
    rw [← node_eq_of_lt hu, ← node_eq_of_lt ht]
    exact hnode i
  cases u
  cases t
  simp_all

/-- Stamping a tree whose root lies on top changes nothing. -/
theorem Sound.stamp_eq (hs : t.Sound) (h : ∀ r, t.root = some r → t.OnTop r) : t.stamp = t := by
  cases hr : t.root with
  | none => rw [stamp, hr]
  | some r =>
    obtain ⟨hlt, hfree, hzero⟩ := h r hr
    have hmodify : (t.modify r fun n => { n with parent := none, depth := 0 }) = t := by
      refine eq_of_node (size_modify ..) rfl fun x => ?_
      rw [node_modify hlt]
      by_cases hx : x = r
      · rw [if_pos hx, hx, ← hfree, ← hzero]
        rfl
      · rw [if_neg hx]
    have hstamp := stamped_stampBelow hs.links hs.counted hlt rfl
    rw [stamp, hr]
    simp only [hmodify]
    exact eq_of_node (size_stampBelow ..) (root_stampBelow ..) (hstamp.node_eq fun _ _ => rfl)

/-- A sound tree whose root lies on top counts its depths from there. -/
theorem Sound.rooted (hs : t.Sound) (h : ∀ r, t.root = some r → t.OnTop r) : t.Rooted where
  onTop := h
  counts r hr := (h r hr).countsFrom hs hr
  stamped := hs.stamp_eq h

/-! ## What an edit does to the root -/

theorem unlink_of_free (h : (t.node c).parent = none) : t.unlink c = t := by
  rw [unlink, h]

theorem root_unlink (h : t.root ≠ some c) : (t.unlink c).root = t.root := by
  unfold unlink
  split
  · rfl
  · dsimp only
    split
    · rename_i hc
      exact absurd hc h
    · rfl

theorem root_settleUnder (t : Tree) (p c : NodeId) : (t.settleUnder p c).root = t.root :=
  root_stampBelow ..

theorem root_hangLast (t : Tree) (p c : NodeId) : (t.hangLast p c).root = (t.unlink c).root :=
  root_settleUnder ..

theorem root_hangNamed (t : Tree) (p : NodeId) (name : String) (c : NodeId) :
    (t.hangNamed p name c).root = (t.unlink c).root := by
  unfold hangNamed
  dsimp only
  rw [root_settleUnder]
  split <;> rfl

/-- A node that becomes the root lies on top. -/
theorem onTop_setRoot (hs : t.Sound) (hc : c < t.size) : (t.setRoot c).OnTop c := by
  obtain ⟨-, -, hsize, hnode⟩ := setRoot_spec hs hc
  refine ⟨hsize.symm ▸ hc, (congrArg Node.parent (hnode c)).trans (if_pos rfl), ?_⟩
  exact (congrArg Node.depth (hnode c)).trans rebased_count_self

/-- What lies on top is no part of another node that moves. -/
theorem OnTop.rebased (h : t.OnTop r) (hrc : r ≠ c) (base : UInt32) :
    t.rebased t.depth c base r = 0 := by
  rw [rebased_of_not_within fun hw => hrc (hw.eq_of_parent_none h.free), h.zero]

theorem OnTop.hangLast (h : t.OnTop r) (hs : t.Sound) (hc : c < t.size) (hp : p < t.size)
    (hok : t.refusalAs? .children p c = none) (hrc : r ≠ c) : (t.hangLast p c).OnTop r := by
  have hnode := (hangLast_spec hs hc hp hok).2 r
  refine ⟨by rw [size_hangLast]; exact h.stored, ?_, ?_⟩
  · rw [hnode]
    simpa [hrc] using h.free
  · rw [depth, hnode]
    exact h.rebased hrc _

theorem OnTop.hangNamed (h : t.OnTop r) (hs : t.Sound) (hc : c < t.size) (hp : p < t.size)
    (hok : t.refusalAs? .named p c = none) (hrc : r ≠ c) : (t.hangNamed p name c).OnTop r := by
  have hnode : (t.hangNamed p name c).node r = _ := (hangNamed_spec hs hc hp hok).2 r
  refine ⟨by rw [size_hangNamed]; exact h.stored, ?_, ?_⟩
  · rw [hnode]
    simp [hrc, h.free]
  · rw [depth, hnode]
    exact h.rebased hrc _

/-- Attaching nodes of which none is the root changes neither the root nor its place. -/
theorem OnTop.attachAll : ∀ {ids : List NodeId} {t : Tree}, t.Sound → p < t.size →
    (∀ c ∈ ids, c < t.size) → (∀ r, t.root = some r → t.OnTop r ∧ r ∉ ids) →
      ∀ r, (t.attachAll p ids).1.root = some r → (t.attachAll p ids).1.OnTop r
  | [], _, _, _, _, h => fun r hr => (h r hr).1
  | c :: ids, t, hs, hp, hids, h => by
    rw [Tree.attachAll]
    split
    · exact fun r hr => (h r hr).1
    · rename_i hok
      have hc := hids c (by simp)
      have hroot : (t.hangLast p c).root = t.root := by
        rw [root_hangLast, root_unlink fun hr => (h c hr).2 (by simp)]
      refine OnTop.attachAll (hangLast_spec hs hc hp hok).1 (by rwa [size_hangLast])
        (fun d hd => ?_) fun r hr => ?_
      · rw [size_hangLast]
        exact hids d (List.mem_cons_of_mem _ hd)
      · obtain ⟨htop, hout⟩ := h r (hroot ▸ hr)
        rw [List.mem_cons, not_or] at hout
        exact ⟨htop.hangLast hs hc hp hok hout.1, hout.2⟩

/-! ## Edits -/

/-- An edit that does not hang the root leaves the root, old or new, on top. -/
theorem OnTop.run (hs : t.Sound) (ha : e.Allowed t) (h : ∀ r, t.root = some r → t.OnTop r)
    (he : ¬ e.HangsRoot t) : ∀ r, (e.run t).1.root = some r → (e.run t).1.OnTop r := by
  have hrun := leaves_run t e
  generalize (e.run t).1 = u at hrun ⊢
  intro r hr
  cases hrun with
  | push n =>
    obtain ⟨hlt, hfree, hzero⟩ := h r hr
    have hnode : (t.push n).2.node r = t.node r := by
      rw [node_push, if_neg (Nat.ne_of_lt hlt)]
    refine ⟨(size_push t n).symm ▸ Nat.lt_succ_of_lt hlt, ?_, ?_⟩
    · exact (congrArg Node.parent hnode).trans hfree
    · exact (congrArg Node.depth hnode).trans hzero
  | refused | refusedNamed => exact h r hr
  | attach hok =>
    have hrc : t.root ≠ some _ := fun hr => he ⟨hr, hok⟩
    rw [root_hangLast, root_unlink hrc] at hr
    exact (h r hr).hangLast hs ha.2 ha.1 hok fun e => hrc (e ▸ hr)
  | attachNamed hok =>
    have hrc : t.root ≠ some _ := fun hr => he ⟨hr, hok⟩
    rw [root_hangNamed, root_unlink hrc] at hr
    exact (h r hr).hangNamed hs ha.2 ha.1 hok fun e => hrc (e ▸ hr)
  | moveChildren p q =>
    have hsub := children_subset t q
    refine OnTop.attachAll hs ha.1 (fun c hc => hs.child_lt_size (hsub hc)) (fun r hr => ?_) r hr
    -- a node that is moved has a parent, and the root has none
    refine ⟨h r hr, fun hm => ?_⟩
    have hparent := (hs.linked q r).1 (hsub hm)
    rw [(h r hr).free] at hparent
    cases hparent
  | setRoot c =>
    obtain ⟨-, hroot, -, -⟩ := setRoot_spec hs ha
    obtain rfl := Option.some.inj (hroot.symm.trans hr)
    exact onTop_setRoot hs ha
  | setRole c role =>
    obtain ⟨hlt, hfree, hzero⟩ := h r hr
    obtain ⟨hsame, hdepth⟩ :
        SameLinks t (t.setRole c role) ∧ ∀ x, (t.setRole c role).depth x = t.depth x :=
      (relabels_role role).sameLinks
    exact ⟨(size_modify ..).symm ▸ hlt, (hsame.parent r).trans hfree, (hdepth r).trans hzero⟩
  | clearRanges =>
    obtain ⟨hlt, hfree, hzero⟩ := h r hr
    have hnode := node_clearRanges t r
    refine ⟨?_, (congrArg Node.parent hnode).trans hfree, (congrArg Node.depth hnode).trans hzero⟩
    simpa [Tree.clearRanges, size] using hlt

/-- A root on top that is hung below another node stays the root. -/
theorem root_of_hangsRoot (hs : t.Sound) (ha : e.Allowed t) (h : ∀ r, t.root = some r → t.OnTop r)
    (he : e.HangsRoot t) : ∃ r p, (e.run t).1.root = some r ∧
      ((e.run t).1.node r).parent = some p := by
  cases e with
  | attach p c =>
    obtain ⟨hroot, hok⟩ := he
    have hnode := (hangLast_spec hs ha.2 ha.1 hok).2 c
    simp only [Edit.run, attach, hok]
    refine ⟨c, p, ?_, ?_⟩
    · rw [root_hangLast, unlink_of_free (h c hroot).free, hroot]
    · rw [hnode]
      simp
  | attachNamed p name c =>
    obtain ⟨hroot, hok⟩ := he
    have hnode : (t.hangNamed p name c).node c = _ := (hangNamed_spec hs ha.2 ha.1 hok).2 c
    simp only [Edit.run, attachNamed, hok]
    refine ⟨c, p, ?_, ?_⟩
    · rw [root_hangNamed, unlink_of_free (h c hroot).free, hroot]
    · rw [hnode]
      simp
  | push _ | moveChildren _ _ | setRoot _ | setRole _ _ | clearRanges => exact he.elim

/-- Starting from a root on top, every tree along the edits has its root on top exactly if no edit
hangs what is the root then. -/
theorem rooted_runAll_iff : ∀ {edits : List Edit} {t : Tree}, t.Sound →
    (∀ r, t.root = some r → t.OnTop r) → Edit.AllAllowed t edits →
      ((∀ k, (t.runAll (edits.take k)).Rooted) ↔ Edit.SparesRoot t edits)
  | [], t, hs, h, _ => by
    simpa [Edit.SparesRoot, runAll] using hs.rooted h
  | e :: es, t, hs, h, ha => by
    have hstep : ∀ k, t.runAll ((e :: es).take (k + 1)) = (e.run t).1.runAll (es.take k) :=
      fun k => rfl
    by_cases he : e.HangsRoot t
    · obtain ⟨r, p, hroot, hparent⟩ := root_of_hangsRoot hs ha.1 h he
      refine ⟨fun hall => ?_, fun hspare => absurd he hspare.1⟩
      have hone : (e.run t).1.Rooted := by simpa [runAll] using hall 1
      have hfree := (hone.onTop r hroot).free
      rw [hparent] at hfree
      cases hfree
    · have ih := rooted_runAll_iff (hs.run ha.1) (OnTop.run hs ha.1 h he) ha.2
      refine ⟨fun hall => ⟨he, ih.1 fun k => hstep k ▸ hall (k + 1)⟩, fun hspare k => ?_⟩
      cases k with
      | zero => exact hs.rooted h
      | succ k => exact (hstep k).symm ▸ ih.2 hspare.2 k

/-- Of the trees along any edits of the empty one, each has its root on top, with depths that count
from there, exactly if no edit hangs what is the root then below another node. -/
theorem rooted_iff_sparesRoot {edits : List Edit} (ha : Edit.AllAllowed .empty edits) :
    (∀ k, (Tree.empty.runAll (edits.take k)).Rooted) ↔ Edit.SparesRoot .empty edits :=
  rooted_runAll_iff sound_empty (fun _ hr => by cases hr) ha

/-- A root that holds a child, refuses to hang below it, gives way to it and is moved on from
there. -/
def keptRoot : List Edit :=
  [.push (.ofKind .root), .push (.ofKind .block), .push (.ofKind .statement), .attach 0 1,
   .setRoot 0, .attach 1 0, .setRoot 1, .attach 1 0, .moveChildren 2 1]

theorem rooted_keptRoot : Edit.AllAllowed .empty keptRoot ∧
    ∀ k, (Tree.empty.runAll (keptRoot.take k)).Rooted :=
  have ha : Edit.AllAllowed .empty keptRoot := by decide +kernel
  ⟨ha, (rooted_iff_sparesRoot ha).2 (by decide +kernel)⟩

/-- A root that is hung below another node. -/
def hungRoot : List Edit :=
  [.push (.ofKind .root), .push (.ofKind .block), .setRoot 0, .attach 1 0]

theorem hungRoot_breaks : ∃ t : Tree, Reached t ∧ t.root = some 0 ∧
    (t.node 0).parent = some 1 ∧ t.depth 0 = 1 ∧ t.stamp ≠ t :=
  ⟨Tree.empty.runAll hungRoot, Reached.start.runAll (by decide +kernel), by decide +kernel,
    by decide +kernel, by decide +kernel, by decide +kernel⟩

end Tree
end RouteScript
