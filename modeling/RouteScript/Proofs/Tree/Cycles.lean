import RouteScript.Proofs.Tree.Reached
import RouteScript.Proofs.Tree.Walk
/-!
# Cycles

A node is refused as a child of what lies within it. The test climbs from the new parent along
parents, while a cycle would run through payloads. Since both tell of one forest, the climb ends,
and it meets the child exactly if the walk down from the child meets the new parent.
-/
namespace RouteScript
namespace Tree

variable {t : Tree} {c p top id : NodeId} {answer : Bool} {shape : Shape}

/-! ## The climb -/

/-- Climbing from a node, one parent after the other and with no bound, comes upon `top` or ends
above it; the answer says which. -/
inductive Climbs (t : Tree) (top : NodeId) : NodeId → Bool → Prop
  | met : Climbs t top top true
  | ended {id : NodeId} : id ≠ top → (t.node id).parent = none → Climbs t top id false
  | up {id parent : NodeId} {answer : Bool} : id ≠ top → (t.node id).parent = some parent →
      Climbs t top parent answer → Climbs t top id answer

theorem within_iff_of_parent (hp : (t.node id).parent = some p) (hne : id ≠ top) :
    t.Within top id ↔ t.Within top p := by
  constructor
  · intro h
    cases h with
    | here => exact absurd rfl hne
    | under hq h => exact Option.some.inj (hq.symm.trans hp) ▸ h
  · exact .under hp

/-- The answer says whether the node is within `top`. -/
theorem Climbs.answer_iff (h : t.Climbs top id answer) : answer = true ↔ t.Within top id := by
  induction h with
  | met => exact iff_of_true rfl .here
  | ended hne hp => exact iff_of_false (by decide) fun h => hne (h.eq_of_parent_none hp)
  | up hne hp _ ih => exact ih.trans (within_iff_of_parent hp hne).symm

/-- Every climb ends, since fewer and fewer nodes lie above. -/
theorem exists_climbs (hs : t.Sound) (top id : NodeId) : ∃ answer, t.Climbs top id answer := by
  induction hn : t.rank id using Nat.strongRecOn generalizing id with
  | ind n ih =>
    by_cases hne : id = top
    · exact ⟨true, hne ▸ .met⟩
    cases hp : (t.node id).parent with
    | none => exact ⟨false, .ended hne hp⟩
    | some p =>
      have hrise := hs.rises id p hp
      obtain ⟨answer, h⟩ := ih (t.rank p) (by omega) p rfl
      exact ⟨answer, .up hne hp h⟩

/-- The climb ends with one answer, the one of the bounded walk. -/
theorem climbs_iff (hs : t.Sound) : t.Climbs top id answer ↔ t.isWithin top id = answer := by
  have hanswer : ∀ {b}, t.Climbs top id b → t.isWithin top id = b := fun h =>
    Bool.eq_iff_iff.2 ((isWithin_iff hs.links).trans h.answer_iff.symm)
  constructor
  · exact hanswer
  · intro h
    obtain ⟨b, hb⟩ := exists_climbs hs top id
    rwa [← h, hanswer hb]

/-! ## Refusals -/

/-- What a fitting parent refuses of the nodes that stand for something. -/
theorem refusalAs?_of_fits (hs : t.Sound) (hc : c < t.size)
    (hshape : (t.node p).payload.shape = .nothing ∨ (t.node p).payload.shape = shape)
    (hsolid : t.kind c ≠ .empty) :
    t.refusalAs? shape p c = if p ∈ t.subtree c then some .cycle else none := by
  have hfits : ¬ ((t.node p).payload.shape ≠ .nothing ∧ (t.node p).payload.shape ≠ shape) :=
    fun h => hshape.elim h.1 h.2
  have hempty : ¬ (t.node c).isEmpty = true := by simpa [Node.isEmpty] using hsolid
  have hwithin : t.isWithin c p = true ↔ p ∈ t.subtree c := by
    rw [isWithin_iff hs.links, subtree_eq_preorder hs hc, mem_preorder hs hc]
  rw [refusalAs?, if_neg hfits, refusal?, if_neg hempty]
  simp only [hwithin]

/-- In every tree that edits lead to, the climb from any node ends, with the answer of the test. A
node that stands for something is refused by a parent whose payload fits, for a cycle, exactly if
the walk of the node meets that parent; otherwise it is accepted. -/
theorem cycle_iff_mem_subtree (h : Reached t) :
    (∀ top id answer, t.Climbs top id answer ↔ t.isWithin top id = answer) ∧
    ∀ p c, c < t.size → t.kind c ≠ .empty →
      ((t.node p).payload.shape = .nothing ∨ (t.node p).payload.shape = .children →
        (t.attach p c = .error .cycle ↔ p ∈ t.subtree c) ∧
        ((∃ u, t.attach p c = .ok u) ↔ p ∉ t.subtree c)) ∧
      ((t.node p).payload.shape = .nothing ∨ (t.node p).payload.shape = .named → ∀ name,
        (t.attachNamed p name c = .error .cycle ↔ p ∈ t.subtree c) ∧
        ((∃ u, t.attachNamed p name c = .ok u) ↔ p ∉ t.subtree c)) := by
  have hs := h.sound
  refine ⟨fun top id answer => climbs_iff hs, fun p c hc hsolid => ⟨fun hshape => ?_, ?_⟩⟩
  · rw [attach, refusalAs?_of_fits hs hc hshape hsolid]
    by_cases hm : p ∈ t.subtree c <;> simp [hm]
  · intro hshape name
    rw [attachNamed, refusalAs?_of_fits hs hc hshape hsolid]
    by_cases hm : p ∈ t.subtree c <;> simp [hm]

theorem cycle_iff_mem_subtree_sample : ∃ t : Tree, Reached t ∧ t.Climbs 0 4 true ∧
    t.attach 2 0 = .error .cycle ∧ (∃ u, t.attach 0 3 = .ok u) ∧
    t.attachNamed 1 "right" 2 = .error .cycle ∧ ∃ u, t.attachNamed 1 "right" 3 = .ok u := by
  have h : Reached (Tree.empty.runAll sampleEdits) := Reached.start.runAll (by decide +kernel)
  obtain ⟨climbs, refuses⟩ := cycle_iff_mem_subtree h
  have ordered := fun p c hc hsolid => (refuses p c hc hsolid).1
  have named := fun p c hc hsolid => (refuses p c hc hsolid).2
  refine ⟨_, h, (climbs 0 4 true).2 (by decide +kernel), ?_, ?_, ?_, ?_⟩
  · exact (ordered 2 0 (by decide +kernel) (by decide +kernel) (by decide +kernel)).1.2
      (by decide +kernel)
  · exact (ordered 0 3 (by decide +kernel) (by decide +kernel) (by decide +kernel)).2.2
      (by decide +kernel)
  · exact (named 1 2 (by decide +kernel) (by decide +kernel) (by decide +kernel) "right").1.2
      (by decide +kernel)
  · exact (named 1 3 (by decide +kernel) (by decide +kernel) (by decide +kernel) "right").2.2
      (by decide +kernel)

end Tree
end RouteScript
