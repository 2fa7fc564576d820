import RouteScript.Proofs.Tree.Moved
/-!
# Refused edits

An edit that is refused leaves the tree as it was, since reasons to refuse are looked for before
anything changes. The move of several children is the exception: it looks at them one by one, and
if the target lies within one of them that is not the first, those before it have been moved by the
time the move is refused (`unchanged_iff_not_stopsHalfway`).
-/
namespace RouteScript

namespace Edit

/-- Of these nodes the first is accepted by the target, and a later one has the target in it. -/
def StopsAmong (t : Tree) (target : NodeId) : List NodeId → Prop
  | [] => False
  | first :: rest =>
    t.refusalAs? .children target first = none ∧ ∃ c ∈ rest, t.isWithin c target = true

instance (t : Tree) (target : NodeId) : ∀ ids, Decidable (StopsAmong t target ids)
  | [] => inferInstanceAs (Decidable False)
  | _ :: _ => inferInstanceAs (Decidable (_ ∧ _))

/-- The edit moves a child and then comes to one that has the target in it. -/
def StopsHalfway (t : Tree) : Edit → Prop
  | .moveChildren target source => StopsAmong t target (t.children source)
  | _ => False

instance (t : Tree) : ∀ e : Edit, Decidable (e.StopsHalfway t)
  | .moveChildren target source =>
    inferInstanceAs (Decidable (StopsAmong t target (t.children source)))
  | .push _ | .attach _ _ | .attachNamed _ _ _ | .setRoot _ | .setRole _ _ | .clearRanges =>
    inferInstanceAs (Decidable False)

end Edit

namespace Tree

variable {t u : Tree} {e : Edit} {p q : NodeId} {err : TreeError}

/-- A move that is refused changes the tree exactly if it stops half way. -/
theorem moveChildren_eq_self_iff (hs : t.Sound) (hp : p < t.size)
    (h : t.moveChildren p q = (u, some err)) :
    u = t ↔ ¬ (Edit.moveChildren p q).StopsHalfway t := by
  obtain ⟨done, d, rest, hchildren, hdone, hrefused⟩ := attachAll_eq_error h
  have hparent : ∀ c ∈ done ++ d :: rest, (t.node c).parent = some q := fun c hc =>
    parent_of_mem_children hs (hchildren ▸ hc)
  cases done with
  | nil =>
    -- the first child is refused
    cases hdone
    have hnone : t.refusalAs? .children p d ≠ none := by rw [hrefused]; simp
    simp [Edit.StopsHalfway, Edit.StopsAmong, hchildren, hnone]
  | cons c done =>
    have hnodup : (c :: done).Nodup := by
      have := nodup_children hs q
      rw [hchildren] at this
      exact this.of_append_left
    have hsound : u.Sound := by
      have hall : (t.attachAll p (c :: done)).1.Sound := hs.attachAll hp fun x hx =>
        lt_size_of_parent (hparent x (List.mem_append_left _ hx))
      rwa [hdone] at hall
    obtain ⟨hmoves, hout, -, hshape⟩ := moves_attachAll hs hp hnodup
      (fun x hx => hparent x (List.mem_append_left _ hx)) hdone
    have hd := hparent d (by simp)
    have hwithin : t.Within d p := by
      by_contra hno
      rw [(refusalAs?_attachAll hs hsound hmoves (hshape (by simp)) hout hd).2 hno] at hrefused
      cases hrefused
    have hfirst : t.refusalAs? .children p c = none := by
      rw [attachAll] at hdone
      split at hdone
      · cases hdone
      · assumption
    refine iff_of_false (fun e => ?_) (not_not_intro ?_)
    · -- the first child hangs below the target, which lies deeper than the source
      have hmoved : (u.node c).parent = some p := by rw [hmoves.parent]; simp
      rw [e, hparent c (by simp)] at hmoved
      have hle := (hwithin.level_le hs.links).1
      have hrise := hs.rises d q hd
      rw [Option.some.inj hmoved] at hrise
      omega
    · rw [Edit.StopsHalfway, hchildren]
      exact ⟨hfirst, d, by simp, (isWithin_iff hs.links).2 hwithin⟩

/-- An edit that is refused leaves the tree as it was exactly if it does not stop half way: if it is
not a move that comes to a child with the target in it after it has moved another. -/
theorem unchanged_iff_not_stopsHalfway (h : Reached t) (ha : e.Allowed t)
    (herr : (e.run t).2 = some err) : (e.run t).1 = t ↔ ¬ e.StopsHalfway t := by
  cases e with
  | attach p c =>
    refine iff_of_true ?_ id
    simp only [Edit.run] at herr ⊢
    cases hu : t.attach p c with
    | ok u => rw [hu] at herr; cases herr
    | error e => rfl
  | attachNamed p name c =>
    refine iff_of_true ?_ id
    simp only [Edit.run] at herr ⊢
    cases hu : t.attachNamed p name c with
    | ok u => rw [hu] at herr; cases herr
    | error e => rfl
  | moveChildren p q => exact moveChildren_eq_self_iff h.sound ha.1 (Prod.ext rfl herr)
  | push _ | setRoot _ | setRole _ _ | clearRanges => cases herr

/-- A root that holds a block and a statement. -/
def pairEdits : List Edit :=
  [.push (.ofKind .root), .push (.ofKind .block), .push (.ofKind .statement), .attach 0 1,
   .attach 0 2]

theorem unchanged_refused_pair : ∃ t : Tree, Reached t ∧ t.children 0 = [1, 2] ∧
    t.moveChildren 1 0 = (t, some .cycle) := by
  have h : Reached (Tree.empty.runAll pairEdits) := Reached.start.runAll (by decide +kernel)
  have herr : ((Edit.moveChildren 1 0).run (Tree.empty.runAll pairEdits)).2 = some .cycle := by
    decide +kernel
  have hsame := (unchanged_iff_not_stopsHalfway h (by decide +kernel) herr).2 (by decide +kernel)
  exact ⟨_, h, by decide +kernel, Prod.ext hsame herr⟩

/-- Moved to the second of them, the first child hangs elsewhere when the second is refused. -/
theorem changed_refused_pair : ∃ t : Tree, Reached t ∧ t.children 0 = [1, 2] ∧
    (t.moveChildren 2 0).2 = some .cycle ∧ (t.moveChildren 2 0).1.children 0 = [2] ∧
    (t.moveChildren 2 0).1 ≠ t :=
  ⟨Tree.empty.runAll pairEdits, Reached.start.runAll (by decide +kernel), by decide +kernel,
    by decide +kernel, by decide +kernel, by decide +kernel⟩

end Tree
end RouteScript
