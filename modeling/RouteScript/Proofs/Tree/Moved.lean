import RouteScript.Proofs.Tree.Rooted
/-!
# What an edit moves

An edit that hangs nodes below another moves these with all that is within them, and nothing else
(`Moves`). Moving the children of a node is moving them one by one: a child that has been moved is
no longer part of what the next one holds, so each is judged as if it were the first, and the whole
move does what its steps do (`Moves.cons`).
-/
namespace RouteScript

namespace Payload

variable {c : NodeId} {ids : List NodeId} {p : Payload}

/-- The payload without several children. The shape stays, even when no child is left. -/
def without (ids : List NodeId) : Payload → Payload
  | .children l => .children (l.filter (· ∉ ids))
  | .named m => .named (m.filter (· ∉ ids))
  | p => p

theorem without_singleton (c : NodeId) (p : Payload) : p.without [c] = p.erase c := by
  cases p <;> simp [without, erase]

theorem without_cons (c : NodeId) (ids : List NodeId) (p : Payload) :
    p.without (c :: ids) = (p.without [c]).without ids := by
  cases p with
  | children l => simp [without, List.filter_filter, Bool.and_comm]
  | named m =>
    simp only [without, named.injEq]
    refine NameMap.ext ?_
    simp [List.filter_filter, Bool.and_comm]
  | _ => rfl

theorem without_eq_self (h : ∀ c ∈ ids, c ∉ p.ids) : p.without ids = p := by
  induction ids with
  | nil => cases p <;> simp [without, NameMap.filter]
  | cons c ids ih =>
    obtain ⟨hc, hids⟩ := List.forall_mem_cons.1 h
    rw [without_cons, without_singleton, erase_eq_self hc, ih hids]

theorem names_erase (c : NodeId) (p : Payload) :
    (p.erase c).names = p.names.filter (· ≠ c) := by
  cases p <;> rfl

theorem ordered_erase (c : NodeId) (p : Payload) :
    (p.erase c).ordered = p.ordered.filter (· ≠ c) := by
  cases p <;> rfl

end Payload

namespace Tree

variable {t u v : Tree} {c d g p x : NodeId} {name : String} {ids : List NodeId}
  {freed : Option NodeId}

/-- The tree `u` is `t` with the nodes `moved` hung below `p`, and with `freed`, if there is one,
hanging nowhere. What is within a moved node lies as far below it as before; a node that held some
of them holds the others in their order; and a root that is taken from a parent is the root no
longer. Of what `p` holds then nothing is said here. -/
structure Moves (t u : Tree) (p : NodeId) (moved : List NodeId) (freed : Option NodeId) :
    Prop where
  size : u.size = t.size
  label : ∀ x, (u.node x).label = (t.node x).label
  parent : ∀ x, (u.node x).parent =
    if x ∈ moved then some p else if freed = some x then none else (t.node x).parent
  inside : ∀ c ∈ moved, ∀ x, t.Within c x → u.depth x = t.depth p + 1 + (t.depth x - t.depth c)
  outside : ∀ x, (∀ c ∈ moved, ¬ t.Within c x) → u.depth x = t.depth x
  payload : ∀ x, x ≠ p → (u.node x).payload =
    if ∃ c ∈ moved, (t.node c).parent = some x then (t.node x).payload.without moved
    else (t.node x).payload
  root : ∀ r, u.root = some r ↔ t.root = some r ∧ (r ∈ moved → (t.node r).parent = none)

/-- A payload that holds none of the moved nodes is the same without them. -/
theorem payload_without (hs : t.Sound) (moved : List NodeId) (x : NodeId) :
    (if ∃ c ∈ moved, (t.node c).parent = some x then (t.node x).payload.without moved
      else (t.node x).payload) = (t.node x).payload.without moved := by
  split
  · rfl
  · rename_i h
    exact (Payload.without_eq_self fun c hc hm => h ⟨c, hc, (hs.linked x c).1 hm⟩).symm

theorem Moves.refl (t : Tree) (p : NodeId) : Moves t t p [] none where
  size := rfl
  label _ := rfl
  parent x := by simp
  inside := by simp
  outside _ _ := rfl
  payload x _ := by simp
  root r := by simp

/-! ## One node -/

/-- The root is lost if it is taken from a parent. -/
theorem root_unlink_eq_some {r : NodeId} : (t.unlink c).root = some r ↔
    t.root = some r ∧ (r = c → (t.node r).parent = none) := by
  cases hp : (t.node c).parent with
  | none =>
    rw [unlink_of_free hp]
    exact ⟨fun h => ⟨h, fun e => e ▸ hp⟩, fun h => h.1⟩
  | some p =>
    by_cases hr : t.root = some c
    · have hgone : (t.unlink c).root = none := by simp [unlink, hp, hr, modify]
      rw [hgone, hr]
      simp only [reduceCtorEq, Option.some.injEq, false_iff, not_and]
      rintro rfl h
      rw [h rfl] at hp
      cases hp
    · rw [root_unlink hr]
      exact ⟨fun h => ⟨h, fun e => absurd (e ▸ h) hr⟩, fun h => h.1⟩

/-- An edit that changes nodes as hanging one node does moves that node. -/
theorem moves_of_node (hs : t.Sound) (hsize : u.size = t.size) (hroot : u.root = (t.unlink c).root)
    (hpayload : ∀ x, x ≠ p → (u.node x).payload = (t.node x).payload.erase c)
    (hnode : ∀ x, u.node x = { t.node x with
      payload := (u.node x).payload
      parent := if x = c then some p else if freed = some x then none else (t.node x).parent
      depth := t.rebased t.depth c (t.depth p + 1) x }) : Moves t u p [c] freed where
  size := hsize
  label x := by rw [hnode]; rfl
  parent x := by rw [hnode]; simp
  inside d hd x hx := by
    obtain rfl := List.mem_singleton.1 hd
    rw [depth, hnode]
    exact rebased_of_within hx
  outside x hx := by
    rw [depth, hnode]
    exact rebased_of_not_within (hx c (by simp))
  payload x hx := by rw [payload_without hs, Payload.without_singleton, hpayload x hx]
  root r := by rw [hroot, root_unlink_eq_some, List.mem_singleton]

theorem moves_hangLast (hs : t.Sound) (hc : c < t.size) (hp : p < t.size)
    (hok : t.refusalAs? .children p c = none) :
    Moves t (t.hangLast p c) p [c] none ∧ ((t.hangLast p c).node p).payload =
      .children ((t.children p).filter (· ≠ c) ++ [c]) := by
  obtain ⟨-, hnode⟩ := hangLast_spec hs hc hp hok
  refine ⟨moves_of_node hs (size_hangLast ..) (root_hangLast ..) (fun x hx => ?_) fun x => ?_, ?_⟩
  · simp [hnode, hx]
  · simp [hnode]
  · rw [hnode, Payload.ordered_erase]
    simp [children]

theorem moves_hangNamed (hs : t.Sound) (hc : c < t.size) (hp : p < t.size)
    (hok : t.refusalAs? .named p c = none) (name : String) :
    let names := (t.node p).payload.names.filter (· ≠ c)
    Moves t (t.hangNamed p name c) p [c] (names.get? name) ∧
      ((t.hangNamed p name c).node p).payload = .named (names.insert name c) := by
  intro names
  have hnode : ∀ x, (t.hangNamed p name c).node x = _ := (hangNamed_spec hs hc hp hok).2
  simp only [Payload.names_erase] at hnode
  refine ⟨moves_of_node hs (size_hangNamed ..) (root_hangNamed ..) (fun x hx => ?_) fun x => ?_, ?_⟩
  · simp [hnode, hx]
  · simp [hnode, names]
  · rw [hnode]
    simp [names]

/-! ## Several nodes -/

/-- Outside of the moved nodes, all nodes hang as before. -/
theorem Moves.within_iff (h : Moves t u p ids none) (hx : ∀ c ∈ ids, ¬ t.Within c x) :
    u.Within d x ↔ t.Within d x := by
  have hparent : ∀ {y}, (∀ c ∈ ids, ¬ t.Within c y) → (u.node y).parent = (t.node y).parent := by
    intro y hy
    rw [h.parent, if_neg fun hm => hy y hm .here]
    simp
  have hup : ∀ {y z}, (∀ c ∈ ids, ¬ t.Within c y) → (t.node y).parent = some z →
      ∀ c ∈ ids, ¬ t.Within c z := fun hy hz c hc hw => hy c hc (.under hz hw)
  constructor
  · intro h
    induction h with
    | here => exact .here
    | @under y z hz _ ih =>
      rw [hparent hx] at hz
      exact .under hz (ih (hup hx hz))
  · intro h
    induction h with
    | here => exact .here
    | @under y z hz _ ih => exact .under ((hparent hx).trans hz) (ih (hup hx hz))

theorem Moves.parent_eq (h : Moves t v p [c] none) {y : NodeId} (hy : y ≠ c) :
    (v.node y).parent = (t.node y).parent := by
  rw [h.parent]
  simp [hy]

/-- What is within a moved node is within no other child of its former parent, nor does it come
to be when the new parent is not. -/
theorem Moves.not_within_sibling (h : Moves t v p [c] none) (hs : t.Sound)
    (hcg : (t.node c).parent = some g) (hdg : (t.node d).parent = some g) (hne : d ≠ c)
    (hcp : ¬ t.Within c p) (hdp : ¬ t.Within d p) (hx : t.Within c x) : ¬ v.Within d x := by
  intro hd
  induction hd with
  | here =>
    exact hne (hx.eq_of_siblings hs.links ((hs.linked g c).2 hcg) ((hs.linked g d).2 hdg)).symm
  | @under y z hz hw ih =>
    by_cases hyc : y = c
    · -- the way up from the moved node goes through its new parent
      have hzp : p = z := by simpa [h.parent, hyc] using hz
      subst hzp
      exact hdp ((h.within_iff (by simpa using hcp)).1 hw)
    · rw [h.parent_eq hyc] at hz
      cases hx with
      | here => exact hyc rfl
      | under hz' hx =>
        obtain rfl := Option.some.inj (hz.symm.trans hz')
        exact ih hx

/-- Moving a node and then others that hung beside it. -/
theorem Moves.cons (h : Moves t v p [c] none) (k : Moves v u p ids none) (hs : t.Sound)
    (hv : v.Sound) (hc : c ∉ ids) (hg : ∀ d ∈ c :: ids, (t.node d).parent = some g)
    (hp : ∀ d ∈ c :: ids, ¬ t.Within d p) : Moves t u p (c :: ids) none := by
  have hcg := hg c (by simp)
  have hcp := hp c (by simp)
  have hne : ∀ d ∈ ids, d ≠ c := fun d hd e => hc (e ▸ hd)
  have hdg : ∀ d ∈ ids, (t.node d).parent = some g := fun d hd => hg d (by simp [hd])
  have hdp : ∀ d ∈ ids, ¬ t.Within d p := fun d hd => hp d (by simp [hd])
  have hparent : ∀ d ∈ ids, (v.node d).parent = some g := fun d hd => by
    rw [h.parent_eq (hne d hd), hdg d hd]
  have hwithin : ∀ {d x}, ¬ t.Within c x → (v.Within d x ↔ t.Within d x) := fun hx =>
    h.within_iff (by simpa using hx)
  have hdepth : ∀ {x}, ¬ t.Within c x → v.depth x = t.depth x := fun hx =>
    h.outside _ (by simpa using hx)
  -- what is within a sibling of the moved node is not within that
  have hapart : ∀ d ∈ ids, ∀ x, t.Within d x → ¬ t.Within c x := by
    intro d hd x hx hcx
    refine hne d hd (hx.eq_of_level hs.links hcx ?_)
    rw [hs.rises d g (hdg d hd), hs.rises c g hcg]
  refine ⟨k.size.trans h.size, fun x => (k.label x).trans (h.label x), fun x => ?_, ?_,
    fun x hx => ?_, fun x hx => ?_, fun r => ?_⟩
  · rw [k.parent, h.parent]
    by_cases hxc : x = c <;> by_cases hx : x ∈ ids <;> simp [hxc, hx, hc]
  · refine List.forall_mem_cons.2 ⟨fun x hx => ?_, fun d hd x hx => ?_⟩
    · rw [k.outside x fun d hd =>
        h.not_within_sibling hs hcg (hdg d hd) (hne d hd) hcp (hdp d hd) hx]
      exact h.inside c (by simp) x hx
    · have hout := hapart d hd x hx
      rw [k.inside d hd x ((hwithin hout).2 hx), hdepth hcp, hdepth hout,
        hdepth (hapart d hd d .here)]
  · obtain ⟨hxc, hxids⟩ := List.forall_mem_cons.1 hx
    rw [k.outside x fun d hd => mt (hwithin hxc).1 (hxids d hd), hdepth hxc]
  · have hstep := h.payload x hx
    have hrest := k.payload x hx
    rw [payload_without hs] at hstep
    rw [payload_without hv] at hrest
    rw [payload_without hs, hrest, hstep, ← Payload.without_cons]
  · rw [k.root, h.root, List.mem_singleton, List.mem_cons, and_assoc]
    refine and_congr_right fun _ => ⟨fun ⟨hrc, hr⟩ hmem => ?_, fun hfree => ⟨?_, ?_⟩⟩
    · rcases hmem with hmem | hmem
      · exact hrc hmem
      · rw [← h.parent_eq (hne r hmem)]
        exact hr hmem
    · exact fun e => hfree (.inl e)
    · intro hmem
      rw [h.parent_eq (hne r hmem)]
      exact hfree (.inr hmem)

/-! ## The children of a node -/

/-- Once a node is hung, one that hung beside it is refused exactly if it holds the new parent. -/
theorem refusalAs?_attachAll (hs : t.Sound) (hu : u.Sound) (h : Moves t u p ids none)
    (hshape : (u.node p).payload.shape = .children) (hp : ∀ c ∈ ids, ¬ t.Within c p)
    (hd : (t.node d).parent = some g) :
    u.refusalAs? .children p d = none ↔ ¬ t.Within d p := by
  have hsolid : u.kind d ≠ .empty := by
    have hkind : u.kind d = t.kind d := congrArg Label.kind (h.label d)
    rw [hkind]
    exact hs.solid g d ((hs.linked g d).2 hd)
  rw [refusalAs?_eq_none hu.links, h.within_iff hp]
  simp [hshape, hsolid]

/-- Moving nodes that hang side by side, if none is refused. -/
theorem moves_attachAll : ∀ {ids : List NodeId} {t : Tree}, t.Sound → p < t.size → ids.Nodup →
    (∀ d ∈ ids, (t.node d).parent = some g) → t.attachAll p ids = (u, none) →
      Moves t u p ids none ∧ (∀ d ∈ ids, ¬ t.Within d p) ∧
        u.children p = (t.children p).filter (· ∉ ids) ++ ids ∧
        (ids ≠ [] → (u.node p).payload.shape = .children)
  | [], _, _, _, _, _, h => by
    cases h
    exact ⟨.refl _ p, by simp, by simp, by simp⟩
  | c :: ids, t, hs, hp, hnd, hg, h => by
    obtain ⟨hc, hnd⟩ := List.nodup_cons.1 hnd
    have hlt := lt_size_of_parent (hg c (by simp))
    have hne : ∀ d ∈ ids, d ≠ c := fun d hd e => hc (e ▸ hd)
    rw [attachAll] at h
    cases hok : t.refusalAs? .children p c with
    | some e => rw [hok] at h; cases h
    | none =>
      rw [hok] at h
      obtain ⟨hmoves, hpayload⟩ := moves_hangLast hs hlt hp hok
      have hsound := (hangLast_spec hs hlt hp hok).1
      have hcp := ((refusalAs?_eq_none hs.links).1 hok).2.2
      obtain ⟨hrest, hout, hchildren, hshape⟩ := moves_attachAll hsound
        (by rwa [size_hangLast]) hnd
        (fun d hd => by rw [hmoves.parent_eq (hne d hd)]; exact hg d (by simp [hd])) h
      have hall : ∀ d ∈ c :: ids, ¬ t.Within d p := List.forall_mem_cons.2
        ⟨hcp, fun d hd => mt (hmoves.within_iff (by simpa using hcp)).2 (hout d hd)⟩
      refine ⟨hmoves.cons hrest hs hsound hc hg hall, hall, ?_, fun _ => ?_⟩
      · rw [hchildren, children, hpayload]
        simp [Payload.ordered, List.filter_filter, List.filter_append, hc, Bool.and_comm]
      · cases ids with
        | nil =>
          cases h
          rw [hpayload]
          rfl
        | cons d ids => exact hshape (by simp)

/-- Nodes are attached up to the first that is refused. -/
theorem attachAll_eq_error {e : TreeError} : ∀ {ids : List NodeId} {t : Tree},
    t.attachAll p ids = (u, some e) → ∃ done d rest, ids = done ++ d :: rest ∧
      t.attachAll p done = (u, none) ∧ u.refusalAs? .children p d = some e
  | [], t, h => by cases h
  | c :: ids, t, h => by
    rw [attachAll] at h
    cases hok : t.refusalAs? .children p c with
    | some e' =>
      rw [hok] at h
      cases h
      exact ⟨[], c, ids, rfl, rfl, hok⟩
    | none =>
      rw [hok] at h
      obtain ⟨done, d, rest, rfl, hdone, hrefused⟩ := attachAll_eq_error h
      exact ⟨c :: done, d, rest, rfl, by rw [attachAll, hok]; exact hdone, hrefused⟩

/-- A payload with an ordered child is a list of children. -/
theorem payload_eq_children (h : t.children x ≠ []) :
    (t.node x).payload = .children (t.children x) := by
  unfold children at h ⊢
  cases hp : (t.node x).payload <;> simp_all [Payload.ordered]

/-- Moving the children of a node, when none of them is refused. -/
theorem moves_moveChildren (hs : t.Sound) (hp : p < t.size)
    (h : t.moveChildren p g = (u, none)) :
    Moves t u p (t.children g) none ∧ (t.children g = [] → u = t) ∧
      (p = g → (u.node p).payload = (t.node p).payload) ∧
      (p ≠ g → u.children p = t.children p ++ t.children g ∧ u.children g = []) := by
  obtain ⟨hmoves, -, hchildren, -⟩ := moves_attachAll hs hp (nodup_children hs g)
    (fun d hd => parent_of_mem_children hs hd) h
  have hnone : t.children g = [] → u = t := by
    intro hnil
    rw [moveChildren, hnil] at h
    cases h
    rfl
  refine ⟨hmoves, hnone, fun hpg => ?_, fun hpg => ⟨?_, ?_⟩⟩
  · subst hpg
    by_cases hnil : t.children p = []
    · rw [hnone hnil]
    · have hsame : u.children p = t.children p := by
        rwa [List.filter_eq_nil_iff.2 fun d hd => by simpa using hd, List.nil_append] at hchildren
      rw [payload_eq_children (hsame ▸ hnil), hsame, payload_eq_children hnil]
  · have hkeep : (t.children p).filter (· ∉ t.children g) = t.children p := by
      refine List.filter_eq_self.2 fun d hd => decide_eq_true fun hdg => hpg ?_
      exact hs.parent_unique (children_subset t p hd) (children_subset t g hdg)
    rw [hchildren, hkeep]
  · rw [children, hmoves.payload g (Ne.symm hpg), payload_without hs]
    cases hpay : (t.node g).payload <;>
      simp [Payload.without, Payload.ordered, children, hpay]

/-- What an accepted edit does. An attached node goes from where it hung to the end of the children
of its new parent, or under its name there, where a child that had the name hangs nowhere then.
Children that are moved go to the end of the others in their order; moved to their own parent, they
stay as they are. Beyond that nothing changes but what `Moves` says. -/
theorem accepted_edit_effects (h : Reached t) (hp : p < t.size) (hc : c < t.size) :
    (∀ u, t.attach p c = .ok u → Moves t u p [c] none ∧
      (u.node p).payload = .children ((t.children p).filter (· ≠ c) ++ [c])) ∧
    (∀ name u, t.attachNamed p name c = .ok u →
      let former := fun s => ((t.node p).payload.names.get? s).filter (· ≠ c)
      Moves t u p [c] (former name) ∧ ∃ names, (u.node p).payload = .named names ∧
        ∀ s, names.get? s = if s = name then some c else former s) ∧
    ∀ u, t.moveChildren p c = (u, none) → Moves t u p (t.children c) none ∧
      (t.children c = [] → u = t) ∧
      (p = c → (u.node p).payload = (t.node p).payload) ∧
      (p ≠ c → u.children p = t.children p ++ t.children c ∧ u.children c = []) := by
  have hs := h.sound
  refine ⟨fun u hu => ?_, fun name u hu => ?_, fun u hu => moves_moveChildren hs hp hu⟩
  · rw [attach] at hu
    cases hok : t.refusalAs? .children p c with
    | some e => rw [hok] at hu; cases hu
    | none =>
      rw [hok] at hu
      cases hu
      exact moves_hangLast hs hc hp hok
  · rw [attachNamed] at hu
    cases hok : t.refusalAs? .named p c with
    | some e => rw [hok] at hu; cases hu
    | none =>
      rw [hok] at hu
      cases hu
      obtain ⟨hmoves, hpayload⟩ := moves_hangNamed hs hc hp hok name
      rw [NameMap.get?_filter] at hmoves
      refine ⟨hmoves, _, hpayload, fun s => ?_⟩
      rw [NameMap.get?_insert, NameMap.get?_filter]

/-- A node with three leaves, and one that holds another under a name. -/
def crowdedEdits : List Edit :=
  [.push (.ofKind .root), .push (.ofKind .block), .push (.ofKind .assignment),
   .push (.leaf .identifier (.text "x")), .push (.leaf .identifier (.text "y")),
   .push (.leaf .identifier (.text "z")), .attach 0 3, .attach 0 4, .attach 0 5,
   .attachNamed 2 "left" 1, .setRoot 4]

theorem accepted_edit_effects_crowded : ∃ t u v w : Tree, Reached t ∧
    t.attach 1 5 = .ok u ∧ (u.node 1).payload = .children [5] ∧
    t.attachNamed 2 "left" 5 = .ok v ∧ (v.node 1).parent = none ∧ (v.node 5).parent = some 2 ∧
    t.moveChildren 1 0 = (w, none) ∧ w.children 1 = [3, 5] ∧ w.children 0 = [] := by
  have h : Reached (Tree.empty.runAll crowdedEdits) := Reached.start.runAll (by decide +kernel)
  generalize htree : Tree.empty.runAll crowdedEdits = t at h
  have hone : t.attach 1 5 = .ok (t.hangLast 1 5) := by subst htree; decide +kernel
  have hnamed : t.attachNamed 2 "left" 5 = .ok (t.hangNamed 2 "left" 5) := by
    subst htree; decide +kernel
  have hall : t.moveChildren 1 0 = ((t.moveChildren 1 0).1, none) := by subst htree; decide +kernel
  have hsize : t.size = 6 := by subst htree; decide +kernel
  have stored : ∀ x : Nat, x < 6 → x < t.size := fun x hx => hsize ▸ hx
  have hnone : t.children 1 = [] := by subst htree; decide +kernel
  have hleaves : t.children 0 = [3, 5] := by subst htree; decide +kernel
  have hleft : ((t.node 2).payload.names.get? "left") = some 1 := by subst htree; decide +kernel
  have attached :=
    (accepted_edit_effects h (stored 1 (by decide)) (stored 5 (by decide))).1 _ hone
  have named :=
    ((accepted_edit_effects h (stored 2 (by decide)) (stored 5 (by decide))).2.1 _ _ hnamed).1
  have moved := ((accepted_edit_effects h (stored 1 (by decide)) (stored 0 (by decide))).2.2 _
    hall).2.2.2 (by decide)
  refine ⟨t, _, _, _, h, hone, ?_, hnamed, ?_, ?_, hall, ?_, moved.2⟩
  · simpa [hnone] using attached.2
  · simp [named.parent, hleft]
  · simp [named.parent]
  · rw [moved.1, hnone, hleaves, List.nil_append]

end Tree
end RouteScript
