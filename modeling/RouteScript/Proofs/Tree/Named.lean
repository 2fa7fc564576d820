import Mathlib.Data.List.Nodup
import RouteScript.Proofs.Tree.Hang
/-!
# Hanging a node under a name

A child under a name takes the place of the one that had the name before, which hangs nowhere
after that (`hangNamed_spec`).
-/
namespace RouteScript

/-! ## Maps by name -/

namespace NameMap

variable {α : Type} {m : NameMap α} {name : String} {value x : α}

theorem name_ne_of_lt {es : List (String × α)} {d e : String × α}
    (hs : (d :: es).Pairwise (·.1 < ·.1)) (he : e ∈ es) : e.1 ≠ d.1 := fun h =>
  String.lt_irrefl _ (h ▸ (List.pairwise_cons.1 hs).1 e he)

theorem find?_eq_some_iff {es : List (String × α)} (hs : es.Pairwise (·.1 < ·.1)) :
    (es.find? (·.1 = name)).map (·.2) = some value ↔ (name, value) ∈ es := by
  induction es with
  | nil => simp
  | cons d es ih =>
    by_cases hd : d.1 = name
    · have hout : (name, value) ∉ es := fun h => name_ne_of_lt hs h hd.symm
      simp only [List.find?_cons, hd, decide_true, Option.map_some, Option.some.injEq,
        List.mem_cons, hout, or_false]
      exact ⟨fun h => by rw [← hd, ← h], fun h => by rw [← h]⟩
    · have hne : (name, value) ≠ d := fun h => hd (h ▸ rfl)
      simpa [List.find?_cons, hd, hne] using ih (List.pairwise_cons.1 hs).2

theorem get?_eq_some_iff : m.get? name = some value ↔ (name, value) ∈ m.entries :=
  find?_eq_some_iff m.sorted

theorem mem_insertEntry_iff {es : List (String × α)} {e : String × α}
    (hs : es.Pairwise (·.1 < ·.1)) :
    e ∈ insertEntry name value es ↔ e = (name, value) ∨ (e ∈ es ∧ e.1 ≠ name) := by
  induction es with
  | nil => simp [insertEntry]
  | cons d es ih =>
    have hrest := (List.pairwise_cons.1 hs)
    unfold insertEntry
    split
    · rename_i hlt
      have key : ∀ f ∈ d :: es, f.1 ≠ name := by
        intro f hf h
        rcases List.mem_cons.1 hf with rfl | hf
        · exact String.lt_irrefl _ (h ▸ hlt)
        · exact String.lt_irrefl _ (String.lt_trans hlt (h ▸ hrest.1 f hf))
      rw [List.mem_cons]
      exact or_congr_right ⟨fun h => ⟨h, key e h⟩, fun h => h.1⟩
    · split
      · rename_i heq
        have key : ∀ f ∈ es, f.1 ≠ name := fun f hf => heq ▸ name_ne_of_lt hs hf
        rw [List.mem_cons, List.mem_cons]
        refine or_congr_right ⟨fun h => ⟨.inr h, key e h⟩, fun h => h.1.resolve_left ?_⟩
        exact fun hd => h.2 (hd ▸ heq.symm)
      · rename_i hne
        rw [List.mem_cons, ih hrest.2, List.mem_cons]
        constructor
        · rintro (rfl | h | h)
          · exact .inr ⟨.inl rfl, fun h => hne h.symm⟩
          · exact .inl h
          · exact .inr ⟨.inr h.1, h.2⟩
        · rintro (h | ⟨h | h, hn⟩)
          · exact .inr (.inl h)
          · exact .inl h
          · exact .inr (.inr ⟨h, hn⟩)

theorem get?_insert (m : NameMap α) (name : String) (value : α) (s : String) :
    (m.insert name value).get? s = if s = name then some value else m.get? s := by
  refine Option.ext fun x => ?_
  rw [get?_eq_some_iff, entries_insert, mem_insertEntry_iff m.sorted, ← get?_eq_some_iff]
  by_cases hs : s = name
  · simp [hs, eq_comm]
  · simp [hs]

theorem get?_filter (m : NameMap α) (keep : α → Bool) (s : String) :
    (m.filter keep).get? s = (m.get? s).filter keep := by
  refine Option.ext fun x => ?_
  rw [get?_eq_some_iff, entries_filter, List.mem_filter, ← get?_eq_some_iff,
    Option.filter_eq_some_iff]

/-- No value stands under two names. -/
theorem eq_of_values_nodup {es : List (String × α)} {d e : String × α}
    (hn : (es.map (·.2)).Nodup) (hd : d ∈ es) (he : e ∈ es) (h : d.2 = e.2) : d = e :=
  List.inj_on_of_nodup_map hn hd he h

theorem mem_values_insert (hn : m.values.Nodup) :
    x ∈ (m.insert name value).values ↔
      x = value ∨ (x ∈ m.values ∧ m.get? name ≠ some x) := by
  simp only [values, entries_insert, List.mem_map, mem_insertEntry_iff m.sorted]
  constructor
  · rintro ⟨e, rfl | ⟨he, hne⟩, rfl⟩
    · exact .inl rfl
    · refine .inr ⟨⟨e, he, rfl⟩, fun h => hne ?_⟩
      rw [eq_of_values_nodup hn he (get?_eq_some_iff.1 h) rfl]
  · rintro (rfl | ⟨⟨e, he, rfl⟩, hne⟩)
    · exact ⟨_, .inl rfl, rfl⟩
    · exact ⟨e, .inr ⟨he, fun h => hne (get?_eq_some_iff.2 (h ▸ he))⟩, rfl⟩

theorem nodup_values_insertEntry {es : List (String × α)} (hn : (es.map (·.2)).Nodup)
    (hv : value ∉ es.map (·.2)) : ((insertEntry name value es).map (·.2)).Nodup := by
  induction es with
  | nil => simp [insertEntry]
  | cons d es ih =>
    have hn' := List.nodup_cons.1 hn
    have hv' : value ∉ es.map (·.2) := fun h => hv (List.mem_cons_of_mem _ h)
    unfold insertEntry
    split
    · exact List.nodup_cons.2 ⟨hv, hn⟩
    · split
      · exact List.nodup_cons.2 ⟨hv', hn'.2⟩
      · refine List.nodup_cons.2 ⟨fun h => ?_, ih hn'.2 hv'⟩
        obtain ⟨e, he, hed⟩ := List.mem_map.1 h
        rcases mem_insertEntry he with rfl | he
        · exact hv (by simp [show value = d.2 from hed])
        · exact hn'.1 (hed ▸ List.mem_map.2 ⟨e, he, rfl⟩)

theorem nodup_values_insert (hn : m.values.Nodup) (hv : value ∉ m.values) :
    (m.insert name value).values.Nodup :=
  nodup_values_insertEntry hn hv

end NameMap

namespace Tree

variable {t : Tree} {level : NodeId → Nat} {count : NodeId → UInt32} {c f p x : NodeId}
  {name : String} {former : Option NodeId}

/-! ## Taking the name from a child -/

/-- Clearing the parent of a node that may not be there. -/
theorem node_clearFormer (hf : ∀ f, former = some f → f < t.size) :
    (match former with
      | some f => t.modify f fun n => { n with parent := none }
      | none => t).node x = { t.node x with
        parent := if former = some x then none else (t.node x).parent } := by
  cases former with
  | none => simp
  | some f =>
    dsimp only
    rw [node_modify (hf f rfl)]
    by_cases hx : x = f
    · simp [hx]
    · simp [hx, Ne.symm hx]

/-- The tree without the link to the child that has the name, if there is one. -/
def unlinkFormer (t : Tree) (former : Option NodeId) : Tree :=
  match former with
  | some f => t.unlink f
  | none => t

theorem node_unlinkFormer (hl : t.Linked level) :
    (t.unlinkFormer former).node x = { t.node x with
      payload := former.elim (t.node x).payload fun f => (t.node x).payload.erase f
      parent := if former = some x then none else (t.node x).parent } := by
  cases former with
  | none => simp [unlinkFormer]
  | some f => simp [unlinkFormer, node_unlink hl, eq_comm]

theorem Linked.unlinkFormer (hl : t.Linked level) (former : Option NodeId) :
    (t.unlinkFormer former).Linked level := by
  cases former with
  | none => exact hl
  | some f => exact hl.unlink f

theorem Counted.unlinkFormer (hc : t.Counted count) (hl : t.Linked level)
    (former : Option NodeId) : (t.unlinkFormer former).Counted count := by
  cases former with
  | none => exact hc
  | some f => exact hc.unlink hl f

/-- What is within a node stays within it when a child of another, outside of it, loses its name. -/
theorem within_unlinkFormer (hl : t.Linked level)
    (hformer : ∀ f, former = some f → (t.node f).parent = some p) (hcyc : ¬ t.Within c p) :
    (t.unlinkFormer former).Within c x ↔ t.Within c x := by
  cases former with
  | none => exact .rfl
  | some f => exact within_unlink_outside hl (hformer f rfl) hcyc

/-! ## The names that are left -/

/-- All children of a node that has none or names them stand under a name, less one or not. -/
theorem ids_erase_eq_names {pay : Payload} (h : pay.shape = .nothing ∨ pay.shape = .named) :
    (pay.erase c).ids = (pay.erase c).names.values := by
  cases pay with
  | nothing => rfl
  | named m => rfl
  | scalar _ => simp [Payload.shape] at h
  | children _ => simp [Payload.shape] at h

/-- The child that has the name, when another is taken away, hangs below the node. -/
theorem parent_of_get? (hl : t.Linked level)
    (hshape : (t.node p).payload.shape = .nothing ∨ (t.node p).payload.shape = .named)
    (hf : ((t.node p).payload.erase c).names.get? name = some f) :
    ((t.unlink c).node f).parent = some p := by
  refine ((hl.unlink c).linked p f).1 ?_
  rw [childIds, node_unlink hl, ids_erase_eq_names hshape]
  exact List.mem_map.2 ⟨_, NameMap.get?_eq_some_iff.1 hf, rfl⟩

/-! ## The link to the new child -/

/-- A node takes its place under a name in the payload of another, and hangs nowhere yet; nor does
the child that had the name. -/
def linkNamed (t : Tree) (p : NodeId) (name : String) (c : NodeId) : Tree :=
  let freed := t.unlink c
  let names := (freed.node p).payload.names
  let linked := freed.modify p fun n => { n with payload := .named (names.insert name c) }
  match names.get? name with
  | some former => linked.modify former fun n => { n with parent := none }
  | none => linked

theorem hangNamed_eq (t : Tree) (p : NodeId) (name : String) (c : NodeId) :
    t.hangNamed p name c = (t.linkNamed p name c).settleUnder p c := rfl

@[simp] theorem size_linkNamed (t : Tree) (p : NodeId) (name : String) (c : NodeId) :
    (t.linkNamed p name c).size = t.size := by
  simp only [linkNamed]
  split <;> simp

@[simp] theorem size_hangNamed (t : Tree) (p : NodeId) (name : String) (c : NodeId) :
    (t.hangNamed p name c).size = t.size := by
  rw [hangNamed_eq, size_settleUnder, size_linkNamed]

theorem node_linkNamed (hl : t.Linked level) (hp : p < t.size)
    (hshape : (t.node p).payload.shape = .nothing ∨ (t.node p).payload.shape = .named) :
    let names := ((t.node p).payload.erase c).names
    (t.linkNamed p name c).node x = { t.node x with
      payload := if x = p then .named (names.insert name c) else (t.node x).payload.erase c
      parent := if names.get? name = some x ∨ x = c then none else (t.node x).parent } := by
  intro names
  have hnames : ((t.unlink c).node p).payload.names = names := by rw [node_unlink hl]
  have hp' : p < (t.unlink c).size := by rwa [size_unlink]
  simp only [linkNamed, hnames]
  rw [node_clearFormer fun f hf => ?_, node_modify hp']
  · by_cases hx : x = p
    · simp [hx, node_unlink hl, ite_or]
    · simp [hx, node_unlink hl, ite_or]
  · rw [size_modify]
    exact lt_size_of_parent (parent_of_get? hl hshape hf)

/-! ## Hanging a node under a name -/

/-- Hanging a node under a name: it leaves the payload that held it, a child that had the name
before hangs nowhere, and all that is within the node moves along. -/
theorem hangNamed_spec (hs : t.Sound) (hc : c < t.size) (hp : p < t.size)
    (hok : t.refusalAs? .named p c = none) :
    let names := ((t.node p).payload.erase c).names
    (t.hangNamed p name c).Sound ∧ ∀ x, (t.hangNamed p name c).node x = { t.node x with
      payload := if x = p then .named (names.insert name c) else (t.node x).payload.erase c
      parent := if x = c then some p else if names.get? name = some x then none
        else (t.node x).parent
      depth := t.rebased t.depth c (t.depth p + 1) x } := by
  intro names
  have hl := hs.links
  obtain ⟨hshape, hsolid, hcyc⟩ := (refusalAs?_eq_none hl).1 hok
  have hu := hl.unlink c
  have hids : (t.unlink c).childIds p = names.values := by
    rw [childIds, node_unlink hl, ids_erase_eq_names hshape]
  have hnd : names.values.Nodup := hids ▸ hu.once p
  have hcv : c ∉ names.values := by
    rw [← ids_erase_eq_names hshape]
    exact fun h => (Payload.mem_ids_erase.1 h).2 rfl
  have hparent : ∀ f, names.get? name = some f → ((t.unlink c).node f).parent = some p :=
    fun f hf => parent_of_get? hl hshape hf
  -- the links of the new tree are those of `v` and the one to the new child
  let v := (t.unlink c).unlinkFormer (names.get? name)
  let w := t.linkNamed p name c
  have hv : ∀ x, v.node x = _ := fun x => (node_unlinkFormer hu).trans (by rw [node_unlink hl])
  have hw : ∀ x, w.node x = { t.node x with
      payload := if x = p then .named (names.insert name c) else (t.node x).payload.erase c
      parent := if names.get? name = some x ∨ x = c then none else (t.node x).parent } :=
    fun x => node_linkNamed hl hp hshape
  have hdepth : w.depth = t.depth := funext fun x => by rw [depth, hw]; rfl
  have hwithin : ∀ x, v.Within c x ↔ t.Within c x := fun x =>
    (within_unlinkFormer hu hparent (mt (within_unlink hl).1 hcyc)).trans (within_unlink hl)
  have hsettled := sound_settleUnder (w := w) (v := v) (p := p) (hu.unlinkFormer _)
    (hdepth ▸ (hs.counted.unlink hl c).unlinkFormer hu _) (by simpa [w] using hc) (by simp [hv])
    (by simpa [kind, hv] using hsolid) (mt (hwithin p).1 hcyc) (fun x => by simp [kind, hv, hw])
    (fun x => by simp [hv, hw, names, ite_or]) (fun x hx => ?_) (fun x => ?_) ?_
  · refine ⟨hangNamed_eq t p name c ▸ hsettled.1, fun x => ?_⟩
    rw [hangNamed_eq, hsettled.2 x, hw, hdepth, rebased_congr hwithin]
    by_cases hx : x = c <;> simp [hx, names]
  · rw [childIds, childIds, hw, hv]
    cases hf : names.get? name with
    | none => simp [hx]
    | some f =>
      have hfx : f ∉ (t.unlink c).childIds x := fun h =>
        hx (hu.parent_unique h ((hu.linked p f).2 (hparent f hf)))
      rw [childIds, node_unlink hl] at hfx
      simp [hx, Payload.erase_eq_self hfx]
  · rw [childIds, childIds, hw, hv]
    simp only [if_pos, Payload.ids_named, NameMap.mem_values_insert hnd]
    refine or_congr_right ?_
    cases hf : names.get? name with
    | none => simp [ids_erase_eq_names hshape, names]
    | some f => simp [Payload.mem_ids_erase, ids_erase_eq_names hshape, names, eq_comm]
  · rw [childIds, hw]
    simpa using NameMap.nodup_values_insert hnd hcv

end Tree
end RouteScript
