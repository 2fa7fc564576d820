import RouteScript.Proofs.Tree.Named
/-!
# Maps side by side

Two maps are related if every name stands for related values in both, or in neither. Then they have
the same names; and for maps of one size, looking up the names of either of them is enough to tell
(`NameMap.related_iff`).
-/
namespace RouteScript

/-- What relates two lists place by place may be changed for what follows of their members. -/
theorem forall₂_imp_of_mem {α β : Type} {R S : α → β → Prop} {xs : List α} {ys : List β}
    (h : List.Forall₂ R xs ys) (hRS : ∀ x ∈ xs, ∀ y ∈ ys, R x y → S x y) :
    List.Forall₂ S xs ys := by
  refine List.forall₂_iff_zip.2 ⟨h.length_eq, fun {x y} hxy => ?_⟩
  obtain ⟨hx, hy⟩ := List.of_mem_zip hxy
  exact hRS x hx y hy ((List.forall₂_iff_zip.1 h).2 hxy)

/-- A name finds what it found before every value was mapped. -/
theorem lookup_map_snd {α β : Type} (f : α → β) (es : List (String × α)) (name : String) :
    (es.map fun e => (e.1, f e.2)).lookup name = (es.lookup name).map f := by
  induction es with
  | nil => rfl
  | cons e es ih =>
    rw [List.map_cons, List.lookup_cons, List.lookup_cons, ih]
    split <;> rfl

namespace NameMap

variable {α β : Type} {R : α → β → Prop} {m : NameMap α} {n : NameMap β} {name : String}

/-- The names of a map. -/
def names (m : NameMap α) : List String := m.entries.map (·.1)

theorem nodup_names (m : NameMap α) : m.names.Nodup :=
  List.pairwise_map.2 <| m.sorted.imp fun {d e} (hlt : d.1 < e.1) (heq : d.1 = e.1) =>
    String.lt_irrefl e.1 (heq ▸ hlt)

@[simp] theorem length_names (m : NameMap α) : m.names.length = m.size := List.length_map _

theorem mem_names : name ∈ m.names ↔ ∃ x, m.get? name = some x := by
  simp [names, get?_eq_some_iff]

theorem mem_values_of_get? {x : α} (h : m.get? name = some x) : x ∈ m.values :=
  List.mem_map.2 ⟨(name, x), get?_eq_some_iff.1 h, rfl⟩

/-- Every name stands for related values on both sides, or for none. -/
def Related (R : α → β → Prop) (m : NameMap α) (n : NameMap β) : Prop :=
  ∀ name, Option.Rel R (m.get? name) (n.get? name)

theorem Related.names_subset (h : Related R m n) : m.names ⊆ n.names := fun name hname => by
  obtain ⟨x, hx⟩ := mem_names.1 hname
  have hrel := h name
  rw [hx] at hrel
  generalize hy : n.get? name = o at hrel
  cases hrel with
  | some _ => exact mem_names.2 ⟨_, hy⟩

theorem Related.flip (h : Related R m n) : Related (fun y x => R x y) n m := fun name => by
  have hrel := h name
  generalize m.get? name = o, n.get? name = o' at hrel
  cases hrel with
  | some hxy => exact .some hxy
  | none => exact .none

theorem Related.size_eq (h : Related R m n) : m.size = n.size := by
  rw [← length_names, ← length_names]
  exact Nat.le_antisymm (List.subperm_of_subset m.nodup_names h.names_subset).length_le
    (List.subperm_of_subset n.nodup_names h.flip.names_subset).length_le

/-- It is enough to look up the names of one side, if there are no more on the other. -/
theorem related_iff : Related R m n ↔ m.size = n.size ∧
    ∀ name x, m.get? name = some x → ∃ y, n.get? name = some y ∧ R x y := by
  constructor
  · refine fun h => ⟨h.size_eq, fun name x hx => ?_⟩
    have hrel := h name
    rw [hx] at hrel
    generalize hy : n.get? name = o at hrel
    cases hrel with
    | some hxy => exact ⟨_, rfl, hxy⟩
  · rintro ⟨hsize, h⟩ name
    cases hx : m.get? name with
    | some x =>
      obtain ⟨y, hy, hxy⟩ := h name x hx
      rw [hy]
      exact .some hxy
    | none =>
      -- a name on the right alone would make one more of them there
      have hsub : m.names ⊆ n.names := fun s hs => by
        obtain ⟨x, hx⟩ := mem_names.1 hs
        obtain ⟨y, hy, -⟩ := h s x hx
        exact mem_names.2 ⟨y, hy⟩
      have hperm := (List.subperm_of_subset m.nodup_names hsub).perm_of_length_le
        (by rw [length_names, length_names]; exact Nat.le_of_eq hsize.symm)
      cases hy : n.get? name with
      | none => exact .none
      | some y =>
        obtain ⟨x, hx'⟩ := mem_names.1 (hperm.symm.subset (mem_names.2 ⟨y, hy⟩))
        rw [hx] at hx'
        cases hx'

theorem Related.imp {S : α → β → Prop} (h : Related R m n)
    (hRS : ∀ x ∈ m.values, ∀ y ∈ n.values, R x y → S x y) : Related S m n :=
  related_iff.2 ⟨h.size_eq, fun name x hx => by
    obtain ⟨y, hy, hxy⟩ := (related_iff.1 h).2 name x hx
    exact ⟨y, hy, hRS x (mem_values_of_get? hx) y (mem_values_of_get? hy) hxy⟩⟩

/-- Maps that answer the same for every name are the same. -/
theorem ext_get? {m n : NameMap α} (h : ∀ name, m.get? name = n.get? name) : m = n := by
  have hmem : ∀ e : String × α, e ∈ m.entries ↔ e ∈ n.entries := fun e => by
    rw [← get?_eq_some_iff (m := m), h, get?_eq_some_iff]
  have hnodup : ∀ m : NameMap α, m.entries.Nodup := fun m => m.nodup_names.of_map
  refine ext (List.Perm.eq_of_pairwise (fun d e _ _ (hde : d.1 < e.1) hed => ?_) m.sorted n.sorted
    ((List.perm_ext_iff_of_nodup (hnodup m) (hnodup n)).2 hmem))
  exact absurd (String.lt_trans hde hed) (String.lt_irrefl _)

/-- The map with another value for each name. -/
def mapValues {γ : Type} (f : α → γ) (m : NameMap α) : NameMap γ :=
  ⟨m.entries.map fun e => (e.1, f e.2), List.pairwise_map.2 m.sorted⟩

theorem get?_mapValues {γ : Type} (f : α → γ) (m : NameMap α) (name : String) :
    (m.mapValues f).get? name = (m.get? name).map f := by
  rw [get?, get?, mapValues, List.find?_map, Option.map_map, Option.map_map]
  rfl

/-- Maps whose values are mapped to the same become the same. -/
theorem Related.mapValues_eq {γ : Type} {f : α → γ} {g : β → γ}
    (h : Related (fun x y => f x = g y) m n) : m.mapValues f = n.mapValues g :=
  ext_get? fun name => by
    have hrel := h name
    rw [get?_mapValues, get?_mapValues]
    generalize m.get? name = o, n.get? name = o' at hrel
    cases hrel with
    | some hxy => exact congrArg some hxy
    | none => rfl

theorem related_empty : Related R .empty .empty := fun _ => .none

theorem lookup_entries (m : NameMap α) (name : String) : m.entries.lookup name = m.get? name := by
  rw [get?]
  induction m.entries with
  | nil => rfl
  | cons e entries ih =>
    rw [List.lookup_cons, List.find?_cons, ih]
    by_cases he : e.1 = name
    · simp [he]
    · rw [beq_eq_false_iff_ne.2 (Ne.symm he), decide_eq_false he]

theorem lookup_map_entries {γ : Type} (m : NameMap α) (f : α → γ) (name : String) :
    (m.entries.map fun e => (e.1, f e.2)).lookup name = (m.get? name).map f := by
  rw [lookup_map_snd, lookup_entries]

end NameMap

/-! ## The children of a payload -/

namespace Payload

theorem ordered_subset_ids (p : Payload) : p.ordered ⊆ p.ids := by
  cases p <;> simp [ordered, ids]

theorem values_names_subset_ids (p : Payload) : p.names.values ⊆ p.ids := by
  cases p <;> simp [names, ids, NameMap.values]

end Payload

end RouteScript
