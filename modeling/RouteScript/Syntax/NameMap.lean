/-!
# Maps by name

A finite map from names to values, kept as its entries in rising order of the names. The order is
part of the type, so two maps are equal exactly when they have the same entries, and every walk
over a map meets the names in one order.
-/
namespace RouteScript

/-- A map from names, its entries in rising order. -/
structure NameMap (α : Type) where
  entries : List (String × α)
  sorted : entries.Pairwise (·.1 < ·.1)

namespace NameMap

variable {α : Type}

theorem ext {m n : NameMap α} (h : m.entries = n.entries) : m = n := by
  cases m; cases n; cases h; rfl

instance [DecidableEq α] : DecidableEq (NameMap α) := fun m n =>
  if h : m.entries = n.entries then isTrue (ext h) else isFalse fun e => h (e ▸ rfl)

/-- The map without entries. -/
def empty : NameMap α := ⟨[], .nil⟩

instance : Inhabited (NameMap α) := ⟨empty⟩

/-- The number of names. -/
def size (m : NameMap α) : Nat := m.entries.length

/-- The values in the order of their names. -/
def values (m : NameMap α) : List α := m.entries.map (·.2)

/-- The value of a name. -/
def get? (m : NameMap α) (name : String) : Option α :=
  (m.entries.find? (·.1 = name)).map (·.2)

/-- Entries with one name bound anew, its former value replaced. -/
def insertEntry (name : String) (value : α) : List (String × α) → List (String × α)
  | [] => [(name, value)]
  | e :: es =>
    if name < e.1 then (name, value) :: e :: es
    else if name = e.1 then (name, value) :: es
    else e :: insertEntry name value es

theorem mem_insertEntry {name : String} {value : α} {es : List (String × α)} {e : String × α}
    (h : e ∈ insertEntry name value es) : e = (name, value) ∨ e ∈ es := by
  induction es with
  | nil => simpa [insertEntry] using h
  | cons d ds ih =>
    unfold insertEntry at h
    split at h
    · simpa using h
    · split at h
      · rcases List.mem_cons.mp h with h | h
        · exact .inl h
        · exact .inr (List.mem_cons_of_mem _ h)
      · rcases List.mem_cons.mp h with h | h
        · exact .inr (h ▸ List.mem_cons_self ..)
        · exact (ih h).imp_right (List.mem_cons_of_mem _)

theorem sorted_insertEntry {name : String} {value : α} {es : List (String × α)}
    (h : es.Pairwise (·.1 < ·.1)) : (insertEntry name value es).Pairwise (·.1 < ·.1) := by
  induction es with
  | nil => simp [insertEntry]
  | cons d ds ih =>
    have hd := List.pairwise_cons.mp h
    unfold insertEntry
    split
    · rename_i hlt
      refine List.pairwise_cons.mpr ⟨fun e he => ?_, h⟩
      rcases List.mem_cons.mp he with rfl | he
      · exact hlt
      · exact String.lt_trans hlt (hd.1 e he)
    · split
      · rename_i heq
        exact List.pairwise_cons.mpr ⟨fun e he => heq ▸ hd.1 e he, hd.2⟩
      · rename_i hlt hne
        refine List.pairwise_cons.mpr ⟨fun e he => ?_, ih hd.2⟩
        rcases mem_insertEntry he with rfl | he
        · rcases Decidable.em (d.1 < name) with hgt | hgt
          · exact hgt
          · exact absurd (String.le_antisymm (String.not_lt.mp hgt) (String.not_lt.mp hlt)) hne
        · exact hd.1 e he

/-- The map with the name bound to the value. -/
def insert (m : NameMap α) (name : String) (value : α) : NameMap α :=
  ⟨insertEntry name value m.entries, sorted_insertEntry m.sorted⟩

/-- The map with only the entries whose value passes. -/
def filter (m : NameMap α) (keep : α → Bool) : NameMap α :=
  ⟨m.entries.filter fun e => keep e.2, m.sorted.filter _⟩

/-- The map of a list of entries; of two with one name the later counts. -/
def ofList (es : List (String × α)) : NameMap α :=
  es.foldl (fun m e => m.insert e.1 e.2) empty

@[simp] theorem entries_empty : (empty : NameMap α).entries = [] := rfl

@[simp] theorem entries_insert (m : NameMap α) (name : String) (value : α) :
    (m.insert name value).entries = insertEntry name value m.entries := rfl

@[simp] theorem entries_filter (m : NameMap α) (keep : α → Bool) :
    (m.filter keep).entries = m.entries.filter fun e => keep e.2 := rfl

end NameMap
end RouteScript
