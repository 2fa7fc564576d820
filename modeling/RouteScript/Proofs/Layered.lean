import Mathlib.Data.List.Basic
import RouteScript.Settings.Load
/-!
# Layers of settings

The layers that are sources lie on each other in their order, and the values set by path in theirs;
how the two stand among each other does not matter. A file that need not be there and is not says
nothing, and without anything said the settings are the defaults: the built-in document and the
defaults of the options agree.
-/
namespace RouteScript

/-- The layer is a source of its own: a document or a file. -/
def Layer.isSource : Layer → Bool
  | .override _ _ => false
  | _ => true

/-- The layer is a file that is not there and need not be. -/
def Layer.isAbsent : Layer → Bool
  | .file false none => true
  | _ => false

namespace Settings

variable {layers others : List Layer} {l : Layer}

/-! ## Merging -/

theorem isSource_of_isAbsent (h : l.isAbsent = true) : l.isSource = true := by
  cases l with
  | override path v => cases h
  | document text | file required contents => rfl

theorem mergeSource_override (root : Value) (h : l.isSource = false) :
    mergeSource root l = .ok root := by
  cases l with
  | override path v => rfl
  | document text | file required contents => cases h

theorem mergeSource_absent (root : Value) (h : l.isAbsent = true) :
    mergeSource root l = .ok root := by
  unfold Layer.isAbsent at h
  split at h
  · rfl
  · cases h

/-- Layers that leave every value alone may be left out of a merge. -/
theorem foldlM_mergeSource_filter {p : Layer → Bool}
    (hp : ∀ l root, p l = false → mergeSource root l = .ok root) : ∀ (layers : List Layer) root,
    (layers.filter p).foldlM mergeSource root = layers.foldlM mergeSource root
  | [], _ => rfl
  | l :: layers, root => by
    rw [List.foldlM_cons]
    cases hl : p l with
    | true =>
      rw [List.filter_cons_of_pos hl, List.foldlM_cons]
      exact congrArg (mergeSource root l >>= ·)
        (funext fun root => foldlM_mergeSource_filter hp layers root)
    | false =>
      rw [List.filter_cons_of_neg (by simp [hl]), hp l root hl]
      exact foldlM_mergeSource_filter hp layers root

/-- Sources may be left out of what is set by path. -/
theorem overrides_filter {p : Layer → Bool} (hp : ∀ l, p l = false → l.isSource = true) :
    ∀ layers : List Layer, overrides (layers.filter p) = overrides layers
  | [] => rfl
  | l :: layers => by
    cases hl : p l with
    | true =>
      rw [List.filter_cons_of_pos hl]
      cases l <;> simp only [overrides, overrides_filter hp layers]
    | false =>
      rw [List.filter_cons_of_neg (by simp [hl])]
      have hsource := hp l hl
      cases l with
      | override path v => cases hsource
      | document text | file required contents => exact overrides_filter hp layers

theorem load_eq (layers : List Layer) : load layers = (do
    let overrides ← overrides layers
    let root ← mergeSource (.table []) (.document defaultDocument)
    let root ← layers.foldlM mergeSource root
    ofValue (overrides.foldl (fun root (steps, v) => root.setPath v steps) root)) := by
  simp only [load, mergeLayers, List.foldlM_cons, bind_assoc, pure_bind]

/-- Two lists of layers with the same values set by path, and with sources that come to the same,
come to the same settings. -/
theorem load_congr (hoverrides : overrides layers = overrides others)
    (hsources : ∀ root, layers.foldlM mergeSource root = others.foldlM mergeSource root) :
    load layers = load others := by
  simp only [load_eq, hoverrides, hsources]

/-! ## What layers come to -/

/-- The settings depend on the sources in their order and on the values set by path in theirs. -/
theorem load_eq_of_filter (hsources : layers.filter (·.isSource) = others.filter (·.isSource))
    (hoverrides : layers.filter (!·.isSource) = others.filter (!·.isSource)) :
    load layers = load others := by
  refine load_congr ?_ fun root => ?_
  · have hset : ∀ layers : List Layer, overrides (layers.filter (!·.isSource)) = overrides layers :=
      overrides_filter fun l hl => by simpa using hl
    rw [← hset layers, ← hset others, hoverrides]
  · have hmerge : ∀ layers : List Layer, (layers.filter (·.isSource)).foldlM mergeSource root =
        layers.foldlM mergeSource root := fun layers =>
      foldlM_mergeSource_filter (fun l root hl => mergeSource_override root hl) layers root
    rw [← hmerge layers, ← hmerge others, hsources]

/-- Files that are not there and need not be say nothing. -/
theorem load_filter_absent (layers : List Layer) :
    load (layers.filter (!·.isAbsent)) = load layers := by
  refine load_congr (overrides_filter (fun l hl => ?_) layers)
    (foldlM_mergeSource_filter (fun l root hl => ?_) layers)
  · exact isSource_of_isAbsent (by simpa using hl)
  · exact mergeSource_absent root (by simpa using hl)

/-- Where nothing is said, the settings are the defaults. -/
theorem load_of_absent (h : ∀ l ∈ layers, l.isAbsent = true) : load layers = .ok .default := by
  have hnone : layers.filter (!·.isAbsent) = [] :=
    List.filter_eq_nil_iff.2 fun l hl => by simp [h l hl]
  rw [← load_filter_absent, hnone]
  decide +kernel

/-- Nothing is loaded without a file that has to be there. -/
theorem load_of_missing (h : .file true none ∈ layers) : ∃ e, load layers = .error e := by
  have hmerge : ∀ root, ∃ e, layers.foldlM mergeSource root = .error e := by
    induction layers with
    | nil => cases h
    | cons l layers ih =>
      intro root
      rw [List.foldlM_cons]
      rcases List.mem_cons.1 h with rfl | h
      · exact ⟨.missingFile, rfl⟩
      cases mergeSource root l with
      | error e => exact ⟨e, rfl⟩
      | ok root => exact ih h root
  rw [load_eq]
  cases overrides layers with
  | error e => exact ⟨e, rfl⟩
  | ok set =>
    cases mergeSource (.table []) (.document defaultDocument) with
    | error e => exact ⟨e, rfl⟩
    | ok root =>
      obtain ⟨e, he⟩ := hmerge root
      refine ⟨e, ?_⟩
      show layers.foldlM mergeSource root >>= _ = _
      rw [he]
      rfl

end Settings

/-! ## Values of the wrong sort -/

namespace Value

variable {v : Value} {key : String} {e : SettingsError}

/-- A value that cannot be taken for yes or no is blamed under its key. -/
theorem exists_of_toBoolean (h : v.toBoolean key = .error e) :
    ∃ found, e = .wrongValue found "a boolean" key := by
  cases v with
  | boolean b | integer n | float x => cases h
  | string s =>
    simp only [toBoolean] at h
    split at h
    · cases h
    split at h
    · cases h
    cases h
    exact ⟨_, rfl⟩
  | nil | array items | table entries =>
    cases h
    exact ⟨_, rfl⟩

/-- A value that cannot be taken for a count is blamed under its key. -/
theorem exists_of_toCount (h : v.toCount key = .error e) :
    ∃ found expected, e = .wrongValue found expected key := by
  cases v with
  | boolean b | float x => cases h
  | integer n =>
    rw [toCount] at h
    split at h
    · cases h
    cases h
    exact ⟨_, _, rfl⟩
  | string s =>
    rw [toCount] at h
    split at h
    · cases h
    split at h
    · cases h
    split at h
    · cases h
    cases h
    exact ⟨_, _, rfl⟩
  | nil | array items | table entries =>
    cases h
    exact ⟨_, _, rfl⟩

end Value
end RouteScript
