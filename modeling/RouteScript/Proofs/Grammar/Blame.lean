import RouteScript.Proofs.Grammar.Faults
import RouteScript.Proofs.Grammar.Kept
/-!
# What mistakes say

A mistake blames a token that was still to read: it lies where the token does, and says what was
expected in the place of the token, or that a name was. Rules make many more mistakes than they
keep; each of those that they fail with blames a token, and so does each that is kept in an item.
-/
namespace RouteScript

open Grammar

/-- The mistake lies where the token does and says what the token stands in the place of. -/
structure Grammar.Fault.Blames (e : Fault) (t : LocatedToken) : Prop where
  range : e.range = t.range
  message : e.message = nameRequired ∨ ∃ what, e.message = missingMessage what t.token

/-- The mistake blames a token still to read, be it the one that closes the stream. -/
def Grammar.Fault.Blamed (c : Context) (s : Stand) (e : Fault) : Prop :=
  ∃ t ∈ s.pending ++ [c.closing], e.Blames t

/-- The mistakes in an item blame tokens still to read. -/
def Item.Blamed (c : Context) (s : Stand) (x : Item) : Prop :=
  ∀ y ∈ x.parts, y.label.kind = .error → ∃ e : Fault, y = e.item ∧ e.Blamed c s

variable {c : Context} {s u after : Stand} {e : Fault} {x : Item} {xs : List Item} {l : Label}

namespace Grammar

/-! ## Faults -/

theorem Stand.current_mem (c : Context) (s : Stand) : s.current c ∈ s.pending ++ [c.closing] := by
  rw [Stand.current]
  cases s.pending <;> simp

theorem Fault.Blamed.mono (h : e.Blamed c u) (hu : u.pending <:+ s.pending) : e.Blamed c s := by
  obtain ⟨t, ht, hblames⟩ := h
  refine ⟨t, ?_, hblames⟩
  rcases List.mem_append.1 ht with ht | ht
  · exact List.mem_append_left _ (hu.subset ht)
  · exact List.mem_append_right _ ht

theorem Fault.blamed_missing (what : String) (c : Context) (s : Stand) :
    (Fault.missing what c s).Blamed c s :=
  ⟨s.current c, s.current_mem c, rfl, .inr ⟨what, rfl⟩⟩

namespace Reading

variable {f : Reading} {fs : List Reading} {rs : List ByteRange} {kind : NodeKind} {h : Header}

/-- Wherever the reading fails, it blames a token still to read. -/
def Blames (f : Reading) : Prop :=
  ∀ c s e, c.Closed → f c s = .fault e → e.Blamed c s

theorem blames_take (item? : LocatedToken → Option Item) (what : String) :
    Blames (take item? (.missing what)) := by
  intro c s e _ h
  rw [take] at h
  split at h
  · cases h
  · cases h
    exact Fault.blamed_missing what c s

/-- Whatever the reading fails with is put aside. -/
theorem blames_orMissing (f : Reading) (what : String) : Blames (f.orMissing what) := by
  intro c s e _ h
  rw [orMissing] at h
  split at h
  · cases h
  · cases h
    exact Fault.blamed_missing what c s

theorem FailsInTurn.blamed (hc : c.Closed) (hfs : ∀ f ∈ fs, f.Blames ∧ f.Onward)
    (h : FailsInTurn c e fs s) : e.Blamed c s := by
  induction h with
  | @here f fs s hf => exact (hfs f List.mem_cons_self).1 c s e hc hf
  | @later f fs s u x hf _ ih =>
    have hu := (hfs f List.mem_cons_self).2 c s x u hc hf
    exact (ih fun g hg => hfs g (List.mem_cons_of_mem f hg)).mono hu

theorem blames_sequence (hfs : ∀ f ∈ fs, f.Blames ∧ f.Onward) (hd : ∀ f ∈ fs, f.Definite)
    (kind : NodeKind) : Blames (sequence kind fs) := by
  intro c s e hc h
  exact (sequenceFrom_eq_fault hd h).blamed hc hfs

theorem blames_assignment : assignment.Blames := by
  intro c s e hc h
  have hoperands : operands.Blames := blames_sequence
    (by
      simp only [List.forall_mem_cons, List.not_mem_nil, false_implies, implies_true, and_true]
      exact ⟨⟨blames_orMissing _ _, takesOne_target.onward⟩,
        ⟨blames_take _ _, takesOne_assignOperator.onward⟩,
        ⟨blames_orMissing _ _, takesOne_value.onward⟩⟩)
    (by simp [takesOne_target.definite, takesOne_assignOperator.definite, takesOne_value.definite])
    .assignment
  exact hoperands c s e hc (assignment_eq_fault h)

theorem blames_statement : statement.Blames := by
  refine blames_sequence ?_ ?_ _
  · simp only [List.forall_mem_cons, List.not_mem_nil, false_implies, implies_true, and_true]
    exact ⟨⟨blames_assignment, onward_assignment⟩, ⟨blames_take _ _, takesOne_terminator.onward⟩⟩
  · simp [definite_assignment, takesOne_terminator.definite]

theorem blames_topLevelAssignment : topLevelAssignment.Blames := fun c s e hc h =>
  blames_assignment c s e hc (topLevelAssignment_eq_fault h)

theorem blames_routeName : routeName.Blames := by
  intro c s e _ h
  have hopened : (s.advance c).pending <:+ s.pending := Stand.suffix_advance c s
  rcases routeName_eq_fault h with ⟨-, rfl⟩ | rfl | ⟨x, -, rfl⟩
  · exact Fault.blamed_missing _ c s
  · exact (Fault.blamed_missing _ c _).mono hopened
  · exact (Fault.blamed_missing _ c _).mono ((Stand.suffix_advance c _).trans hopened)

/-- The mistake in the name of a route. -/
theorem Headed.blamed (hh : Headed kind c s h) (hc : c.Closed) (he : h.error = some e) :
    e.Blamed c s := by
  cases hh with
  | named | nameless => cases he
  | misnamed _ hname =>
    cases he
    exact blames_routeName c s e hc hname
  | unnamed =>
    cases he
    exact ⟨s.current c, s.current_mem c, rfl, .inl rfl⟩

theorem blames_route : route.Blames := by
  intro c s e _ h
  rcases route_eq_fault h with ⟨-, rfl⟩ | ⟨kind, -, -, rfl⟩
  · exact Fault.blamed_missing _ c s
  · have hheaded := (headed_header kind c (s.advance c)).suffix
    exact (Fault.blamed_missing _ c _).mono (hheaded.trans (Stand.suffix_advance c s))

theorem blames_topLevel : topLevel.Blames := by
  intro c s e hc h
  rcases topLevel_eq_fault h with h | h | h | rfl
  · exact blames_take _ _ c s e hc h
  · exact blames_topLevelAssignment c s e hc h
  · exact blames_route c s e hc h
  · exact Fault.blamed_missing _ c s

end Reading
end Grammar

/-! ## Items -/

namespace Item

theorem Blamed.mono (h : x.Blamed c u) (hu : u.pending <:+ s.pending) : x.Blamed c s := by
  intro y hy hkind
  obtain ⟨e, rfl, he⟩ := h y hy hkind
  exact ⟨e, rfl, he.mono hu⟩

theorem Clean.blamed (h : x.Clean) (c : Context) (s : Stand) : x.Blamed c s :=
  fun y hy hkind => absurd hkind (h y hy)

theorem blamed_fault (h : e.Blamed c s) : e.item.Blamed c s := by
  intro y hy _
  obtain rfl : y = e.item := List.mem_singleton.1 hy
  exact ⟨e, rfl, h⟩

theorem blamed_list (hl : l.kind ≠ .error) (h : ∀ x ∈ xs, x.Blamed c s) :
    (list l xs).Blamed c s := by
  intro y hy hkind
  rw [parts] at hy
  rcases List.mem_cons.1 hy with rfl | hy
  · exact absurd hkind hl
  · obtain ⟨x, hx, hyx⟩ := mem_partsAll.1 hy
    exact h x hx y hyx hkind

theorem blamed_bundle (hl : l.kind ≠ .error) (h : ∀ x ∈ xs, x.Blamed c s) :
    (bundle l xs).Blamed c s := by
  cases xs with
  | nil => exact (clean_bare.2 hl).blamed c s
  | cons x xs => exact blamed_list hl h

end Item

namespace Grammar
namespace Reading

open Item

variable {here : Stand} {ys : List Item} {rs : List ByteRange} {kind : NodeKind} {h : Header}

/-- What is found up to a mistake, the mistake, and what is found behind it. -/
theorem blamed_around (hxs : ∀ x ∈ xs, x.Blamed c s) (hhere : here.pending <:+ s.pending)
    (he : e.Blamed c here) (hys : ∀ y ∈ ys, y.Blamed c here) :
    ∀ x ∈ xs ++ e.item :: ys, x.Blamed c s := by
  intro x hx
  rcases List.mem_append.1 hx with hx | hx
  · exact hxs x hx
  · rcases List.mem_cons.1 hx with rfl | hx
    · exact blamed_fault (he.mono hhere)
    · exact (hys x hx).mono hhere

theorem Gathered.blamed_statements (hg : Gathered statement c s xs after) :
    ∀ x ∈ xs, x.Blamed c s := fun x hx => (hg.clean_statements x hx).blamed c s

theorem Bodied.blamed (hc : c.Closed) (hb : Bodied c s xs rs after) : ∀ x ∈ xs, x.Blamed c s := by
  induction hb with
  | closed hg => exact hg.blamed_statements
  | unclosed hg =>
    exact blamed_around hg.blamed_statements (hg.suffix onward_statement hc)
      (Fault.blamed_missing _ c _) (by simp)
  | halted hg _ _ he =>
    exact blamed_around hg.blamed_statements (hg.suffix onward_statement hc)
      (blames_statement c _ _ hc he) (by simp)
  | @resumed s here after xs ys rs e hg _ _ he _ _ ih =>
    exact blamed_around hg.blamed_statements (hg.suffix onward_statement hc)
      (blames_statement c here e hc he) fun y hy => (ih y hy).mono (suffix_restart true c here)

theorem blamed_openBlock (hc : c.Closed) (s : Stand) : (openBlock c s).1.Blamed c s := by
  have hbody := (bodied_body hc (s.advance c)).blamed hc
  rw [openBlock]
  refine blamed_bundle (by simp) fun x hx => ?_
  exact (hbody x hx).mono (Stand.suffix_advance c s)

theorem blamed_routeFrom (hc : c.Closed) (hl : l.kind ≠ .error)
    (hafter : h.after.pending <:+ s.pending)
    (herror : ∀ e, h.error = some e → e.Blamed c s) : (routeFrom l c h).1.Blamed c s := by
  have hbody : ∀ u : Stand, u.pending = h.after.pending → (openBlock c u).1.Blamed c s :=
    fun u hu => (blamed_openBlock hc u).mono (hu ▸ hafter)
  rw [routeFrom]
  cases he : h.error with
  | none =>
    simp only
    refine blamed_list (by rwa [Label.kind_over]) ?_
    exact List.forall_mem_singleton.2 (hbody h.after rfl)
  | some e =>
    have hmistake := blamed_fault (herror e he)
    simp only
    split
    · exact blamed_list hl (List.forall_mem_singleton.2 hmistake)
    · refine blamed_list (by rwa [Label.kind_over]) ?_
      exact List.forall_mem_cons.2 ⟨hmistake,
        List.forall_mem_singleton.2 (hbody (h.after.keep c) rfl)⟩

theorem blamed_route (hc : c.Closed) (hx : route c s = .found x after) : x.Blamed c s := by
  obtain ⟨kind, hkind, -, hfrom⟩ := route_eq_found.1 hx
  obtain ⟨-, word, -, hword⟩ := kind_of_routeKind? hkind
  have hne := NodeKind.ne_error_of_outcome
    (NodeKind.outcome_of_isRoute (NodeKind.isRoute_ofRouteWord? hword))
  have hheaded := headed_header kind c (s.advance c)
  have hadvance := Stand.suffix_advance c s
  rw [show x = _ from congrArg Prod.fst hfrom]
  exact blamed_routeFrom hc hne (hheaded.suffix.trans hadvance) fun e he =>
    (hheaded.blamed hc he).mono hadvance

theorem blamed_topLevel (hc : c.Closed) (hx : topLevel c s = .found x after) : x.Blamed c s := by
  obtain ⟨-, y, hy, rfl⟩ := topLevel_eq_found.1 hx
  refine blamed_bundle (by simp) (List.forall_mem_singleton.2 ?_)
  rcases construct_eq_found.1 hy with hy | ⟨-, hy | ⟨-, hy⟩⟩
  · exact (clean_fileStarter hy).blamed c s
  · exact (clean_topLevelAssignment hy).blamed c s
  · exact blamed_route hc hy

theorem Gathered.blamed_constructs (hc : c.Closed) (hg : Gathered topLevel c s xs after) :
    ∀ x ∈ xs, x.Blamed c s := by
  induction hg with
  | stop => simp
  | @more s u after x xs hx _ ih =>
    have hu := onward_topLevel c s x u hc hx
    exact List.forall_mem_cons.2 ⟨blamed_topLevel hc hx, fun y hy => (ih y hy).mono hu⟩

theorem Constructed.blamed (hc : c.Closed) (hx : Constructed c s xs after) :
    ∀ x ∈ xs, x.Blamed c s := by
  induction hx with
  | ended hg => exact hg.blamed_constructs hc
  | halted hg _ he =>
    exact blamed_around (hg.blamed_constructs hc) (hg.suffix onward_topLevel hc)
      (blames_topLevel c _ _ hc he) (by simp)
  | @resumed s here after xs ys e hg _ he _ _ ih =>
    exact blamed_around (hg.blamed_constructs hc) (hg.suffix onward_topLevel hc)
      (blames_topLevel c here e hc he) fun y hy => (ih y hy).mono (suffix_restart false c here)

/-- The mistakes of a file blame tokens of its stream. -/
theorem blamed_script (hc : c.Closed) (s : Stand) : (script c s).1.Blamed c s := by
  have hitems := (constructed_constructs hc s).blamed hc
  rw [script]
  refine blamed_bundle (by simp) (List.forall_mem_append.2 ⟨hitems, ?_⟩)
  exact List.forall_mem_singleton.2 (Clean.blamed (clean_bare.2 (by rintro ⟨⟩)) c s)

end Reading
end Grammar
end RouteScript
