import RouteScript.Proofs.Grammar.Complete
import RouteScript.Proofs.Grammar.Kept
/-!
# Readings elsewhere

What is found without a mistake is found again wherever the same tokens stand, ranges included:
neither what comes before them nor the options of the parse have a part in it, and of what comes
after only whether it is a semicolon.
-/
namespace RouteScript.Grammar

open Item

variable {c c' : Context} {s s' u after after' last : Stand} {ts us : List LocatedToken}
  {t : LocatedToken} {x : Item} {xs ys : List Item} {f : Reading}

namespace Reading

/-- The reading finds the item on these tokens, wherever they stand. -/
def Finds (f : Reading) (ts : List LocatedToken) (x : Item) : Prop :=
  ∀ {c : Context} {s after : Stand}, c.Closed → s.Passes ts after → f c s = .found x after

/-- The reading finds the item on these tokens, wherever no semicolon comes after them. -/
def FindsUnclosed (f : Reading) (ts : List LocatedToken) (x : Item) : Prop :=
  ∀ {c : Context} {s after : Stand}, c.Closed → s.Passes ts after →
    (after.current c).kind ≠ .semicolon → f c s = .found x after

/-! ## Statements and blocks -/

theorem finds_assignment (hc : c.Closed) (h : assignment c s = .found x after) :
    ∃ ts, s.Passes ts after ∧ assignment.Finds ts x := by
  obtain ⟨left, op, right, hleft, hop, hright, rfl, rfl⟩ := assignment_eq_found.1 h
  have hl := takesOne_target.notEnd _ _ hleft
  have ho := takesOne_assignOperator.notEnd _ _ hop
  have hr := takesOne_value.notEnd _ _ hright
  refine ⟨_, ((Stand.passes_advance hc hl).trans (Stand.passes_advance hc ho)).trans
    (Stand.passes_advance hc hr), fun {c' s' after'} _ hp => ?_⟩
  obtain ⟨h₁, hp⟩ := hp.step hl c'
  obtain ⟨h₂, hp⟩ := hp.step ho c'
  obtain ⟨h₃, hp⟩ := hp.step hr c'
  exact assignment_eq_found.2 ⟨left, op, right, by rwa [h₁], by rwa [h₂], by rwa [h₃], rfl,
    hp.eq_of_nil.symm⟩

theorem finds_statement (hc : c.Closed) (h : statement c s = .found x after) :
    ∃ ts, s.Passes ts after ∧ statement.Finds ts x := by
  obtain ⟨y, u, z, hy, hz, rfl, rfl⟩ := statement_eq_found.1 h
  obtain ⟨ts, hp, hfinds⟩ := finds_assignment hc hy
  have hend := takesOne_terminator.notEnd _ _ hz
  refine ⟨_, hp.trans (Stand.passes_advance hc hend), fun {c' s' after'} hc' hp' => ?_⟩
  obtain ⟨u', hp₁, hp₂⟩ := hp'.split
  obtain ⟨hcu, hp₃⟩ := hp₂.step hend c'
  exact statement_eq_found.2 ⟨y, u', z, hfinds hc' hp₁, by rwa [hcu], rfl, hp₃.eq_of_nil.symm⟩

/-- Statements that were read are read again, if what comes after them is none. -/
theorem Gathered.statements_elsewhere (hc : c.Closed) (h : Gathered statement c s xs after) :
    ∃ ts, s.Passes ts after ∧ ∀ {c' : Context} {s' after' : Stand}, c'.Closed →
      s'.Passes ts after' → (statement c' after').outcome ≠ .success →
      Gathered statement c' s' xs after' := by
  induction h with
  | @stop s =>
    refine ⟨[], .refl s, fun _ hp hstop => ?_⟩
    rw [hp.eq_of_nil]
    exact .stop hstop
  | more hx _ ih =>
    obtain ⟨ts, hp, hfinds⟩ := finds_statement hc hx
    obtain ⟨us, hrest, hagain⟩ := ih
    refine ⟨_, hp.trans hrest, fun hc' hp' hstop => ?_⟩
    obtain ⟨u', hp₁, hp₂⟩ := hp'.split
    exact .more (hfinds hc' hp₁) (hagain hc' hp₂ hstop)

/-- A block without a mistake is the same elsewhere. -/
theorem openBlock_elsewhere (hc : c.Closed) (hs : s.Scanned)
    (hopen : (s.current c).kind = .leftBrace) (hclean : (openBlock c s).1.Clean) :
    ∃ ts, s.Passes ts (openBlock c s).2 ∧ ∀ {c' : Context} {s' after' : Stand}, c'.Closed →
      s'.Passes ts after' → (s'.current c').kind = .leftBrace ∧
        openBlock c' s' = ((openBlock c s).1, after') := by
  obtain ⟨hp, hs₁⟩ := Stand.passes_of_kind hc hs hopen (by decide)
  have hb := bodied_body hc (s.advance c)
  rw [openBlock, clean_bundle] at hclean
  obtain ⟨here, hg, hclose, hranges, hafter⟩ := hb.closed_of_clean hclean.2
  obtain ⟨ts, hp₁, hagain⟩ := hg.statements_elsewhere hc
  obtain ⟨hp₂, -⟩ := Stand.passes_of_kind hc (hp₁.scanned hs₁) hclose (by decide)
  have hscanned := Stand.scanned_current hc (hp₁.scanned hs₁) (isEnd_eq_false hclose (by decide))
  rw [openBlock, hafter]
  refine ⟨s.current c :: (ts ++ [here.current c]), hp.trans (hp₁.trans hp₂),
    fun {c' s' after'} hc' hp' => ?_⟩
  obtain ⟨hcs, hp₃⟩ := hp'.step (isEnd_eq_false hopen (by decide)) c'
  obtain ⟨u', hp₄, hp₅⟩ := hp₃.split
  obtain ⟨hcu, hp₆⟩ := hp₅.step (isEnd_eq_false hclose (by decide)) c'
  have hstop : targetItem? (u'.current c') = none := by
    rw [hcu]
    exact targetItem?_of_ne hscanned (hclose.trans_ne (by decide)) (hclose.trans_ne (by decide))
  have hbody := Bodied.body_eq hc' (.closed (hagain hc' hp₄ (outcome_statement hstop))
    (hcu ▸ hclose))
  refine ⟨hcs ▸ hopen, ?_⟩
  rw [openBlock, hbody, hcs, hcu, hranges, ← hp₆.eq_of_nil]

/-! ## Routes -/

theorem finds_routeName (hc : c.Closed) (h : routeName c s = .found x after) :
    ∃ ts, s.Passes ts after ∧ routeName.Finds ts x := by
  obtain ⟨hopen, hname, hclose, rfl⟩ := routeName_eq_found.1 h
  have ho := isEnd_eq_false hopen (by decide)
  have hn := takesOne_name.notEnd _ _ hname
  have hcl := isEnd_eq_false hclose (by decide)
  refine ⟨_, ((Stand.passes_advance hc ho).trans (Stand.passes_advance hc hn)).trans
    (Stand.passes_advance hc hcl), fun {c' s' after'} _ hp => ?_⟩
  obtain ⟨h₁, hp⟩ := hp.step ho c'
  obtain ⟨h₂, hp⟩ := hp.step hn c'
  obtain ⟨h₃, hp⟩ := hp.step hcl c'
  exact routeName_eq_found.2 ⟨by rwa [h₁], by rwa [h₂], by rwa [h₃], hp.eq_of_nil.symm⟩

theorem finds_route (hc : c.Closed) (hs : s.Scanned) (h : route c s = .found x after)
    (hclean : x.Clean) : ∃ ts, s.Passes ts after ∧ route.Finds ts x := by
  obtain ⟨kind, hkind, hopen, hx⟩ := route_eq_found.1 h
  obtain ⟨hroute, word, hlit, hword⟩ := kind_of_routeKind? hkind
  obtain ⟨hp, hs₁⟩ := Stand.passes_of_kind hc hs hroute (by decide)
  have hend := isEnd_eq_false hroute (by decide)
  have hheaded := headed_header kind c (s.advance c)
  generalize hhd : header kind c (s.advance c) = hd at hheaded hopen hx
  obtain ⟨role, error, here⟩ := hd
  obtain ⟨hitem, hafter⟩ : x = _ ∧ after = _ := Prod.ext_iff.1 hx
  cases error with
  | some e =>
    have he : e.item ∈ x.parts := by
      rw [hitem, routeFrom]
      simp only
      split <;> simp [parts, partsAll, self_mem_parts]
    exact absurd rfl (hclean _ he)
  | none =>
    simp only [routeFrom] at hitem hafter
    subst hitem hafter
    have hbody := List.forall_mem_singleton.1 (clean_list.1 hclean).2
    cases hheaded with
    | @named _ y hname =>
      obtain ⟨ts, hp₁, hfinds⟩ := finds_routeName hc hname
      obtain ⟨us, hp₂, hblock⟩ := openBlock_elsewhere hc (hp₁.scanned hs₁) hopen hbody
      refine ⟨s.current c :: (ts ++ us), hp.trans (hp₁.trans hp₂),
        fun {c' s' after'} hc' hp' => ?_⟩
      obtain ⟨hcs, hp₃⟩ := hp'.step hend c'
      obtain ⟨u', hp₄, hp₅⟩ := hp₃.split
      obtain ⟨hopen', heq⟩ := hblock hc' hp₅
      have hbracket := (routeName_eq_found.1 (hfinds hc' hp₄)).1
      have hheader : header kind c' (s'.advance c') = ⟨some (nameRole y), none, u'⟩ := by
        rw [header, if_pos hbracket, hfinds hc' hp₄]
      rw [route_of_header (by rwa [hcs]) hheader hopen', hcs, heq]
    | nameless hne hbracket =>
      obtain ⟨us, hp₂, hblock⟩ := openBlock_elsewhere hc hs₁ hopen hbody
      refine ⟨s.current c :: us, hp.trans hp₂, fun {c' s' after'} hc' hp' => ?_⟩
      obtain ⟨hcs, hp₃⟩ := hp'.step hend c'
      obtain ⟨hopen', heq⟩ := hblock hc' hp₃
      have hheader : header kind c' (s'.advance c') = ⟨none, none, s'.advance c'⟩ := by
        rw [header, if_neg (hopen'.trans_ne (by decide)), if_neg hne]
      rw [route_of_header (by rwa [hcs]) hheader hopen', hcs, heq]

/-! ## Whole files -/

theorem finds_topLevelAssignment (hc : c.Closed) (h : topLevelAssignment c s = .found x after) :
    ∃ ts, s.Passes ts after ∧ topLevelAssignment.FindsUnclosed ts x := by
  obtain ⟨y, u, hy, hx⟩ := topLevelAssignment_eq_found.1 h
  obtain ⟨ts, hp, hfinds⟩ := finds_assignment hc hy
  rcases hx with ⟨z, hz, rfl, rfl⟩ | ⟨-, rfl, rfl⟩
  · have hend := takesOne_terminator.notEnd _ _ hz
    refine ⟨_, hp.trans (Stand.passes_advance hc hend), fun {c' s' after'} hc' hp' _ => ?_⟩
    obtain ⟨u', hp₁, hp₂⟩ := hp'.split
    obtain ⟨hcu, hp₃⟩ := hp₂.step hend c'
    exact topLevelAssignment_eq_found.2
      ⟨y, u', hfinds hc' hp₁, .inl ⟨z, by rwa [hcu], rfl, hp₃.eq_of_nil.symm⟩⟩
  · exact ⟨ts, hp, fun hc' hp' hnext => topLevelAssignment_eq_found.2
      ⟨x, _, hfinds hc' hp', .inr ⟨oneItem?_of_ne hnext, rfl, rfl⟩⟩⟩

theorem kind_of_targetItem? (ht : t.token.Scanned) (h : targetItem? t = some x) :
    t.kind = .identifier ∨ t.kind = .coreVariable :=
  (derived_target (derives_targetItem? ht h)).1

/-- A construct without a mistake is found again, and it does not start with a semicolon. -/
theorem finds_construct (hc : c.Closed) (hs : s.Scanned) (h : construct c s = .found x after)
    (hclean : x.Clean) : (s.current c).isEnd = false ∧ (s.current c).kind ≠ .semicolon ∧
      ∃ ts, s.Passes (s.current c :: ts) after ∧ construct.FindsUnclosed (s.current c :: ts) x := by
  -- what was found passes the current token, so that its kind decides elsewhere as it did here
  have hcons : ∀ {ts : List LocatedToken}, (s.current c).isEnd = false → s.Passes ts after →
      after.pending.length < s.pending.length → ∃ us, ts = s.current c :: us := by
    intro ts hend hp hlt
    cases ts with
    | nil => rw [hp.eq_of_nil] at hlt; exact absurd hlt (Nat.lt_irrefl _)
    | cons t us =>
      have ht : s.current c = t := by rw [Stand.current, hp.pending]; rfl
      exact ⟨us, by rw [ht]⟩
  have hlt := forward_construct c s x after hc h
  rcases construct_eq_found.1 h with h | ⟨hstarter, h | ⟨-, h⟩⟩
  · obtain ⟨hitem, rfl⟩ := (takesOne_fileStarter.found ..).1 h
    obtain ⟨_, hkind, -⟩ := fileStarterItem?_eq_some.1 hitem
    have hend := isEnd_eq_false hkind (by decide)
    refine ⟨hend, hkind.trans_ne (by decide), [], Stand.passes_advance hc hend, ?_⟩
    intro c' s' after' _ hp' _
    obtain ⟨hcs, hp₁⟩ := hp'.step hend c'
    exact construct_eq_found.2 (.inl ((takesOne_fileStarter.found ..).2
      ⟨by rwa [hcs], hp₁.eq_of_nil.symm⟩))
  · obtain ⟨y, _, hy, -⟩ := topLevelAssignment_eq_found.1 h
    obtain ⟨left, _, _, hleft, -⟩ := assignment_eq_found.1 hy
    have hend := takesOne_target.notEnd _ _ hleft
    have hkind := kind_of_targetItem? (Stand.scanned_current hc hs hend) hleft
    obtain ⟨ts, hp, hfinds⟩ := finds_topLevelAssignment hc h
    obtain ⟨us, rfl⟩ := hcons hend hp hlt
    refine ⟨hend, ?_, us, hp, fun {c' s' after'} hc' hp' hnext => ?_⟩
    · rcases hkind with hkind | hkind <;> rw [hkind] <;> decide
    · obtain ⟨hcs, -⟩ := hp'.step hend c'
      exact construct_of_assignment (by rwa [hcs]) (hfinds hc' hp' hnext)
  · obtain ⟨kind, hroute, -⟩ := route_eq_found.1 h
    have hkind := (kind_of_routeKind? hroute).1
    have hend := isEnd_eq_false (t := s.current c) hkind (by decide)
    have hscanned := Stand.scanned_current hc hs hend
    obtain ⟨ts, hp, hfinds⟩ := finds_route hc hs h hclean
    obtain ⟨us, rfl⟩ := hcons hend hp hlt
    refine ⟨hend, hkind.trans_ne (by decide), us, hp, fun {c' s' after'} hc' hp' _ => ?_⟩
    obtain ⟨hcs, -⟩ := hp'.step hend c'
    exact construct_of_route (by rwa [hcs]) (by rwa [hcs]) (hfinds hc' hp')

/-- Constructs that were read without a mistake are read again, and after them whatever is read
there. -/
theorem Gathered.constructs_elsewhere (hc : c.Closed) (h : Gathered topLevel c s xs after)
    (hs : s.Scanned) (hclean : ∀ x ∈ xs, x.Clean) :
    ∃ ts, s.Passes ts after ∧ ∀ {c' : Context} {s' after' last : Stand} {ys : List Item},
      c'.Closed → s'.Passes ts after' → s'.stopped = false →
      (after'.current c').kind ≠ .semicolon → Gathered topLevel c' after' ys last →
      (s'.current c').kind ≠ .semicolon ∧ Gathered topLevel c' s' (xs ++ ys) last := by
  induction h with
  | @stop s =>
    refine ⟨[], .refl s, fun _ hp' _ hnext hys => ?_⟩
    rw [hp'.eq_of_nil]
    exact ⟨hnext, hys⟩
  | @more s u after x xs hx _ ih =>
    obtain ⟨hxclean, hxsclean⟩ := List.forall_mem_cons.1 hclean
    obtain ⟨-, y, hy, rfl⟩ := topLevel_eq_found.1 hx
    obtain ⟨hend, hsemicolon, ts, hp, hfinds⟩ :=
      finds_construct hc hs hy ((clean_list.1 hxclean).2 y (by simp))
    obtain ⟨us, hrest, hagain⟩ := ih (hp.scanned hs) hxsclean
    refine ⟨s.current c :: (ts ++ us), hp.trans hrest, ?_⟩
    intro c' s' after' last ys hc' hp' hgoing hnext hys
    have hp' : s'.Passes ((s.current c :: ts) ++ us) after' := hp'
    obtain ⟨u', hp₁, hp₂⟩ := hp'.split
    obtain ⟨hnext', hys'⟩ := hagain hc' hp₂ (hp₁.stopped.trans hgoing) hnext hys
    obtain ⟨hcs, -⟩ := hp₁.step hend c'
    refine ⟨by rwa [hcs], .more (topLevel_eq_found.2 ⟨?_, y, hfinds hc' hp₁ hnext', rfl⟩) hys'⟩
    rw [hcs, hend, hgoing]
    rfl

end Reading
end RouteScript.Grammar
