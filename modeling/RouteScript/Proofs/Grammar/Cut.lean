import RouteScript.Proofs.Grammar.Kept
import RouteScript.Proofs.Grammar.Steady
import RouteScript.Proofs.Tree.Trace
/-!
# Parses cut short

Two parses of the same tokens, one of which stops once it has kept `limit` mistakes, where the other
may go on. Up to that mistake they find the same and stand at the same place; with it the shorter
one is `Spent`, and what a walk shows of its items is the beginning of what a walk shows of those of
the other, which only adds to them. `Cut` says so of a reading, and every reading from blocks up to
whole files is `Thrifty`: it hands a cut on from the readings it is made of.
-/
namespace RouteScript

namespace Item

variable {x y : Item} {xs ys zs : List Item} {l m : Label}

/-- What a walk shows of the first items is the beginning of what it shows of the second. -/
def Begins (xs ys : List Item) : Prop := ∀ depth, traceAll depth xs <+: traceAll depth ys

theorem begins_refl (xs : List Item) : Begins xs xs := fun _ => List.prefix_refl _

theorem begins_append (xs ys : List Item) : Begins xs (xs ++ ys) := fun depth => by
  rw [traceAll_append]
  exact List.prefix_append ..

theorem Begins.behind (h : Begins xs ys) (zs : List Item) : Begins (zs ++ xs) (zs ++ ys) :=
  fun depth => by
    rw [traceAll_append, traceAll_append]
    exact (List.prefix_append_right_inj _).2 (h depth)

theorem Begins.followed (h : Begins xs ys) (zs : List Item) : Begins xs (ys ++ zs) :=
  fun depth => (h depth).trans (begins_append ys zs depth)

/-- Of nodes of one kind and role that are no mistakes, what lies below decides. -/
theorem Begins.bundle (h : Begins xs ys) (hk : l.kind = m.kind) (hr : l.role = m.role)
    (hne : m.kind ≠ .error) : Begins [bundle l xs] [bundle m ys] := fun depth => by
  simp only [traceAll, List.append_nil, trace_bundle, mark_congr hk hr hne]
  exact List.cons_prefix_cons.2 ⟨rfl, h _⟩

end Item

namespace Grammar

open Item

variable {limit : Nat} {c c' : Context} {s u after : Stand} {x : Item} {xs ys : List Item}
  {rs : List ByteRange} {r r' : Result} {f : Reading} {fs : List Reading} {kind : NodeKind}

/-- The first context makes a parse stop at the mistake that reaches the limit, and the second does
so at none before it. -/
structure Context.Stricter (limit : Nat) (c c' : Context) : Prop where
  closing : c.closing = c'.closing
  stops : ∀ n, 0 < n → (goesOn c.options n = true ↔ n < limit)
  goesOn : ∀ n, 0 < n → n < limit → goesOn c'.options n = true

theorem Context.Stricter.alike (h : c.Stricter limit c') : c.Alike limit c' where
  closing := h.closing
  goesOn n hpos hlt := by rw [(h.stops n hpos).2 hlt, h.goesOn n hpos hlt]

namespace Stand

/-- The parse goes on and has kept fewer mistakes than the limit. -/
structure Open (limit : Nat) (s : Stand) : Prop where
  running : s.stopped = false
  mistakes_lt : s.mistakes < limit

/-- The parse has stopped at the mistake that reaches the limit. -/
structure Spent (limit : Nat) (s : Stand) : Prop where
  stopped : s.stopped = true
  mistakes_eq : s.mistakes = limit

theorem Open.of_goTo {pending : List LocatedToken} (hs : s.Open limit)
    (h : u.goTo pending = s.goTo pending) : u.Open limit :=
  ⟨(stopped_of_goTo h).trans hs.running, mistakes_of_goTo h ▸ hs.mistakes_lt⟩

theorem stopped_keep (hs : s.stopped = false) (c : Context) :
    (s.keep c).stopped = !goesOn c.options (s.mistakes + 1) := by
  rw [keep, hs, Bool.false_or]
  rfl

/-- The next mistake either leaves both parses at one place or spends the budget of the stricter. -/
theorem Open.keep (hs : s.Open limit) (h : c.Stricter limit c') :
    (s.keep c).Open limit ∧ s.keep c' = s.keep c ∨
      (s.keep c).Spent limit := by
  have hstops := h.stops (s.mistakes + 1) (Nat.succ_pos _)
  by_cases hlt : s.mistakes + 1 < limit
  · have hgo := hstops.2 hlt
    have hstopped : (s.keep c).stopped = false := by rw [stopped_keep hs.running, hgo]; rfl
    have hstopped' : (s.keep c').stopped = false := by
      rw [stopped_keep hs.running, h.goesOn _ (Nat.succ_pos _) hlt]
      rfl
    refine .inl ⟨⟨hstopped, hlt⟩, ?_⟩
    calc s.keep c' = ⟨s.pending, s.mistakes + 1, (s.keep c').stopped⟩ := rfl
      _ = ⟨s.pending, s.mistakes + 1, (s.keep c).stopped⟩ := by rw [hstopped, hstopped']
      _ = s.keep c := rfl
  · have hgo : goesOn c.options (s.mistakes + 1) = false :=
      Bool.eq_false_iff.2 fun hgo => hlt (hstops.1 hgo)
    refine .inr ⟨by rw [stopped_keep hs.running, hgo]; rfl, ?_⟩
    exact Nat.le_antisymm hs.mistakes_lt (Nat.not_lt.1 hlt)

theorem Open.keep_of_not_stopped (hs : s.Open limit) (h : c.Stricter limit c')
    (hgo : (s.keep c).stopped = false) : (s.keep c).Open limit ∧ s.keep c' = s.keep c := by
  rcases hs.keep h with hopen | hspent
  · exact hopen
  · rw [hspent.stopped] at hgo
    cases hgo

theorem Open.keep_of_stopped (hs : s.Open limit) (h : c.Stricter limit c')
    (hstop : (s.keep c).stopped = true) : (s.keep c).Spent limit := by
  rcases hs.keep h with ⟨hopen, -⟩ | hspent
  · rw [hopen.running] at hstop
    cases hstop
  · exact hspent

end Stand

namespace Reading

/-! ## Readings that do not ask about mistakes -/

theorem statement_congr (h : c.closing = c'.closing) : statement c = statement c' := by
  cases c; cases c'; cases h; rfl

theorem topLevelAssignment_congr (h : c.closing = c'.closing) :
    topLevelAssignment c = topLevelAssignment c' := by
  cases c; cases c'; cases h; rfl

theorem fileStarter_congr (h : c.closing = c'.closing) : fileStarter c = fileStarter c' := by
  cases c; cases c'; cases h; rfl

theorem header_congr (h : c.closing = c'.closing) (kind : NodeKind) :
    header kind c = header kind c' := by
  cases c; cases c'; cases h; rfl

theorem current_congr (h : c.closing = c'.closing) (s : Stand) : s.current c = s.current c' := by
  rw [Stand.current, Stand.current, h]

theorem advance_congr (h : c.closing = c'.closing) (s : Stand) : s.advance c = s.advance c' := by
  rw [Stand.advance, Stand.advance, current_congr h]

theorem missing_congr (h : c.closing = c'.closing) (what : String) (s : Stand) :
    Fault.missing what c s = Fault.missing what c' s := by
  rw [Fault.missing, Fault.missing, current_congr h]

theorem Gathered.congr (hf : f c = f c') (h : Gathered f c s xs after) :
    Gathered f c' s xs after := by
  induction h with
  | stop h => exact .stop (by rwa [← hf])
  | more hx _ ih => exact .more (by rwa [← hf]) ih

/-! ## Blocks -/

/-- A block of the stricter parse is the same in the other one, or spends the budget. -/
theorem Bodied.cut (h : c.Stricter limit c') (hc : c'.Closed) (hb : Bodied c s xs rs after)
    (hs : s.Open limit) :
    Bodied c' s xs rs after ∧ after.Open limit ∨
      after.Spent limit ∧ ∃ ys rs' last, Bodied c' s ys rs' last ∧ Begins xs ys := by
  have hcl := h.closing
  have hgathered : ∀ {s here : Stand} {xs : List Item}, Gathered statement c s xs here →
      s.Open limit → Gathered statement c' s xs here ∧ here.Open limit := fun hg hs =>
    ⟨hg.congr (statement_congr hcl), hs.of_goTo (hg.goTo quiet_statement [])⟩
  induction hb with
  | @closed s here xs hg hclose =>
    obtain ⟨hg', hopen⟩ := hgathered hg hs
    refine .inl ⟨?_, hopen.of_goTo (Stand.goTo_advance c here [])⟩
    rw [current_congr hcl] at hclose ⊢
    rw [advance_congr hcl]
    exact .closed hg' hclose
  | @unclosed s here xs hg hclose hleaves =>
    obtain ⟨hg', hopen⟩ := hgathered hg hs
    rw [current_congr hcl] at hclose hleaves
    have hunclosed := Bodied.unclosed hg' hclose hleaves
    rw [← current_congr hcl, ← missing_congr hcl] at hunclosed
    rcases hopen.keep h with ⟨hkeep, heq⟩ | hspent
    · exact .inl ⟨by rw [heq] at hunclosed; exact hunclosed, hkeep⟩
    · exact .inr ⟨hspent, _, _, _, hunclosed, begins_refl _⟩
  | @halted s here xs e hg hclose hleaves he hstop =>
    obtain ⟨hg', hopen⟩ := hgathered hg hs
    rw [current_congr hcl] at hclose hleaves
    rw [statement_congr hcl] at he
    refine .inr ⟨hopen.keep_of_stopped h hstop, ?_⟩
    by_cases hstop' : (here.keep c').stopped = true
    · exact ⟨_, _, _, .halted hg' hclose hleaves he hstop', begins_refl _⟩
    · have := Bodied.resumed hg' hclose hleaves he (Bool.eq_false_iff.2 hstop') (bodied_body hc _)
      exact ⟨_, _, _, this, (begins_append [e.item] _).behind xs⟩
  | @resumed s here after xs ys rs e hg hclose hleaves he hgo _ ih =>
    obtain ⟨hg', hopen⟩ := hgathered hg hs
    obtain ⟨hkeep, heq⟩ := hopen.keep_of_not_stopped h hgo
    rw [current_congr hcl] at hclose hleaves
    rw [statement_congr hcl] at he
    have hrestart : here.restart true c' = here.restart true c := by
      rw [Stand.restart, Stand.restart, heq]
    have hgo' : (here.keep c').stopped = false := by rw [heq, hgo]
    have hopen' : (here.restart true c).Open limit := ⟨hkeep.running, hkeep.mistakes_lt⟩
    rcases ih hopen' with ⟨hb', hlast⟩ | ⟨hspent, zs, rs', last, hb', hbegins⟩
    · exact .inl ⟨.resumed hg' hclose hleaves he hgo' (by rwa [hrestart]), hlast⟩
    · refine .inr ⟨hspent, _, _, _, .resumed hg' hclose hleaves he hgo' (by rwa [hrestart]), ?_⟩
      exact (hbegins.behind [e.item]).behind xs

/-! ## Routes -/

/-- Both parses come to the same with budget left, or the stricter one finds the beginning of what
the other finds and has spent its budget. -/
inductive Cut (limit : Nat) : Result → Result → Prop
  | same {r : Result} : (∀ x after, r = .found x after → after.Open limit) → Cut limit r r
  | short {x y : Item} {after last : Stand} : Begins [x] [y] → after.Spent limit →
      Cut limit (.found x after) (.found y last)

/-- The reading comes to a cut wherever budget is left. -/
def Thrifty (f : Reading) : Prop := ∀ {limit : Nat} {c c' : Context} {s : Stand},
  c.Stricter limit c' → c.Closed → s.Open limit → Cut limit (f c s) (f c' s)

theorem Cut.found (hs : after.Open limit) : Cut limit (.found x after) (.found x after) :=
  .same fun _ _ h => by cases h; exact hs

theorem cut_openBlock (h : c.Stricter limit c') (hc : c.Closed) (hs : s.Open limit) :
    Cut limit (.found (openBlock c s).1 (openBlock c s).2)
      (.found (openBlock c' s).1 (openBlock c' s).2) := by
  have hc' : c'.Closed := by rw [Context.Closed, ← h.closing]; exact hc
  have hadvance : (s.advance c).Open limit := hs.of_goTo (Stand.goTo_advance c s [])
  rw [openBlock, openBlock, ← advance_congr h.closing, ← current_congr h.closing]
  rcases (bodied_body hc (s.advance c)).cut h hc' hadvance with
    ⟨hb, hopen⟩ | ⟨hspent, ys, rs, last, hb, hbegins⟩
  · rw [hb.body_eq hc']
    exact .found hopen
  · rw [hb.body_eq hc']
    exact .short (hbegins.bundle rfl rfl (by simp)) hspent

theorem cut_routeFrom (h : c.Stricter limit c') (hc : c.Closed) {l : Label} (hl : l.kind ≠ .error)
    {hd : Header} (hs : hd.after.Open limit) :
    Cut limit (.found (routeFrom l c hd).1 (routeFrom l c hd).2)
      (.found (routeFrom l c' hd).1 (routeFrom l c' hd).2) := by
  -- a route with the same items before its block is cut where the block is
  have hblock : ∀ (m : Label) (xs : List Item) (u : Stand), m.kind ≠ .error → u.Open limit →
      Cut limit
        (.found (bundle (m.over (openBlock c u).1.label.range) (xs ++ [(openBlock c u).1]))
          (openBlock c u).2)
        (.found (bundle (m.over (openBlock c' u).1.label.range) (xs ++ [(openBlock c' u).1]))
          (openBlock c' u).2) := by
    intro m xs u hm hu
    have hcut := cut_openBlock h hc hu
    generalize openBlock c u = b at hcut ⊢
    generalize openBlock c' u = b' at hcut ⊢
    obtain ⟨b, last⟩ := b
    obtain ⟨b', last'⟩ := b'
    cases hcut with
    | same hopen => exact .found (hopen _ _ rfl)
    | short hbegins hspent =>
      exact .short ((hbegins.behind xs).bundle (by simp) (by simp) (by simpa)) hspent
  rw [routeFrom, routeFrom]
  cases hd.error with
  | none => exact hblock l [] hd.after hl hs
  | some e =>
    simp only
    by_cases hstop : (hd.after.keep c).stopped = true
    · rw [if_pos hstop]
      have hspent := hs.keep_of_stopped h hstop
      split
      · exact .short (begins_refl _) hspent
      · exact .short ((begins_append [e.item] _).bundle (l := l.widen e.range)
          (by simp) (by simp) (by rw [Label.kind_over]; exact hl)) hspent
    · obtain ⟨hopen, heq⟩ := hs.keep_of_not_stopped h (Bool.eq_false_iff.2 hstop)
      rw [heq, if_neg hstop, if_neg hstop]
      exact hblock (l.widen e.range) [e.item] _ hl hopen

theorem thrifty_of_quiet (hf : f.Quiet)
    (hcl : ∀ {c c' : Context}, c.closing = c'.closing → f c = f c') : f.Thrifty := by
  intro limit c c' s h _ hs
  rw [← hcl h.closing]
  exact .same fun x after hx => hs.of_goTo (hf.goTo hx [])

theorem thrifty_route : route.Thrifty := by
  intro limit c c' s h hc hs
  rw [route, route, ← current_congr h.closing, ← advance_congr h.closing]
  cases hkind : routeKind? (s.current c).token with
  | none =>
    simp only [missing_congr h.closing]
    exact .same fun _ _ h => by cases h
  | some kind =>
    obtain ⟨-, word, -, hword⟩ := kind_of_routeKind? hkind
    have hne := NodeKind.ne_error_of_outcome
      (NodeKind.outcome_of_isRoute (NodeKind.isRoute_ofRouteWord? hword))
    have hheader := headed_header kind c (s.advance c)
    have hopen : (header kind c (s.advance c)).after.Open limit :=
      hs.of_goTo ((hheader.goTo []).trans (Stand.goTo_advance c s []))
    simp only [← header_congr h.closing, ← current_congr h.closing, ← missing_congr h.closing]
    split
    · exact cut_routeFrom h hc hne hopen
    · exact .same fun _ _ h => by cases h

/-! ## Whole files -/

theorem thrifty_choice (hfs : ∀ f ∈ fs, f.Thrifty) : (choice fs).Thrifty := by
  intro limit c c' s h hc hs
  suffices key : ∀ failure : Result, failure.outcome ≠ .success →
      Cut limit (choiceFrom failure c s fs) (choiceFrom failure c' s fs) from
    key .nothing (by simp [Result.outcome])
  induction fs with
  | nil =>
    exact fun failure hfail => .same fun x after hx => absurd (congrArg Result.outcome hx) hfail
  | cons f fs ih =>
    intro failure hfail
    have hcut := hfs f List.mem_cons_self h hc hs
    have hrest := ih fun g hg => hfs g (List.mem_cons_of_mem _ hg)
    rw [choiceFrom, choiceFrom]
    generalize f c s = r, f c' s = r' at hcut
    cases hcut with
    | same hopen =>
      cases r with
      | found x after => exact .found (hopen _ _ rfl)
      | fault e => exact hrest (.fault e) (by simp [Result.outcome])
      | nothing => exact hrest failure hfail
    | short hbegins hspent => exact .short hbegins hspent

theorem thrifty_fileStarter : fileStarter.Thrifty :=
  thrifty_of_quiet takesOne_fileStarter.quiet fileStarter_congr

theorem thrifty_topLevelAssignment : topLevelAssignment.Thrifty :=
  thrifty_of_quiet quiet_topLevelAssignment topLevelAssignment_congr

theorem thrifty_construct : construct.Thrifty :=
  thrifty_choice (by simp [thrifty_fileStarter, thrifty_topLevelAssignment, thrifty_route])

theorem thrifty_diagnose (hr : r.outcome ≠ .success) : (diagnose r).Thrifty := by
  intro limit c c' s h hc hs
  unfold diagnose
  rw [← current_congr h.closing]
  split
  · exact thrifty_fileStarter h hc hs
  · exact thrifty_topLevelAssignment h hc hs
  · exact thrifty_topLevelAssignment h hc hs
  · exact thrifty_route h hc hs
  · cases r with
    | fault e =>
      rw [missing_congr h.closing]
      exact .same fun _ _ h => by cases h
    | nothing => exact .same fun _ _ h => by cases h
    | found => exact absurd rfl hr

theorem thrifty_topLevel : topLevel.Thrifty := by
  intro limit c c' s h hc hs
  rw [topLevel, topLevel, ← current_congr h.closing]
  split
  · exact .same fun _ _ h => by cases h
  have hcut := thrifty_construct h hc hs
  generalize construct c s = r, construct c' s = r' at hcut
  cases hcut with
  | same hopen =>
    cases r with
    | found x after => exact .found (hopen _ _ rfl)
    | fault e => exact thrifty_diagnose (by simp [Result.outcome]) h hc hs
    | nothing => exact thrifty_diagnose (by simp [Result.outcome]) h hc hs
  | short hbegins hspent => exact .short (hbegins.bundle rfl rfl (by simp)) hspent

theorem Gathered.cut (h : c.Stricter limit c') (hc : c.Closed)
    (hg : Gathered topLevel c s xs after) (hs : s.Open limit) :
    Gathered topLevel c' s xs after ∧ after.Open limit ∨
      after.Spent limit ∧ ∃ ys last, Gathered topLevel c' s ys last ∧ Begins xs ys := by
  have hc' : c'.Closed := by rw [Context.Closed, ← h.closing]; exact hc
  induction hg with
  | @stop s hstop =>
    have hcut := thrifty_topLevel h hc hs
    generalize hr : topLevel c s = r, hr' : topLevel c' s = r' at hcut
    cases hcut with
    | same => exact .inl ⟨.stop (by rwa [hr', ← hr]), hs⟩
    | short => exact absurd (by rw [hr]; rfl) hstop
  | @more s u after x xs hx hg ih =>
    have hcut := thrifty_topLevel h hc hs
    rw [hx] at hcut
    generalize hr' : topLevel c' s = r' at hcut
    cases hcut with
    | same hopen =>
      rcases ih (hopen _ _ rfl) with ⟨hg', hlast⟩ | ⟨hspent, ys, last, hg', hbegins⟩
      · exact .inl ⟨.more hr' hg', hlast⟩
      · exact .inr ⟨hspent, _, _, .more hr' hg', hbegins.behind [x]⟩
    | @short _ y _ last hbegins hspent =>
      -- nothing more is found once the parse has stopped
      cases hg with
      | stop =>
        refine .inr ⟨hspent, _, _, .more hr' (gathered_collect forward_topLevel hc' last), ?_⟩
        exact hbegins.followed _
      | more hx =>
        have := (topLevel_eq_found.1 hx).1
        simp [hspent.stopped] at this

/-- A file starts with what is found before its first mistake. -/
theorem Constructed.begins (hc : c.Closed) (h : Constructed c s ys after)
    (hg : Gathered topLevel c s xs u) : Begins xs ys := by
  have hunique : ∀ {zs : List Item} {v : Stand}, Gathered topLevel c s zs v → zs = xs := by
    intro zs v hzs
    have heq := hzs.collect_eq forward_topLevel hc
    rw [hg.collect_eq forward_topLevel hc] at heq
    exact (congrArg Prod.fst heq).symm
  cases h with
  | ended hzs => exact hunique hzs ▸ begins_refl _
  | halted hzs | resumed hzs => exact hunique hzs ▸ begins_append _ _

/-- A file of the stricter parse is the same in the other one, or spends the budget. -/
theorem Constructed.cut (h : c.Stricter limit c') (hc : c.Closed) (hf : Constructed c s xs after)
    (hs : s.Open limit) :
    Constructed c' s xs after ∧ after.Open limit ∨
      after.Spent limit ∧ ∃ ys last, Constructed c' s ys last ∧ Begins xs ys := by
  have hc' : c'.Closed := by rw [Context.Closed, ← h.closing]; exact hc
  -- where a mistake was met the parse had not stopped, and both met the same one
  have hmet : ∀ {s here : Stand} {xs : List Item} {e : Fault}, Gathered topLevel c s xs here →
      s.Open limit → ((here.current c).isEnd || here.stopped) = false →
      topLevel c here = .fault e → Gathered topLevel c' s xs here ∧ here.Open limit ∧
        ((here.current c').isEnd || here.stopped) = false ∧ topLevel c' here = .fault e := by
    intro s here xs e hg hs hend he
    rcases hg.cut h hc hs with ⟨hg', hopen⟩ | ⟨hspent, -⟩
    · refine ⟨hg', hopen, by rwa [← current_congr h.closing], ?_⟩
      have hcut := thrifty_topLevel h hc hopen
      rw [he] at hcut
      generalize topLevel c' here = r' at hcut
      cases hcut
      rfl
    · simp [hspent.stopped] at hend
  induction hf with
  | @ended s here xs hg hend =>
    rcases hg.cut h hc hs with ⟨hg', hopen⟩ | ⟨hspent, ys, last, hg', hbegins⟩
    · exact .inl ⟨.ended hg' (by rwa [← current_congr h.closing]), hopen⟩
    · have hf' := constructed_constructs hc' s
      refine .inr ⟨hspent, _, _, hf', fun depth => ?_⟩
      exact (hbegins depth).trans (hf'.begins hc' hg' depth)
  | @halted s here xs e hg hend he hstop =>
    obtain ⟨hg', hopen, hend', he'⟩ := hmet hg hs hend he
    refine .inr ⟨hopen.keep_of_stopped h hstop, ?_⟩
    by_cases hstop' : (here.keep c').stopped = true
    · exact ⟨_, _, .halted hg' hend' he' hstop', begins_refl _⟩
    · have := Constructed.resumed hg' hend' he' (Bool.eq_false_iff.2 hstop')
        (constructed_constructs hc' _)
      exact ⟨_, _, this, (begins_append [e.item] _).behind xs⟩
  | @resumed s here after xs ys e hg hend he hgo _ ih =>
    obtain ⟨hg', hopen, hend', he'⟩ := hmet hg hs hend he
    obtain ⟨hkeep, heq⟩ := hopen.keep_of_not_stopped h hgo
    have hrestart : here.restart false c' = here.restart false c := by
      rw [Stand.restart, Stand.restart, heq]
    have hgo' : (here.keep c').stopped = false := by rw [heq, hgo]
    have hopen' : (here.restart false c).Open limit := ⟨hkeep.running, hkeep.mistakes_lt⟩
    rcases ih hopen' with ⟨hf', hlast⟩ | ⟨hspent, zs, last, hf', hbegins⟩
    · exact .inl ⟨.resumed hg' hend' he' hgo' (by rwa [hrestart]), hlast⟩
    · refine .inr ⟨hspent, _, _, .resumed hg' hend' he' hgo' (by rwa [hrestart]), ?_⟩
      exact (hbegins.behind [e.item]).behind xs

/-- The item of a file with these items before its end. -/
def file (closing : LocatedToken) (xs : List Item) : Item :=
  .covered .root (xs ++ [((Node.ofKind .endOfInput).withRange closing.range).alone])

/-- The stricter parse ends with the mistake that reaches the limit, and finds the beginning of what
the other finds up to the end; or it keeps fewer mistakes, and finds the same. -/
theorem cut_script (h : c.Stricter limit c') (hc : c.Closed) (hs : s.Open limit) :
    ∃ xs ys, (script c s).1 = file c.closing xs ∧ (script c' s).1 = file c.closing ys ∧
      Begins xs ys ∧ ((script c s).2.mistakes = limit ∨
        (script c s).2.mistakes < limit ∧ xs = ys) := by
  have hc' : c'.Closed := by rw [Context.Closed, ← h.closing]; exact hc
  refine ⟨(constructs c s).1, (constructs c' s).1, rfl, by rw [h.closing]; rfl, ?_⟩
  change _ ∧ ((constructs c s).2.mistakes = limit ∨ (constructs c s).2.mistakes < limit ∧ _)
  rcases (constructed_constructs hc s).cut h hc hs with
    ⟨hf, hopen⟩ | ⟨hspent, ys, last, hf, hbegins⟩
  · rw [hf.constructs_eq hc']
    exact ⟨begins_refl _, .inr ⟨hopen.mistakes_lt, rfl⟩⟩
  · rw [hf.constructs_eq hc']
    exact ⟨hbegins, .inl hspent.mistakes_eq⟩

end Reading
end Grammar
end RouteScript
