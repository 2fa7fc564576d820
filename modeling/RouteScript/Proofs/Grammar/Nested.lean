import RouteScript.Proofs.Grammar.Faults
import RouteScript.Proofs.Grammar.Placed
/-!
# Ranges inside ranges

Whatever is read of a source lies where it hangs. Most nodes have the range around their children,
which holds them whatever their order. A block is the exception: its range goes from brace to brace,
or to the mistakes in it, and what stands between lies there because tokens are read in order.

Without a mistake, all of it also stands in order: of two items below the same one, the first ends
before the second begins. With mistakes this fails, since a mistake may lie at a token that is read
all the same. A route without a name, say, keeps the brace of its block as the mistake, and its
block begins at that brace.
-/
namespace RouteScript.Grammar

open Item

variable {c : Context} {s u after : Stand} {x : Item} {xs : List Item} {e : Fault}
  {low high : Nat} {rs : List ByteRange} {kind : NodeKind} {h : Reading.Header} {l : Label}
  {here : List LocatedToken}

namespace Reading

/-! ## Blocks -/

theorem lies_fault (hin : e.range.Inside ⟨low, high⟩) : Lies ⟨low, high⟩ e.item :=
  .intro rfl hin (by intro y hy; cases hy)

/-- A fault at a token that is ahead. -/
theorem inside_of_at (ha : Ahead c low s.pending high) (hhere : here <:+ s.pending)
    (hat : e.At c here) : e.range.Inside ⟨low, high⟩ := by
  rw [hat]
  exact (ha.suffix hhere).head_inside

/-- Statements lie before the end of any token that is ahead then. -/
theorem Gathered.lies_before (hg : Gathered statement c s xs u) (hc : c.Closed)
    (ha : Ahead c low s.pending high) (hhere : here <:+ u.pending) :
    (here.headD c.closing).range.Inside ⟨low, high⟩ ∧
      ∀ x ∈ xs, Lies ⟨low, (here.headD c.closing).range.stop⟩ x := by
  obtain ⟨mid, hrow, ha⟩ := hg.row_of_statements hc ha
  have hr := (ha.suffix hhere).head_inside
  refine ⟨⟨Nat.le_trans hrow.le hr.start_le, hr.valid, hr.le_stop⟩, fun x hx => ?_⟩
  exact (hrow.stands x hx).lies.mono (Nat.le_refl _) (Nat.le_trans hr.start_le hr.valid)

/-- Statements and the fault behind them lie before the end of that fault. -/
theorem Gathered.lies_with_fault (hg : Gathered statement c s xs u) (hc : c.Closed)
    (ha : Ahead c low s.pending high) (hhere : here <:+ u.pending) (hat : e.At c here) :
    e.range.Inside ⟨low, high⟩ ∧ ∀ x ∈ xs ++ [e.item], Lies ⟨low, e.range.stop⟩ x := by
  obtain ⟨hr, hxs⟩ := hg.lies_before hc ha hhere
  rw [← hat] at hr hxs
  refine ⟨hr, List.forall_mem_append.2 ⟨hxs, List.forall_mem_singleton.2 ?_⟩⟩
  exact lies_fault ⟨hr.start_le, hr.valid, Nat.le_refl _⟩

/-- What is read of a block lies before the end of one of the ranges that its own is widened by. -/
theorem Bodied.lies (hc : c.Closed) (h : Bodied c s xs rs after) :
    Ahead c low s.pending high →
      (∀ r ∈ rs, r.Inside ⟨low, high⟩) ∧ ∀ x ∈ xs, ∃ r ∈ rs, Lies ⟨low, r.stop⟩ x := by
  induction h with
  | @closed s here xs hg =>
    intro ha
    obtain ⟨hr, hxs⟩ := hg.lies_before hc ha List.suffix_rfl
    exact ⟨List.forall_mem_singleton.2 hr, fun x hx => ⟨_, List.mem_singleton_self _, hxs x hx⟩⟩
  | @unclosed s here xs hg =>
    intro ha
    have hat : (Fault.missing "\x7d" c here).At c here.pending := rfl
    obtain ⟨hr, hxs⟩ := hg.lies_with_fault hc ha List.suffix_rfl hat
    exact ⟨List.forall_mem_singleton.2 hr, fun x hx => ⟨_, List.mem_singleton_self _, hxs x hx⟩⟩
  | @halted s here xs e hg _ _ he =>
    intro ha
    have hscanned := (ha.suffix (hg.suffix onward_statement hc)).scanned
    obtain ⟨there, hthere, hat, -⟩ := (behind_statement hc hscanned he).restart true
    obtain ⟨hr, hxs⟩ := hg.lies_with_fault hc ha hthere hat
    exact ⟨List.forall_mem_singleton.2 hr, fun x hx => ⟨_, List.mem_singleton_self _, hxs x hx⟩⟩
  | @resumed s here after xs ys rs e hg _ _ he _ _ ih =>
    intro ha
    have hgathered := hg.suffix onward_statement hc
    obtain ⟨there, hthere, hat, -⟩ :=
      (behind_statement hc (ha.suffix hgathered).scanned he).restart true
    obtain ⟨hr, hxs⟩ := hg.lies_with_fault hc ha hthere hat
    obtain ⟨hrs, hys⟩ := ih (ha.suffix ((suffix_restart true c here).trans hgathered))
    rw [List.append_cons]
    refine ⟨List.forall_mem_cons.2 ⟨hr, hrs⟩, List.forall_mem_append.2 ⟨fun x hx => ?_, ?_⟩⟩
    · exact ⟨_, List.mem_cons_self, hxs x hx⟩
    · intro y hy
      obtain ⟨r, hr, hlies⟩ := hys y hy
      exact ⟨r, List.mem_cons_of_mem _ hr, hlies⟩

/-- A block holds what is read after its brace. -/
theorem lies_openBlock (hc : c.Closed) (hbrace : (s.current c).kind = .leftBrace)
    (ha : Ahead c low s.pending high) : Lies ⟨low, high⟩ (openBlock c s).1 := by
  have hopen := ha.current_inside
  have hend := isEnd_eq_false (t := s.current c) hbrace (by decide)
  obtain ⟨hrs, hxs⟩ := (bodied_body hc (s.advance c)).lies hc (ha.advance hc hend)
  generalize hbody : body c (s.advance c) = b at hrs hxs
  have hranges : ∀ r ∈ (s.current c).range :: b.ranges,
      r.Inside ⟨(s.current c).range.start, high⟩ :=
    List.forall_mem_cons.2 ⟨⟨Nat.le_refl _, hopen.valid, hopen.le_stop⟩, fun r hr =>
      ⟨Nat.le_trans hopen.valid (hrs r hr).start_le, (hrs r hr).valid, (hrs r hr).le_stop⟩⟩
  obtain ⟨hall, hmem⟩ := ByteRange.inside_foldl_join hranges
  obtain ⟨hfirst, hmem⟩ := List.forall_mem_cons.1 hmem
  rw [openBlock, hbody]
  refine .intro (by rw [label_bundle]) ⟨?_, hall.valid, hall.le_stop⟩ fun x hx => ?_
  · exact Nat.le_trans hopen.start_le hall.start_le
  · rw [children_bundle] at hx
    obtain ⟨r, hr, hlies⟩ := hxs x hx
    exact hlies.mono (Nat.le_trans hfirst.start_le hfirst.valid) (hmem r hr).le_stop

/-- A block without a mistake ends with its brace. -/
theorem placed_openBlock (hc : c.Closed) (hbrace : (s.current c).kind = .leftBrace)
    (ha : Ahead c low s.pending high) (hclean : (openBlock c s).1.Clean) :
    Placed c low (openBlock c s).1 (openBlock c s).2 high := by
  have hlies := lies_openBlock hc hbrace ha
  have hinner := ha.advance hc (isEnd_eq_false hbrace (by decide))
  have hbody := bodied_body hc (s.advance c)
  rw [openBlock] at hlies hclean ⊢
  generalize body c (s.advance c) = b at hlies hclean hbody ⊢
  obtain ⟨items, ranges, last⟩ := b
  obtain ⟨here, hg, hclose, rfl, rfl⟩ := hbody.closed_of_clean (clean_bundle.1 hclean).2
  simp only at hlies hg ⊢
  obtain ⟨mid, hrow, hahead⟩ := hg.row_of_statements hc hinner
  have hend := hahead.current_inside
  have hstop := Nat.le_trans hrow.le (Nat.le_trans hend.start_le hend.valid)
  refine ⟨(here.current c).range.stop, ⟨hlies.narrow (by rw [label_bundle]) ?_, hrow.ordered _⟩,
    hahead.advance hc (isEnd_eq_false hclose (by decide))⟩
  exact Nat.max_le.2 ⟨hstop, Nat.le_refl _⟩

/-! ## Routes -/

/-- The mistake in a header lies at a token that was ahead. -/
theorem Headed.error_inside (hh : Headed kind c s h) (hc : c.Closed)
    (ha : Ahead c low s.pending high) (he : h.error = some e) : e.range.Inside ⟨low, high⟩ := by
  cases hh with
  | named | nameless => cases he
  | unnamed =>
    cases he
    exact ha.current_inside
  | misnamed hopen hname =>
    cases he
    obtain ⟨here, hhere, hat, -⟩ := at_routeName hc ha.scanned hopen hname
    exact inside_of_at ha hhere hat

theorem lies_routeFrom (hc : c.Closed) (hword : Lies ⟨low, high⟩ (bundle l []))
    (he : ∀ e, h.error = some e → e.range.Inside ⟨low, high⟩)
    (hbrace : (h.after.current c).kind = .leftBrace) (ha : Ahead c low h.after.pending high) :
    Lies ⟨low, high⟩ (routeFrom l c h).1 := by
  rw [routeFrom]
  cases herror : h.error with
  | none => exact hword.push (lies_openBlock hc hbrace ha)
  | some e =>
    have hkept : Lies ⟨low, high⟩ (bundle (l.widen e.range) [e.item]) :=
      hword.push (lies_fault (he e herror))
    simp only
    split
    · exact hkept
    · exact hkept.push (lies_openBlock (s := h.after.keep c) hc hbrace ha)

theorem lies_route (hc : c.Closed) (ha : Ahead c low s.pending high)
    (hx : route c s = .found x after) : Lies ⟨low, high⟩ x := by
  obtain ⟨kind, hkind, hbrace, hx⟩ := route_eq_found.1 hx
  rw [show x = (routeFrom _ c (header kind c (s.advance c))).1 from congrArg (·.1) hx]
  have hword := ha.current_inside
  have hh := headed_header kind c (s.advance c)
  have hahead := ha.suffix (Stand.suffix_advance c s)
  exact lies_routeFrom hc (.intro rfl hword (by simp)) (fun e he => hh.error_inside hc hahead he)
    hbrace (hahead.suffix hh.suffix)

/-- A route without a mistake ends with its block. -/
theorem placed_route (hc : c.Closed) (ha : Ahead c low s.pending high)
    (hx : route c s = .found x after) (hclean : x.Clean) : Placed c low x after high := by
  obtain ⟨kind, hkind, hbrace, hx⟩ := route_eq_found.1 hx
  have hword := ha.current_inside
  have hend := isEnd_eq_false (kind_of_routeKind? hkind).1 (by decide)
  have hahead := (ha.advance hc hend).suffix (headed_header kind c (s.advance c)).suffix
  generalize header kind c (s.advance c) = h at hbrace hx hahead
  obtain ⟨role, error, here⟩ := h
  obtain ⟨rfl, rfl⟩ : x = _ ∧ after = _ := Prod.ext_iff.1 hx
  obtain rfl : error = none := error_of_clean hclean
  simp only [routeFrom] at hclean ⊢
  obtain ⟨mid, hblock, hlast⟩ :=
    placed_openBlock hc hbrace hahead (List.forall_mem_singleton.1 (clean_list.1 hclean).2)
  have hopening : Lies ⟨low, mid⟩ (bundle ⟨kind, role, some (s.current c).range⟩ []) :=
    .intro rfl ⟨hword.start_le, hword.valid, hblock.le⟩ (by simp)
  refine ⟨mid, ⟨hopening.push ?_, ?_⟩, hlast⟩
  · exact hblock.lies.mono (Nat.le_trans hword.start_le hword.valid) (Nat.le_refl _)
  · exact .list (List.pairwise_singleton _ _) (List.forall_mem_singleton.2 hblock.ordered)

/-! ## Whole files -/

theorem lies_topLevel (hc : c.Closed) (ha : Ahead c low s.pending high)
    (hx : topLevel c s = .found x after) : Lies ⟨low, high⟩ x := by
  obtain ⟨-, y, hy, rfl⟩ := topLevel_eq_found.1 hx
  refine lies_covered (by simp) (List.forall_mem_singleton.2 ?_)
  rcases construct_eq_found.1 hy with hy | ⟨-, hy | ⟨-, hy⟩⟩
  · exact (placed_fileStarter hc ha hy).lies
  · exact (placed_topLevelAssignment hc ha hy).lies
  · exact lies_route hc ha hy

theorem Gathered.lies_topLevel (hc : c.Closed) (h : Gathered topLevel c s xs after)
    (ha : Ahead c low s.pending high) : ∀ x ∈ xs, Lies ⟨low, high⟩ x := by
  induction h with
  | stop => simp
  | more hx _ ih =>
    have hrest := ih (ha.suffix (onward_topLevel c _ _ _ hc hx))
    exact List.forall_mem_cons.2 ⟨Reading.lies_topLevel hc ha hx, hrest⟩

theorem Constructed.lies (hc : c.Closed) (h : Constructed c s xs after)
    (ha : Ahead c low s.pending high) : ∀ x ∈ xs, Lies ⟨low, high⟩ x := by
  have hfault : ∀ {s here : Stand} {xs : List Item} {e : Fault}, Gathered topLevel c s xs here →
      topLevel c here = .fault e → Ahead c low s.pending high → Lies ⟨low, high⟩ e.item := by
    intro s here xs e hg he ha
    have hahead := ha.suffix (hg.suffix onward_topLevel hc)
    obtain ⟨there, hthere, hat, -⟩ := met_topLevel hc hahead.scanned he
    exact lies_fault (inside_of_at hahead hthere hat)
  induction h with
  | ended hg => exact hg.lies_topLevel hc ha
  | halted hg _ he =>
    exact List.forall_mem_append.2
      ⟨hg.lies_topLevel hc ha, List.forall_mem_singleton.2 (hfault hg he ha)⟩
  | @resumed s here after xs ys e hg _ he _ _ ih =>
    have hrest := ha.suffix ((suffix_restart false c here).trans (hg.suffix onward_topLevel hc))
    exact List.forall_mem_append.2
      ⟨hg.lies_topLevel hc ha, List.forall_mem_cons.2 ⟨hfault hg he ha, ih hrest⟩⟩

/-- Whatever is read of a source lies in it, and what is below an item lies in its range. -/
theorem lies_script (hc : c.Closed) (ha : Ahead c low s.pending high) :
    Lies ⟨low, high⟩ (script c s).1 := by
  have hconstructed := constructed_constructs hc s
  rw [script]
  generalize constructs c s = found at hconstructed ⊢
  have hclosing := (ha.suffix (List.nil_suffix)).head_inside
  refine lies_covered (by simp) (List.forall_mem_append.2 ⟨hconstructed.lies hc ha, ?_⟩)
  exact List.forall_mem_singleton.2 (.intro rfl hclosing (by intro y hy; cases hy))

theorem placed_topLevel (hc : c.Closed) (ha : Ahead c low s.pending high)
    (hx : topLevel c s = .found x after) (hclean : x.Clean) : Placed c low x after high := by
  obtain ⟨-, y, hy, rfl⟩ := topLevel_eq_found.1 hx
  have hyclean : y.Clean := (clean_list.1 hclean).2 y (by simp)
  have hplaced : Placed c low y after high := by
    rcases construct_eq_found.1 hy with hy | ⟨-, hy | ⟨-, hy⟩⟩
    · exact placed_fileStarter hc ha hy
    · exact placed_topLevelAssignment hc ha hy
    · exact placed_route hc ha hy hyclean
  obtain ⟨mid, hstands, ha⟩ := hplaced
  exact ⟨mid, hstands.inRow.covered (by simp) _, ha⟩

/-- Whatever is read of a source without a mistake stands in order. -/
theorem stands_script (hc : c.Closed) (ha : Ahead c low s.pending high)
    (hclean : (script c s).1.Clean) : Stands low (script c s).1 high := by
  have hconstructed := constructed_constructs hc s
  rw [script] at hclean ⊢
  generalize constructs c s = found at hconstructed hclean ⊢
  have hxs := (List.forall_mem_append.1 (clean_bundle.1 hclean).2).1
  obtain ⟨hg, -⟩ := hconstructed.ended_of_clean hxs
  obtain ⟨mid, hrow, hahead⟩ :=
    hg.inRow (fun hx ha h => placed_topLevel hc ha h (hxs _ hx)) ha
  have hclosing := (hahead.suffix (List.nil_suffix)).head_inside
  have hlast : Stands mid ((Node.ofKind .endOfInput).withRange c.closing.range).alone high :=
    ⟨.intro rfl hclosing (by intro y hy; cases hy), .bare⟩
  exact (hrow.append hlast.inRow).covered (by simp) _

end Reading
end RouteScript.Grammar
