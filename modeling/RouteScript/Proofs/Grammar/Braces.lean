import RouteScript.Proofs.Grammar.Kept
import RouteScript.Proofs.Grammar.Sound
/-!
# Blocks that hold anything

Between the braces of a block may stand any tokens whose own braces are in pairs, as long as none of
them means that the brace of the block went missing. What is wrong with them is kept inside the
block: a statement takes no brace along, and a restart comes to a place from where the braces are in
pairs again, so that the brace of the block is never taken for another.
-/
namespace RouteScript.Grammar

open Item

variable {c : Context} {s after : Stand} {ts us rest : List LocatedToken}
  {t closing : LocatedToken} {xs : List Item} {rs : List ByteRange}

/-- Tokens with their braces in pairs. -/
inductive Braced : List LocatedToken → Prop
  | nil : Braced []
  | plain {t : LocatedToken} {ts : List LocatedToken} : t.kind ≠ .leftBrace →
      t.kind ≠ .rightBrace → Braced ts → Braced (t :: ts)
  | nested {opening closing : LocatedToken} {ts us : List LocatedToken} :
      opening.kind = .leftBrace → Braced ts → closing.kind = .rightBrace → Braced us →
      Braced (opening :: (ts ++ closing :: us))

namespace Braced

theorem tail (hleft : t.kind ≠ .leftBrace) (h : Braced (t :: ts)) : Braced ts := by
  cases h with
  | plain _ _ h => exact h
  | nested hopen => exact absurd hopen hleft

/-- The first of the tokens closes no brace. -/
theorem head_ne (h : Braced (t :: ts)) : t.kind ≠ .rightBrace := by
  cases h with
  | plain _ hright => exact hright
  | nested hopen => exact hopen.trans_ne (by decide)

/-- Tokens that are no braces make no difference to the pairs of what follows. -/
theorem of_append (h : ∀ t ∈ ts, t.kind ≠ .leftBrace) (hb : Braced (ts ++ us)) : Braced us := by
  induction ts with
  | nil => exact hb
  | cons t ts ih =>
    obtain ⟨hleft, hts⟩ := List.forall_mem_cons.1 h
    exact ih hts (hb.tail hleft)

end Braced

/-! ## Restarts -/

theorem kind_of_leavesBlock (h : leavesBlock t = false) :
    t.kind ≠ .endOfInput ∧ t.kind ≠ .route ∧ t.kind ≠ .directive := by
  simp only [leavesBlock, Bool.or_eq_false_iff, decide_eq_false_iff_not] at h
  refine ⟨fun hkind => ?_, h.1.2, h.2⟩
  have hend : t.isEnd = true := decide_eq_true hkind
  exact absurd (h.1.1.symm.trans hend) (by decide)

/-- A token that is no brace is skipped on the way, but for a semicolon outside of braces. -/
theorem restartFrom_plain (ht : leavesBlock t = false) (hleft : t.kind ≠ .leftBrace)
    (hright : t.kind ≠ .rightBrace) (inBlock : Bool) (depth : Nat) (first : Bool) :
    restartFrom inBlock depth first (t :: rest) =
      if t.kind = .semicolon ∧ depth = 0 then rest else restartFrom inBlock depth false rest := by
  obtain ⟨hend, hroute, hdirective⟩ := kind_of_leavesBlock ht
  rw [restartFrom]
  split
  · contradiction
  · contradiction
  · contradiction
  · contradiction
  · contradiction
  · rename_i hkind
    simp [hkind]
  · rename_i hkind
    rw [if_neg fun h => hkind h.1]

theorem restartFrom_leftBrace (ht : t.kind = .leftBrace) (inBlock : Bool) (depth : Nat)
    (first : Bool) :
    restartFrom inBlock depth first (t :: rest) = restartFrom inBlock (depth + 1) false rest := by
  rw [restartFrom, ht]

theorem restartFrom_rightBrace (ht : t.kind = .rightBrace) (depth : Nat) (first : Bool) :
    restartFrom true (depth + 1) first (t :: rest) = restartFrom true depth false rest := by
  rw [restartFrom, ht]
  simp

/-- Inside of a brace a restart skips tokens with their braces in pairs. -/
theorem Braced.restart_inside (h : Braced ts) : (∀ t ∈ ts, leavesBlock t = false) →
    ∀ depth rest, restartFrom true (depth + 1) false (ts ++ rest) =
      restartFrom true (depth + 1) false rest := by
  induction h with
  | nil => exact fun _ _ _ => rfl
  | plain hleft hright _ ih =>
    intro hstays depth rest
    obtain ⟨ht, hts⟩ := List.forall_mem_cons.1 hstays
    rw [List.cons_append, restartFrom_plain ht hleft hright, if_neg (by simp), ih hts]
  | nested hopen _ hclose _ ih ih' =>
    intro hstays depth rest
    simp only [List.forall_mem_cons, List.forall_mem_append] at hstays
    obtain ⟨-, hts, -, hus⟩ := hstays
    rw [List.cons_append, List.append_assoc, List.cons_append, restartFrom_leftBrace hopen, ih hts,
      restartFrom_rightBrace hclose, ih' hus]

/-- Before the brace of the block, a restart comes to a place from where the braces are in pairs,
further on than where it began. -/
theorem Braced.restart (rest : List LocatedToken) (hclosing : closing.kind = .rightBrace)
    (h : Braced ts) :
    (∀ t ∈ ts, leavesBlock t = false) → ∀ first : Bool, (first = true → ts ≠ []) →
      ∃ us, restartFrom true 0 first (ts ++ closing :: rest) = us ++ closing :: rest ∧
        Braced us ∧ us <:+ ts ∧ (ts ≠ [] → us.length < ts.length) := by
  induction h with
  | nil =>
    intro _ first hfirst
    have hfirst : first = false := Bool.eq_false_iff.2 fun h => hfirst h rfl
    refine ⟨[], ?_, .nil, List.suffix_refl _, fun h => absurd rfl h⟩
    rw [List.nil_append, restartFrom, hclosing, hfirst]
    simp
  | @plain t ts hleft hright hb ih =>
    intro hstays first _
    obtain ⟨ht, hts⟩ := List.forall_mem_cons.1 hstays
    rw [List.cons_append, restartFrom_plain ht hleft hright]
    by_cases hsemicolon : t.kind = .semicolon
    · exact ⟨ts, by simp [hsemicolon], hb, List.suffix_cons t ts, fun _ => Nat.lt_succ_self _⟩
    · obtain ⟨us, heq, hus, hsuffix, hlt⟩ := ih hts false (by simp)
      refine ⟨us, by rw [if_neg fun h => hsemicolon h.1, heq], hus,
        hsuffix.trans (List.suffix_cons t ts), fun _ => ?_⟩
      exact Nat.lt_succ_of_le hsuffix.length_le
  | @nested o d ts us hopen hb hclose _ _ ih' =>
    intro hstays first _
    simp only [List.forall_mem_cons, List.forall_mem_append] at hstays
    obtain ⟨-, hts, -, hus⟩ := hstays
    obtain ⟨vs, heq, hvs, hsuffix, -⟩ := ih' hus false (by simp)
    have hsuffix' : us <:+ o :: (ts ++ d :: us) :=
      (List.suffix_cons d us).trans ((List.suffix_append ts _).trans (List.suffix_cons o _))
    refine ⟨vs, ?_, hvs, hsuffix.trans hsuffix', fun _ => ?_⟩
    · rw [List.cons_append, List.append_assoc, List.cons_append, restartFrom_leftBrace hopen,
        hb.restart_inside hts, restartFrom_rightBrace hclose, heq]
    · have := hsuffix.length_le
      simp only [List.length_cons, List.length_append]
      omega

/-! ## What is read inside -/

/-- No brace is part of a statement. -/
theorem Derives.Statements.kind_ne {tokens : List Token} (h : Derives.Statements tokens xs) :
    ∀ t ∈ tokens, t.kind ≠ .leftBrace ∧ t.kind ≠ .rightBrace := by
  have hvariable : ∀ {role : String} {t : Token} {x : Item}, Derives.Variable role t x →
      t.kind ≠ .leftBrace ∧ t.kind ≠ .rightBrace := by
    rintro _ _ _ (_ | _) <;> simp
  have htarget : ∀ {t : Token} {x : Item}, Derives.Target t x →
      t.kind ≠ .leftBrace ∧ t.kind ≠ .rightBrace := by
    rintro _ _ (_ | h)
    · simp [Token.ofText]
    · exact hvariable h
  have hvalue : ∀ {t : Token} {x : Item}, Derives.Value t x →
      t.kind ≠ .leftBrace ∧ t.kind ≠ .rightBrace := by
    rintro _ _ (_ | _ | h)
    · simp
    · simp [Token.ofText]
    · exact hvariable h
  induction h with
  | nil => simp
  | cons hx hclosing _ ih =>
    obtain ⟨hleft, hop, hright⟩ := hx
    simp only [List.cons_append, List.nil_append, List.forall_mem_cons]
    exact ⟨htarget hleft, ⟨hop.trans_ne (by decide), hop.trans_ne (by decide)⟩, hvalue hright,
      ⟨hclosing.trans_ne (by decide), hclosing.trans_ne (by decide)⟩, ih⟩

/-- Tokens none of which is of the kind of the brace are passed before it. -/
theorem exists_append_of_kind_ne {p : List LocatedToken}
    (h : ts ++ closing :: rest = us ++ p) (hus : ∀ t ∈ us, t.kind ≠ closing.kind) :
    ∃ vs, ts = us ++ vs ∧ p = vs ++ closing :: rest := by
  rcases List.append_eq_append_iff.1 h with ⟨vs, rfl, hvs⟩ | ⟨vs, rfl, rfl⟩
  · cases vs with
    | nil => exact ⟨[], by simp, by simpa using hvs.symm⟩
    | cons v vs =>
      obtain rfl : closing = v := (List.cons.inj hvs).1
      exact absurd rfl (hus closing (by simp))
  · exact ⟨vs, rfl, rfl⟩

namespace Reading

theorem stopped_keep_of_lt (hrecover : c.options.recover = true) (hgoing : s.stopped = false)
    (hlt : s.mistakes + 1 < c.options.maxErrors) : (s.keep c).stopped = false := by
  simp [Stand.keep, hrecover, hgoing, hlt]

/-- The parse stands inside a block: before its brace come `ts`, with their own braces in pairs, and
none of them means that the brace went missing. -/
structure Enclosed (closing : LocatedToken) (rest ts : List LocatedToken) (s : Stand) : Prop where
  pending : s.pending = ts ++ closing :: rest
  scanned : s.Scanned
  braced : Braced ts
  stays : ∀ t ∈ ts, leavesBlock t = false

namespace Enclosed

/-- The current token is the brace of the block only if nothing comes before that. -/
theorem eq_nil_iff (h : Enclosed closing rest ts s) (hclosing : closing.kind = .rightBrace) :
    (s.current c).kind = .rightBrace ↔ ts = [] := by
  rw [Stand.current, h.pending]
  cases ts with
  | nil => exact iff_of_true hclosing rfl
  | cons t us => exact iff_of_false h.braced.head_ne (List.cons_ne_nil t us)

theorem current_stays (h : Enclosed closing rest ts s) (hne : ts ≠ []) :
    leavesBlock (s.current c) = false := by
  obtain ⟨t, us, rfl⟩ := List.exists_cons_of_ne_nil hne
  rw [Stand.current, h.pending]
  exact h.stays t List.mem_cons_self

/-- Behind its brace the parse has left the block. -/
theorem pending_advance (h : Enclosed closing rest [] s) (hclosing : closing.kind = .rightBrace) :
    (s.advance c).pending = rest := by
  rw [Stand.advance, Stand.current, h.pending]
  simp [isEnd_eq_false hclosing (by decide)]

/-- Statements take no brace along. -/
theorem statements (h : Enclosed closing rest ts s) (hc : c.Closed)
    (hclosing : closing.kind = .rightBrace) (hg : Gathered statement c s xs after) :
    ∃ us, us.length ≤ ts.length ∧ Enclosed closing rest us after := by
  obtain ⟨ps, hp, hd⟩ := hg.derives_statements hc h.scanned
  have hps : ∀ t ∈ ps, t.kind ≠ .leftBrace ∧ t.kind ≠ .rightBrace := fun t ht =>
    hd.kind_ne _ (List.mem_map_of_mem ht)
  obtain ⟨us, rfl, hus⟩ := exists_append_of_kind_ne (h.pending.symm.trans hp.pending)
    fun t ht => hclosing ▸ (hps t ht).2
  exact ⟨us, by simp, hus, hp.scanned h.scanned, h.braced.of_append fun t ht => (hps t ht).1,
    fun t ht => h.stays t (List.mem_append_right ps ht)⟩

/-- A restart stays inside the block, further on than where it began. -/
theorem restart (h : Enclosed closing rest ts s) (hclosing : closing.kind = .rightBrace)
    (hne : ts ≠ []) :
    ∃ us, us.length < ts.length ∧ Enclosed closing rest us (s.restart true c) := by
  obtain ⟨us, hus, hbraced, hsuffix, hshorter⟩ :=
    h.braced.restart rest hclosing h.stays true fun _ => hne
  have hpending : (s.restart true c).pending = us ++ closing :: rest := by
    rw [← hus, ← h.pending]
    rfl
  refine ⟨us, hshorter hne, hpending, fun t ht => ?_, hbraced,
    fun t ht => h.stays t (hsuffix.subset ht)⟩
  exact h.scanned t ((suffix_restart true c s).subset ht)

end Enclosed

/-- A block ends with its brace, whatever stands before it with its own braces in pairs, and keeps
at most as many mistakes as there are tokens. -/
theorem Bodied.contained (hc : c.Closed) (hclosing : closing.kind = .rightBrace)
    (hrecover : c.options.recover = true) (h : Bodied c s xs rs after) :
    ∀ {ts : List LocatedToken}, Enclosed closing rest ts s → s.stopped = false →
      s.mistakes + ts.length < c.options.maxErrors →
      after.pending = rest ∧ after.stopped = false ∧
        ∀ x ∈ xs, x.Clean ∨ ∃ e : Fault, x = e.item := by
  induction h with
  | @closed s here xs hg hclose =>
    intro ts hts hgoing _
    obtain ⟨us, -, hus⟩ := hts.statements hc hclosing hg
    obtain rfl := (hus.eq_nil_iff hclosing).1 hclose
    have hstopped := Stand.stopped_of_goTo (hg.goTo quiet_statement [])
    exact ⟨hus.pending_advance hclosing, by rw [Stand.stopped_advance, hstopped, hgoing],
      fun x hx => .inl (hg.clean_statements x hx)⟩
  | unclosed hg hclose hleaves =>
    intro ts hts _ _
    obtain ⟨us, -, hus⟩ := hts.statements hc hclosing hg
    have hne := mt (hus.eq_nil_iff hclosing).2 hclose
    exact absurd (hleaves.symm.trans (hus.current_stays hne)) (by decide)
  | @halted s here xs e hg hclose _ _ hstop =>
    intro ts hts hgoing hlt
    obtain ⟨us, hle, hus⟩ := hts.statements hc hclosing hg
    have hpos := List.length_pos_iff.2 (mt (hus.eq_nil_iff hclosing).2 hclose)
    have hmistakes := Stand.mistakes_of_goTo (hg.goTo quiet_statement [])
    have hstopped := Stand.stopped_of_goTo (hg.goTo quiet_statement [])
    rw [stopped_keep_of_lt hrecover (hstopped.trans hgoing) (by omega)] at hstop
    cases hstop
  | @resumed s here after xs ys rs e hg hclose _ _ hgo _ ih =>
    intro ts hts _ hlt
    obtain ⟨us, hle, hus⟩ := hts.statements hc hclosing hg
    obtain ⟨vs, hshorter, hvs⟩ :=
      hus.restart (c := c) hclosing (mt (hus.eq_nil_iff hclosing).2 hclose)
    have hmistakes := Stand.mistakes_of_goTo (hg.goTo quiet_statement [])
    have hkept : (here.restart true c).mistakes = here.mistakes + 1 := rfl
    obtain ⟨hafter, hstopped, hys⟩ := ih hvs hgo (by omega)
    exact ⟨hafter, hstopped, List.forall_mem_append.2
      ⟨fun x hx => .inl (hg.clean_statements x hx), List.forall_mem_cons.2 ⟨.inr ⟨e, rfl⟩, hys⟩⟩⟩

end Reading
end RouteScript.Grammar
