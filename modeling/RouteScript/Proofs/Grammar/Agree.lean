import RouteScript.Proofs.Grammar.Combine
import RouteScript.Proofs.Grammar.Loops
/-!
# What the rules read

Every rule of the grammar comes to what its reading says. The leaves are tokens, one by one; above
them it follows from the combinators, and for the loops of blocks and files by induction on what
they come to.
-/
namespace RouteScript.Grammar

variable {c : Context} {s s₁ s₂ : State} {id n p f : NodeId} {l : Label} {x y op : Item}
  {xs ys : List Item}

/-! ## Single tokens -/

/-- A node that is made once the current token is read. -/
theorem comes_token (hs : s.Ready) (node : Node) (hids : node.payload.ids = [])
    (hparent : node.parent = none) (hkind : node.kind.outcome = .success) (c : Context) :
    Comes s (.found node.alone (s.stand.advance c)) (newNode node c (s.advance c)).1
      (newNode node c (s.advance c)).2 := by
  have hb := built_newNode (s := s.advance c) hs.sound node hids hparent c
  refine .found ⟨hb.grows, hb.top, hb.refusals⟩ ?_ ((stand_setTree ..).trans (stand_advance c s))
  rw [Node.alone, Item.label_build]
  exact hkind

theorem reads_oneOf {kind : TokenKind} (what : String) {node : Token → Node}
    (h : ∀ t, (node t).payload.ids = [] ∧ (node t).parent = none ∧
      (node t).kind.outcome = .success) :
    Reads (oneOf kind what node) (.take (Reading.oneItem? kind node) (.missing what)) := by
  intro c s hc hs
  simp only [oneOf, bind_run, takeIf?_run, Reading.take, Reading.oneItem?]
  by_cases hkind : (s.stand.current c).kind = kind
  · simp only [hkind, if_true]
    obtain ⟨hids, hparent, hout⟩ := h (s.stand.current c).token
    exact comes_token hs ((node _).withRange _) hids hparent hout c
  · simp only [hkind, if_false]
    exact reads_missing what c s hc hs

theorem reads_identifier : Reads identifier .identifier :=
  reads_oneOf "identifier" fun _ => ⟨rfl, rfl, rfl⟩

theorem reads_string : Reads string .string := reads_oneOf "string" fun _ => ⟨rfl, rfl, rfl⟩

theorem reads_assignOperator : Reads assignOperator .assignOperator :=
  reads_oneOf "=" fun _ => ⟨rfl, rfl, rfl⟩

theorem reads_terminator : Reads terminator .terminator := reads_oneOf ";" fun _ => ⟨rfl, rfl, rfl⟩

theorem reads_number : Reads number .number := by
  intro c s hc hs
  simp only [number, bind_run, current_run, Reading.number, Reading.take]
  cases hx : Reading.numberItem? (s.stand.current c) with
  | some x =>
    obtain ⟨k, hkind, hlit, rfl⟩ := Reading.numberItem?_eq_some.1 hx
    simp only [hkind, hlit, bind_run, readToken_run]
    exact comes_token hs _ rfl rfl rfl c
  | none =>
    cases hkind : (s.stand.current c).kind
    case integer =>
      cases hlit : (s.stand.current c).token.literal
      case integer k =>
        rw [Reading.numberItem?_eq_some.2 ⟨k, hkind, hlit, rfl⟩] at hx
        cases hx
      all_goals exact reads_missing "number" c s hc hs
    all_goals exact reads_missing "number" c s hc hs

theorem reads_fileStarter : Reads fileStarter .fileStarter := by
  intro c s hc hs
  simp only [fileStarter, bind_run, current_run, Reading.fileStarter, Reading.take]
  cases hx : Reading.fileStarterItem? (s.stand.current c) with
  | some x =>
    obtain ⟨name, hkind, hlit, hname, rfl⟩ := Reading.fileStarterItem?_eq_some.1 hx
    simp only [hkind, hlit, hname, if_true, bind_run, readToken_run]
    exact comes_token hs _ rfl rfl rfl c
  | none =>
    cases hkind : (s.stand.current c).kind
    case directive =>
      cases hlit : (s.stand.current c).token.literal
      case text name =>
        have hname : name ∉ dialects := fun hname => by
          rw [Reading.fileStarterItem?_eq_some.2 ⟨name, hkind, hlit, hname, rfl⟩] at hx
          cases hx
        simp only [hname, if_false]
        exact reads_missing "file starter" c s hc hs
      all_goals exact reads_missing "file starter" c s hc hs
    all_goals exact reads_missing "file starter" c s hc hs

theorem reads_coreVariable : Reads coreVariable .coreVariable := by
  intro c s hc hs
  simp only [coreVariable, bind_run, current_run, ↓ite_run, Reading.coreVariable, Reading.take,
    Reading.coreVariableItem?, Reading.variableFault]
  by_cases hend : (s.stand.current c).isEnd = true
  · simp only [hend, if_true]
    exact reads_missing "core variable" c s hc hs
  simp only [hend, Bool.false_eq_true, if_false]
  cases hlit : (s.stand.current c).token.literal with
  | coreVariable family name =>
    simp only
    cases hkind : variableKind? family with
    | none => exact .fault (built_newNode hs.sound _ rfl rfl c) rfl
    | some kind =>
      simp only [bind_run, readToken_run, pure_run, Option.map_some]
      have hvariable : Built (s.advance c) _ (.bundle ⟨kind, none, some _⟩ []) _ := built_newNode
        (s := s.advance c) hs.sound
        ((Node.ofKind kind).withRange (s.stand.current c).range) rfl rfl c
      have hname := built_newNode hvariable.sound
        ((Node.leaf .identifier (.text name)).withRange (s.stand.current c).range) rfl rfl c
      have hb := hvariable.attach hname (fun h => NodeKind.noConfusion h) c
      refine .found ⟨hb.grows, hb.top, hb.refusals⟩ (NodeKind.outcome_of_isCoreVariable
        (NodeKind.isCoreVariable_variableKind? hkind)) ?_
      rw [stand_attach]
      exact stand_advance c s
  | _ => exact reads_missing "core variable" c s hc hs

theorem reads_target : Reads target .target :=
  reads_orMissing (reads_choice (.cons reads_identifier (.cons reads_coreVariable .nil))) _

theorem reads_value : Reads value .value :=
  reads_orMissing
    (reads_choice (.cons reads_number (.cons reads_string (.cons reads_coreVariable .nil)))) _

theorem reads_name : Reads (choice [identifier, number, string])
    (.choice [.identifier, .number, .string]) :=
  reads_choice (.cons reads_identifier (.cons reads_number (.cons reads_string .nil)))

/-! ## Assignments and statements -/

/-- Changing the label of a child of what was built. -/
theorem Built.relabel_child (hs : s.tree.Sound) (h : Built s n x s₁) {change : Node → Node}
    (hc : Tree.Relabels change) {ids : List NodeId}
    (hn : (s₁.tree.node n).payload = .children ids) (hp : p ∈ ids) :
    Built s n (.list x.label (ids.map fun d => if d = p
        then (s₁.tree.item p).withLabel (change (s₁.tree.node p)).label else s₁.tree.item d))
      { s₁ with tree := s₁.tree.modify p change } := by
  have hs₁ := h.sound
  have hpn : p ∈ s₁.tree.childIds n := by rwa [Tree.childIds, hn, Payload.ids_children]
  have hparent := (hs₁.linked n p).1 hpn
  have hlow : s.tree.size ≤ p := by
    by_contra hlt
    rw [h.grows.keeps p (Nat.lt_of_not_le hlt)] at hparent
    exact absurd (hs.parent_lt_size hparent) (Nat.not_lt.2 h.top.low_le)
  refine ⟨h.grows.transBut (Tree.growsBut_relabel hs₁ hc (Tree.lt_size_of_parent hparent)) hlow,
    ⟨h.top.low_le, ?_, ?_, ?_⟩, h.refusals⟩
  · rw [Tree.size_modify]
    exact h.top.lt_size
  · rw [hc.sameLinks.1.parent, h.top.parent]
  · rw [← h.label, Tree.item_relabel_child hs₁ hc hn hp]

/-- Giving a role to a child of what was built. -/
theorem Built.role_child (hs : s.tree.Sound) (h : Built s n x s₁) {ids : List NodeId}
    (hn : (s₁.tree.node n).payload = .children ids) (hp : p ∈ ids) (role : String) :
    Built s n (.list x.label (ids.map fun d => if d = p then (s₁.tree.item p).withRole role
      else s₁.tree.item d)) { s₁ with tree := s₁.tree.setRole p role } := by
  rw [Item.withRole, Tree.label_item h.sound]
  exact h.relabel_child hs (Tree.relabels_role role) hn hp

/-- The children of what was built. -/
theorem Built.children (h : Built s n (.list l xs) s₁) :
    ∃ ids, (s₁.tree.node n).payload = .children ids ∧ ids.map s₁.tree.item = xs ∧ ids.Nodup := by
  have hitem := (Tree.item_eq h.sound n).symm.trans h.top.item
  cases hpayload : (s₁.tree.node n).payload with
  | children ids =>
    rw [hpayload, Item.build, Item.list.injEq] at hitem
    have honce := h.sound.once n
    rw [Tree.childIds, hpayload, Payload.ids_children] at honce
    exact ⟨ids, rfl, hitem.2, honce⟩
  | _ => rw [hpayload] at hitem; cases hitem

/-- Marking the sides of what was built. -/
theorem Built.markSides (hs : s.tree.Sound) (h : Built s n (.list l [x, op, y]) s₁) :
    Built s n (.list l [x.withRole "left", op, y.withRole "right"])
      { s₁ with tree := markSides s₁.tree n } := by
  obtain ⟨ids, hpayload, hitems, honce⟩ := h.children
  match ids, hitems with
  | [p, q, r], hitems =>
    simp only [List.nodup_cons, List.mem_cons, List.not_mem_nil, or_false, not_or] at honce
    obtain ⟨⟨hpq, hpr⟩, hqr, -⟩ := honce
    have hleft := h.role_child hs hpayload (p := p) (by simp) "left"
    simp only [List.map_cons, List.map_nil, if_true, if_neg (Ne.symm hpq), if_neg (Ne.symm hpr),
      List.cons.injEq, and_true] at hleft hitems
    obtain ⟨rfl, rfl, rfl⟩ := hitems
    obtain ⟨ids', hpayload', hitems', -⟩ := hleft.children
    have hsame : ids' = [p, q, r] := by
      have hlinks : Tree.SameLinks s₁.tree (s₁.tree.setRole p "left") :=
        (Tree.relabels_role "left").sameLinks.1
      exact Payload.children.inj (hpayload'.symm.trans ((hlinks.payload n).trans hpayload))
    rw [hsame] at hpayload' hitems'
    simp only [List.map_cons, List.map_nil, List.cons.injEq, and_true] at hitems'
    have hright := hleft.role_child hs hpayload' (p := r) (by simp) "right"
    simp only [List.map_cons, List.map_nil, if_true, if_neg hpr, if_neg hqr, hitems'] at hright
    have hmark : Grammar.markSides s₁.tree n = (s₁.tree.setRole p "left").setRole r "right" := by
      rw [Grammar.markSides, Tree.children, hpayload, Payload.ordered]
    rw [hmark]
    exact hright

theorem reads_operands : Reads (sequence .assignment [target, assignOperator, value]) .operands :=
  reads_sequence rfl (.cons ⟨reads_target, Reading.takesOne_target.quiet⟩
    (.cons ⟨reads_assignOperator, Reading.takesOne_assignOperator.quiet⟩
      (.cons ⟨reads_value, Reading.takesOne_value.quiet⟩ .nil)))

theorem reads_assignment : Reads assignment .assignment := by
  intro c s hc hs
  have step := reads_operands c s hc hs
  simp only [assignment, Reading.assignment, bind_run, outcomeOf_run, step.outcome hs]
  generalize sequence .assignment [target, assignOperator, value] c s = found at step ⊢
  obtain ⟨id, s₁⟩ := found
  cases hf : Reading.operands c s.stand with
  | nothing => exact absurd hf (Reading.definite_operands c s.stand)
  | fault e =>
    rw [hf] at step
    exact step
  | found x after =>
    rw [hf] at step
    obtain ⟨left, op, right, -, -, -, rfl, -⟩ := Reading.operands_eq_found.1 hf
    cases step with
    | found hb hx hst =>
      exact .found (hb.markSides hs.sound) rfl hst

theorem reads_statement : Reads statement .statement :=
  reads_sequence rfl (.cons ⟨reads_assignment, Reading.quiet_assignment⟩
    (.cons ⟨reads_terminator, Reading.takesOne_terminator.quiet⟩ .nil))

theorem reads_topLevelAssignment : Reads topLevelAssignment .topLevelAssignment := by
  intro c s hc hs
  have step := reads_assignment c s hc hs
  simp only [topLevelAssignment, Reading.topLevelAssignment, bind_run, outcomeOf_run,
    step.outcome hs]
  generalize assignment c s = found at step ⊢
  obtain ⟨id, s₁⟩ := found
  cases hf : Reading.assignment c s.stand with
  | nothing => exact absurd hf (Reading.definite_assignment c s.stand)
  | fault e =>
    rw [hf] at step
    exact step
  | found x after =>
    rw [hf] at step
    cases step with
    | found hb hx hst =>
      subst hst
      have hs₁ := hs.of_grows hb.grows
      have close := reads_terminator c s₁ hc hs₁
      simp only [Result.outcome, bind_run, pure_run, optional, outcomeOf_run, close.outcome hs₁]
      generalize terminator c s₁ = closing at close ⊢
      obtain ⟨closingId, s₂⟩ := closing
      cases hz : Reading.terminator c s₁.stand with
      | found z last =>
        rw [hz] at close
        cases close with
        | found hbz hz hst =>
          refine .found ((hb.trans hbz).widenOver hbz.range c) ?_ ?_
          · rw [Item.label_widenOver, Label.kind_over, hx]
          · exact (stand_widenOver id closingId c s₂).trans hst
      | nothing | fault e =>
        rw [hz] at close
        have hnothing := (hs₁.of_grows close.grows).nothing
        simp only [nothing, pure_run, widenOver, bind_run, nodeOf_run, hnothing]
        have hst := close.stand (by simp [Result.outcome])
        exact .found (hb.later close.grows close.refusals) hx hst

/-! ## Blocks -/

/-- All that a rule finds becomes the last items of what was built before. -/
theorem Built.adopt_many {rule : Rule} {g : Reading} {here : Stand} (hs : s.Ready) (hc : c.Closed)
    (h : Built s n (.bundle l xs) s₁) (hrule : Reads rule g) (hg : g.Forward)
    (hys : g.Gathered c s₁.stand ys here) (kind : NodeKind) :
    ∃ s₂, adoptChildren n (many kind rule c s₁).1 c (many kind rule c s₁).2 = ((), s₂) ∧
      Built s n (.bundle l (xs ++ ys)) s₂ ∧ s₂.stand = here := by
  have hmany := many_run hrule kind hc (hs.of_grows h.grows)
  rw [hys.collect_eq hg hc] at hmany
  exact ⟨_, rfl, h.adopt hmany.1 c, hmany.2⟩

/-- The label of a block. -/
def blockLabel (r : ByteRange) : Label := ⟨.block, none, some r⟩

/-- A mistake is kept in a block whose range was widened over it. -/
theorem Built.keep_fault {e : Fault} {r : ByteRange} (h : Built s n (.bundle (blockLabel r) xs) s₁)
    (k : Comes s₁ (.fault e) f s₂) (c : Context) :
    ∃ s₃, keepMistake n f c (Grammar.widenOver n f c s₂).2 = ((), s₃) ∧
      Built s n (.bundle (blockLabel (r.join e.range)) (xs ++ [e.item])) s₃ ∧
      s₃.stand = s₁.stand.keep c := by
  cases k with
  | fault hb hst =>
    refine ⟨(keepMistake n f c (Grammar.widenOver n f c s₂).2).2, rfl,
      h.widen_keep hb e.kind_ne_empty c, ?_⟩
    rw [stand_keepMistake, stand_widenOver, hst]

/-- A round of a block that does not close it, once the statements are in it. -/
theorem blockRound_mistake {error : NodeId × State} {s₃ : State}
    (hadopt : adoptChildren n (many .block statement c s₁).1 c (many .block statement c s₁).2 =
      ((), s₂)) (hclose : (s₂.stand.current c).kind ≠ .rightBrace)
    (hrun : (if leavesBlock (s₂.stand.current c) then missing "\x7d" c s₂ else statement c s₂) =
      error) (hkeep : keepMistake n error.1 c (widenOver n error.1 c error.2).2 = ((), s₃)) :
    blockRound n c s₁ =
      if leavesBlock (s₂.stand.current c) || s₃.stand.stopped then (false, s₃)
      else (true, { s₃ with pending := restartFrom true 0 true s₃.pending }) := by
  simp only [blockRound, bind_run, hadopt, takeIf?_run, if_neg hclose, ↓ite_run, current_run,
    isStopped_run, pure_run, restart, get_run, moveTo_run]
  by_cases hleaves : leavesBlock (s₂.stand.current c) = true
  · rw [if_pos hleaves] at hrun ⊢
    simp only [hrun, hkeep]
  · rw [if_neg hleaves] at hrun ⊢
    simp only [hrun, hkeep]

/-- Where the parse stands once the tokens after a kept mistake are skipped. -/
theorem stand_restart {here : Stand} (h : s.stand = here.keep c) (inBlock : Bool) :
    State.stand { s with pending := restartFrom inBlock 0 true s.pending } =
      here.restart inBlock c := by
  have hpending : s.pending = here.pending := congrArg Stand.pending h
  rw [stand_setPending, h, hpending]
  rfl

section Rounds

variable {here after u : Stand} {r : ByteRange} {rs : List ByteRange} {e : Fault}

/-- A round of a block that closes it. -/
theorem blockRound_closed (hc : c.Closed) (hs : s.Ready)
    (hb : Built s n (.bundle (blockLabel r) xs) s₁)
    (hg : Reading.statement.Gathered c s₁.stand ys here)
    (hclose : (here.current c).kind = .rightBrace) :
    ∃ s₂, blockRound n c s₁ = (false, s₂) ∧
      Built s n (.bundle (blockLabel (r.join (here.current c).range)) (xs ++ ys)) s₂ ∧
      s₂.stand = here.advance c := by
  obtain ⟨s₂, hadopt, hb₂, hst⟩ :=
    hb.adopt_many hs hc reads_statement Reading.forward_statement hg .block
  have hb₃ : Built s n _ (s₂.advance c) := hb₂.congr rfl rfl
  have hwide := hb₃.widen (here.current c).range c
  rw [Item.label_bundle, Item.withLabel_bundle] at hwide
  refine ⟨_, ?_, hwide, by rw [stand_widen, stand_advance, hst]⟩
  simp only [blockRound, bind_run, hadopt, takeIf?_run, hst, hclose, if_true, pure_run]

/-- A round of a block that finds its brace missing. -/
theorem blockRound_unclosed (hc : c.Closed) (hs : s.Ready)
    (hb : Built s n (.bundle (blockLabel r) xs) s₁)
    (hg : Reading.statement.Gathered c s₁.stand ys here)
    (hclose : (here.current c).kind ≠ .rightBrace) (hleaves : leavesBlock (here.current c) = true) :
    ∃ s₂, blockRound n c s₁ = (false, s₂) ∧
      Built s n (.bundle (blockLabel (r.join (here.current c).range))
        (xs ++ (ys ++ [(Fault.missing "\x7d" c here).item]))) s₂ ∧
      s₂.stand = here.keep c := by
  obtain ⟨s₂, hadopt, hb₂, rfl⟩ :=
    hb.adopt_many hs hc reads_statement Reading.forward_statement hg .block
  have step := reads_missing "\x7d" c s₂ hc (hs.of_grows hb₂.grows)
  obtain ⟨s₃, hkeep, hb₃, hst⟩ := hb₂.keep_fault step c
  have hround := blockRound_mistake hadopt hclose (if_pos hleaves) hkeep
  rw [hleaves, Bool.true_or, if_pos rfl] at hround
  rw [List.append_assoc] at hb₃
  exact ⟨s₃, hround, hb₃, hst⟩

/-- A round of a block that keeps the mistake of a statement. -/
theorem blockRound_fault (hc : c.Closed) (hs : s.Ready)
    (hb : Built s n (.bundle (blockLabel r) xs) s₁)
    (hg : Reading.statement.Gathered c s₁.stand ys here)
    (hclose : (here.current c).kind ≠ .rightBrace) (hleaves : leavesBlock (here.current c) = false)
    (he : Reading.statement c here = .fault e) :
    ∃ s₂, blockRound n c s₁ =
        (if (here.keep c).stopped then (false, s₂)
        else (true, { s₂ with pending := restartFrom true 0 true s₂.pending })) ∧
      Built s n (.bundle (blockLabel (r.join e.range)) (xs ++ (ys ++ [e.item]))) s₂ ∧
      s₂.stand = here.keep c := by
  obtain ⟨s₂, hadopt, hb₂, rfl⟩ :=
    hb.adopt_many hs hc reads_statement Reading.forward_statement hg .block
  have step := reads_statement c s₂ hc (hs.of_grows hb₂.grows)
  rw [he] at step
  obtain ⟨s₃, hkeep, hb₃, hst⟩ := hb₂.keep_fault step c
  have hround := blockRound_mistake hadopt hclose (if_neg (Bool.eq_false_iff.1 hleaves)) hkeep
  rw [hst, hleaves, Bool.false_or] at hround
  rw [List.append_assoc] at hb₃
  exact ⟨s₃, hround, hb₃, hst⟩

/-- The rounds of a block build what its body says. -/
theorem blockRounds_run (hc : c.Closed) (hs : s.Ready)
    (hbody : Reading.Bodied c u ys rs after) : ∀ {s₁ : State} {r : ByteRange} {xs : List Item},
      s₁.stand = u → Built s n (.bundle (blockLabel r) xs) s₁ →
      Built s n (.bundle (blockLabel (rs.foldl ByteRange.join r)) (xs ++ ys))
          (whileAdvancing (blockRound n) c s₁).2 ∧
        (whileAdvancing (blockRound n) c s₁).2.stand = after := by
  induction hbody with
  | @closed u here ys hg hclose =>
    rintro s₁ r xs rfl hb
    obtain ⟨s₂, hround, hb₂, hst⟩ := blockRound_closed hc hs hb hg hclose
    rw [whileAdvancing_of_stop hround]
    exact ⟨hb₂, hst⟩
  | @unclosed u here ys hg hclose hleaves =>
    rintro s₁ r xs rfl hb
    obtain ⟨s₂, hround, hb₂, hst⟩ := blockRound_unclosed hc hs hb hg hclose hleaves
    rw [whileAdvancing_of_stop hround]
    exact ⟨hb₂, hst⟩
  | @halted u here ys e hg hclose hleaves he hstop =>
    rintro s₁ r xs rfl hb
    obtain ⟨s₂, hround, hb₂, hst⟩ := blockRound_fault hc hs hb hg hclose hleaves he
    rw [if_pos hstop] at hround
    rw [whileAdvancing_of_stop hround]
    exact ⟨hb₂, hst⟩
  | @resumed u here after ys zs rs e hg hclose hleaves he hstop _ ih =>
    rintro s₁ r xs rfl hb
    obtain ⟨s₂, hround, hb₂, hst⟩ := blockRound_fault hc hs hb hg hclose hleaves he
    rw [hstop, if_neg (by decide)] at hround
    have hrestart := stand_restart hst true
    have hlt := length_restart_lt hc (Reading.isEnd_of_leavesBlock hleaves) true
    rw [whileAdvancing_of_more hround, List.foldl_cons]
    · have := ih hrestart (hb₂.congr rfl rfl)
      rwa [List.append_assoc, List.append_assoc] at this
    · rw [hrestart]
      exact Nat.lt_of_lt_of_le hlt (hg.suffix Reading.onward_statement hc).length_le

end Rounds

theorem reads_block : Reads block .block := by
  intro c s hc hs
  rw [Reading.block]
  by_cases hopen : (s.stand.current c).kind = .leftBrace
  swap
  · rw [if_neg hopen]
    simp only [block, bind_run, takeIf?_run, if_neg hopen]
    exact reads_missing "\x7b" c s hc hs
  rw [if_pos hopen]
  simp only [block, bind_run, takeIf?_run, if_pos hopen, pure_run]
  have hnew : Built (s.advance c) _ (.bundle (blockLabel (s.stand.current c).range) []) _ :=
    built_newNode (s := s.advance c) hs.sound
      ((Node.ofKind .block).withRange (s.stand.current c).range) rfl rfl c
  have hready : (s.advance c).Ready := ⟨hs.sound, hs.pos, hs.nothing⟩
  obtain ⟨hb, hst⟩ := blockRounds_run hc hready (Reading.bodied_body hc (s.advance c).stand)
    (stand_setTree ..) hnew
  rw [stand_advance] at hb hst
  refine .found ⟨hb.grows, hb.top, hb.refusals⟩ ?_ hst
  rw [Reading.openBlock, Item.label_bundle]
  rfl

/-! ## Routes -/

/-- A mistake at the current token, with the cursor put back to where it was in `s`. -/
theorem comes_missingFrom (hg : s.tree.Grows s₁.tree) (hr : s₁.refusals = s.refusals)
    (hback : s₁.stand.goTo s.pending = s.stand) (what : String) (c : Context) :
    Comes s (.fault (.missing what c s₁.stand)) (missingFrom s.pending what c s₁).1
      (missingFrom s.pending what c s₁).2 := by
  have hb := (built_newNode hg.sound (Fault.missing what c s₁.stand).node rfl rfl c).earlier hg hr
  exact .fault (hb.congr rfl rfl) hback

theorem reads_routeName : Reads routeName .routeName := by
  intro c s hc hs
  rw [Reading.routeName]
  by_cases hopen : (s.stand.current c).kind = .leftBracket
  swap
  · rw [if_neg hopen]
    simp only [routeName, bind_run, get_run, takeIf?_run, if_neg hopen]
    exact reads_missing "[" c s hc hs
  rw [if_pos hopen]
  have hready : (s.advance c).Ready := ⟨hs.sound, hs.pos, hs.nothing⟩
  have step := reads_name c (s.advance c) hc hready
  simp only [routeName, bind_run, get_run, takeIf?_run, if_pos hopen, outcomeOf_run,
    step.outcome hready, stand_advance]
  generalize choice [identifier, number, string] c (s.advance c) = found at step ⊢
  obtain ⟨id, s₁⟩ := found
  have hgrows : s.tree.Grows s₁.tree := step.grows
  have hrefusals : s₁.refusals = s.refusals := step.refusals
  rw [stand_advance] at step
  cases hf : Reading.choice [.identifier, .number, .string] c (s.stand.advance c) with
  | nothing | fault e =>
    rw [hf] at step
    have hst : s₁.stand = s.stand.advance c :=
      (step.stand (by simp [Result.outcome])).trans (stand_advance c s)
    have := comes_missingFrom hgrows hrefusals (by rw [hst, Stand.goTo_advance]; rfl)
      "route name" c
    rwa [hst] at this
  | found x after =>
    rw [hf] at step
    cases step with
    | found hb hx hst =>
      subst hst
      simp only [Result.outcome, bind_run, takeIf?_run]
      by_cases hclose : (s₁.stand.current c).kind = .rightBracket
      · simp only [if_pos hclose, pure_run]
        exact .found ⟨hgrows, hb.top, hrefusals⟩ hx (stand_advance c s₁)
      · simp only [if_neg hclose]
        refine comes_missingFrom hgrows hrefusals ?_ "]" c
        obtain ⟨-, hafter⟩ := (Reading.takesOne_name.found ..).1 hf
        rw [hafter, Stand.goTo_advance, Stand.goTo_advance]
        rfl

/-! ## Routes with their names -/

theorem scalar?_item {t : Tree} (hs : t.Sound) (id : NodeId) :
    (t.item id).scalar? = (t.node id).scalar? := by
  rw [Tree.item_eq hs, Node.scalar?]
  cases (t.node id).payload <;> rfl

/-- Reading the name of a route that was built. -/
theorem readName_run {kind : NodeKind} {h : Reading.Header} {r : ByteRange} (hc : c.Closed)
    (hs : s.Ready) (hb : Built s n (.bundle ⟨kind, none, some r⟩ []) s₁)
    (hh : Reading.Headed kind c s₁.stand h) :
    ∃ error s₂, readName n kind c s₁ = (error, s₂) ∧ s₂.stand = h.after ∧
      match h.error with
      | none => error = none ∧ Built s n (.bundle ⟨kind, h.role, some r⟩ []) s₂
      | some e => h.role = none ∧ ∃ id, error = some id ∧ Built s₁ id e.item s₂ := by
  have hs₁ := hs.of_grows hb.grows
  have step := reads_routeName c s₁ hc hs₁
  have hout := step.outcome hs₁
  cases hh with
  | @named after x hname =>
    have hopen := (Reading.routeName_eq_found.1 hname).1
    simp only [readName, bind_run, current_run, ↓ite_run, if_pos hopen, outcomeOf_run, hout, hname,
      nodeOf_run, pure_run, Result.outcome]
    generalize routeName c s₁ = found at step ⊢
    obtain ⟨id, s₂⟩ := found
    rw [hname] at step
    cases step with
    | found hbx hx hst =>
      have hrole : ((s₂.tree.node id).scalar?.map Scalar.display).getD "" = Reading.nameRole x := by
        rw [← scalar?_item hbx.sound, hbx.top.item]
        rfl
      rw [hrole]
      exact ⟨none, _, rfl, hst, rfl, (hb.trans hbx).setRole (Reading.nameRole x) c⟩
  | @misnamed e hopen hname =>
    simp only [readName, bind_run, current_run, ↓ite_run, if_pos hopen, outcomeOf_run, hout, hname,
      pure_run, Result.outcome, skipName, get_run, moveTo_run]
    generalize routeName c s₁ = found at step ⊢
    obtain ⟨id, s₂⟩ := found
    rw [hname] at step
    cases step with
    | fault hbe hst =>
      have hpending : s₂.pending = s₁.pending := congrArg Stand.pending hst
      refine ⟨some id, _, rfl, ?_, trivial, id, rfl, hbe.congr rfl rfl⟩
      rw [stand_setPending, hst, hpending]
      rfl
  | unnamed hkind hopen =>
    simp only [readName, bind_run, current_run, ↓ite_run, if_neg hopen, if_pos hkind, pure_run]
    exact ⟨_, _, rfl, rfl, trivial, _, rfl, built_newNode hs₁.sound _ rfl rfl c⟩
  | nameless hkind hopen =>
    simp only [readName, bind_run, current_run, ↓ite_run, if_neg hopen, if_neg hkind, pure_run]
    exact ⟨none, s₁, rfl, rfl, rfl, hb⟩

/-- The block of a route, as the last item of what was built before. -/
theorem Built.routeBody (hs : s.Ready) (hc : c.Closed) (h : Built s n (.bundle l xs) s₁)
    (hopen : (s₁.stand.current c).kind = .leftBrace) {b : Item × Stand}
    (hb : Reading.openBlock c s₁.stand = b) :
    Built s n (.bundle (l.over b.1.label.range) (xs ++ [b.1])) (routeBody n c s₁).2 ∧
      (Grammar.routeBody n c s₁).2.stand = b.2 := by
  subst hb
  have step := reads_block c s₁ hc (hs.of_grows h.grows)
  rw [Reading.block, if_pos hopen] at step
  simp only [Grammar.routeBody, bind_run]
  generalize block c s₁ = found at step ⊢
  obtain ⟨id, s₂⟩ := found
  cases step with
  | found hb hx hst =>
    refine ⟨h.attach_widen hb (NodeKind.ne_empty_of_outcome hx) c, ?_⟩
    rw [stand_widenOver, stand_attach, hst]

/-- Once its braces open, a route keeps the mistake in its name and, unless the parse stops over it,
takes its body. -/
theorem comes_routeFrom {kind : NodeKind} {h : Reading.Header} {r : ByteRange}
    {error : Option NodeId} (hc : c.Closed) (hs : s.Ready)
    (hnew : Built s n (.bundle ⟨kind, none, some r⟩ []) s₁) (hst : s₂.stand = h.after)
    (hname : match h.error with
      | none => error = none ∧ Built s n (.bundle ⟨kind, h.role, some r⟩ []) s₂
      | some e => h.role = none ∧ ∃ id, error = some id ∧ Built s₁ id e.item s₂)
    (hsuccess : kind.outcome = .success) (hopen : (h.after.current c).kind = .leftBrace) :
    let rest : Rule := do
      if ← keepNameError n error then routeBody n
      return n
    Comes s (.found (Reading.routeFrom ⟨kind, h.role, some r⟩ c h).1
      (Reading.routeFrom ⟨kind, h.role, some r⟩ c h).2) (rest c s₂).1 (rest c s₂).2 := by
  intro rest
  simp only [rest, Reading.routeFrom]
  cases he : h.error with
  | none =>
    rw [he] at hname
    obtain ⟨rfl, hb⟩ := hname
    simp only [keepNameError, bind_run, ↓ite_run, pure_run, if_true]
    generalize hblock : Reading.openBlock c h.after = b
    obtain ⟨hbuilt, hlast⟩ := hb.routeBody hs hc (by rw [hst]; exact hopen) (hst ▸ hblock)
    refine .found hbuilt ?_ hlast
    rw [Item.label, Label.kind_over]
    exact hsuccess
  | some e =>
    rw [he] at hname
    obtain ⟨hrole, id, rfl, hbe⟩ := hname
    have hkeep := hnew.keep_widen hbe e.kind_ne_empty c
    rw [show e.item.label.range = some e.range from rfl, Label.over, List.nil_append] at hkeep
    have hkept : (widenOver n id c (keepMistake n id c s₂).2).2.stand = h.after.keep c := by
      rw [stand_widenOver, stand_keepMistake, hst]
    simp only [keepNameError, bind_run, ↓ite_run, isStopped_run, pure_run, hkept]
    by_cases hstop : (h.after.keep c).stopped = true
    · simp only [hstop, Bool.not_true, Bool.false_eq_true, if_false, if_true, hrole]
      exact .found hkeep hsuccess hkept
    · simp only [hstop, Bool.not_false, if_true, Bool.false_eq_true, if_false, hrole]
      generalize hblock : Reading.openBlock c (h.after.keep c) = b
      obtain ⟨hbuilt, hlast⟩ :=
        hkeep.routeBody hs hc (by rw [hkept]; exact hopen) (hkept ▸ hblock)
      refine .found hbuilt ?_ hlast
      rw [Item.label, Label.kind_over]
      exact hsuccess

theorem reads_route : Reads route .route := by
  intro c s hc hs
  rw [Reading.route]
  simp only [route, bind_run, current_run]
  cases hkind : routeKind? (s.stand.current c).token with
  | none => exact reads_missing "route" c s hc hs
  | some kind =>
    have hready : (s.advance c).Ready := ⟨hs.sound, hs.pos, hs.nothing⟩
    have hnew : Built (s.advance c) _ (.bundle ⟨kind, none, some _⟩ []) _ := built_newNode
      (s := s.advance c) hs.sound ((Node.ofKind kind).withRange (s.stand.current c).range) rfl rfl c
    obtain ⟨-, word, -, hword⟩ := Reading.kind_of_routeKind? hkind
    have hsuccess := NodeKind.outcome_of_isRoute (NodeKind.isRoute_ofRouteWord? hword)
    have hheaded := Reading.headed_header kind c (s.stand.advance c)
    have hstand := (stand_newNode ((Node.ofKind kind).withRange (s.stand.current c).range) c
      (s.advance c)).trans (stand_advance c s)
    simp only [bind_run, get_run, readToken_run]
    generalize newNode ((Node.ofKind kind).withRange (s.stand.current c).range) c (s.advance c)
      = opened at hnew hstand ⊢
    obtain ⟨n, s₁⟩ := opened
    simp only at hnew hstand
    generalize Reading.header kind c (s.stand.advance c) = h at hheaded ⊢
    obtain ⟨error, s₂, hread, hst, hname⟩ := readName_run hc hready hnew
      (show Reading.Headed kind c s₁.stand h by rw [hstand]; exact hheaded)
    simp only [hread, ↓ite_run, currentKind_run, hst]
    by_cases hopen : (h.after.current c).kind = .leftBrace
    · simp only [hopen, if_true, ne_eq, not_true_eq_false, if_false]
      cases comes_routeFrom hc hready hnew hst hname hsuccess hopen with
      | found hb hx hlast => exact .found ⟨hb.grows, hb.top, hb.refusals⟩ hx hlast
    · have hgrows : s.tree.Grows s₂.tree ∧ s₂.refusals = s.refusals := by
        cases he : h.error with
        | none =>
          rw [he] at hname
          exact ⟨hname.2.grows, hname.2.refusals⟩
        | some e =>
          rw [he] at hname
          obtain ⟨-, id, -, hbe⟩ := hname
          exact ⟨hnew.grows.trans hbe.grows, hbe.refusals.trans hnew.refusals⟩
      simp only [hopen, if_false, ne_eq, not_false_eq_true, if_true]
      have := comes_missingFrom hgrows.1 hgrows.2
        (by rw [hst, hheaded.goTo, Stand.goTo_advance]; rfl) "\x7b" c
      rwa [hst] at this

/-! ## Whole files -/

theorem reads_construct : Reads (choice [fileStarter, topLevelAssignment, route]) .construct :=
  reads_choice (.cons reads_fileStarter (.cons reads_topLevelAssignment (.cons reads_route .nil)))

/-- The rule for the mistake to report, after one that did not succeed. -/
theorem comes_diagnose {r : Result} (hc : c.Closed) (hs : s.Ready) (h : Comes s r id s₁)
    (hr : r.outcome ≠ .success) :
    Comes s (Reading.diagnose r c s.stand) (diagnose id c s₁).1 (diagnose id c s₁).2 := by
  have hs₁ := hs.of_grows h.grows
  have hst := h.stand hr
  have hrun : ∀ {rule f}, Reads rule f → Comes s (f c s.stand) (rule c s₁).1 (rule c s₁).2 :=
    fun hrule => h.earlier hr (hst ▸ hrule c s₁ hc hs₁)
  simp only [diagnose, Reading.diagnose, bind_run, currentKind_run, hst]
  cases (s.stand.current c).kind
  case directive => exact hrun reads_fileStarter
  case identifier | coreVariable => exact hrun reads_topLevelAssignment
  case route => exact hrun reads_route
  all_goals
    simp only [bind_run, outcomeOf_run, h.outcome hs]
    cases r with
    | nothing => exact h
    | fault e => exact hrun (reads_missing "top level statement")
    | found x after => exact absurd rfl hr

theorem reads_topLevel : Reads topLevel .topLevel := by
  intro c s hc hs
  rw [Reading.topLevel]
  simp only [topLevel, bind_run, atEnd_run, isStopped_run, ↓ite_run]
  by_cases hend : ((s.stand.current c).isEnd || s.stand.stopped) = true
  · rw [if_pos hend, if_pos hend]
    exact .nothing (.refl hs.sound) rfl rfl
  rw [if_neg hend, if_neg hend]
  have step := reads_construct c s hc hs
  simp only [outcomeOf_run, step.outcome hs]
  generalize choice [fileStarter, topLevelAssignment, route] c s = found at step ⊢
  obtain ⟨id, s₁⟩ := found
  cases hf : Reading.construct c s.stand with
  | nothing | fault e =>
    rw [hf] at step
    exact comes_diagnose hc hs step (by simp [Result.outcome])
  | found x after =>
    rw [hf] at step
    cases step with
    | found hb hx hst =>
      have hwrapper : Built s₁ _ (.bundle ⟨.topLevel, none, none⟩ []) _ :=
        built_newNode hb.sound (.ofKind .topLevel) rfl rfl c
      have hne := NodeKind.ne_empty_of_outcome hx
      have hwrapped := ((hb.of_trans hwrapper).attach_since (.refl hs.sound) (hb.ne hwrapper).symm
        ((hb.trans hwrapper).grows.but _) (hb.trans hwrapper).top hne c).cover c
      refine .found hwrapped rfl ((stand_attach _ id c _).trans hst)

section Rounds

variable {here after u : Stand} {e : Fault}

/-- A round over a file that comes to its end, or to where the parse has stopped. -/
theorem scriptRound_ended (hc : c.Closed) (hs : s.Ready) (hb : Built s n (.bundle l xs) s₁)
    (hg : Reading.topLevel.Gathered c s₁.stand ys here)
    (hend : ((here.current c).isEnd || here.stopped) = true) :
    ∃ s₂, scriptRound n c s₁ = (false, s₂) ∧ Built s n (.bundle l (xs ++ ys)) s₂ ∧
      s₂.stand = here := by
  obtain ⟨s₂, hadopt, hb₂, rfl⟩ :=
    hb.adopt_many hs hc reads_topLevel Reading.forward_topLevel hg .root
  refine ⟨s₂, ?_, hb₂, rfl⟩
  simp only [scriptRound, bind_run, hadopt, atEnd_run, isStopped_run, ↓ite_run, hend, if_true,
    pure_run]

/-- A round over a file that keeps a mistake. -/
theorem scriptRound_fault (hc : c.Closed) (hs : s.Ready) (hb : Built s n (.bundle l xs) s₁)
    (hg : Reading.topLevel.Gathered c s₁.stand ys here)
    (hend : ((here.current c).isEnd || here.stopped) = false)
    (he : Reading.topLevel c here = .fault e) :
    ∃ s₂, scriptRound n c s₁ = (if (here.keep c).stopped then (false, s₂)
        else (true, { s₂ with pending := restartFrom false 0 true s₂.pending })) ∧
      Built s n (.bundle l (xs ++ (ys ++ [e.item]))) s₂ ∧ s₂.stand = here.keep c := by
  obtain ⟨s₂, hadopt, hb₂, rfl⟩ :=
    hb.adopt_many hs hc reads_topLevel Reading.forward_topLevel hg .root
  have hs₂ := hs.of_grows hb₂.grows
  have step := reads_topLevel c s₂ hc hs₂
  have hout := step.outcome hs₂
  rw [he] at step hout
  simp only [scriptRound, bind_run, hadopt, atEnd_run, isStopped_run, ↓ite_run, hend,
    Bool.false_eq_true, if_false, outcomeOf_run, hout, Result.outcome, pure_run, restart, get_run,
    moveTo_run]
  generalize topLevel c s₂ = error at step ⊢
  obtain ⟨id, s₃⟩ := error
  cases step with
  | fault hbe hst =>
    have hstand : (keepMistake n id c s₃).2.stand = s₂.stand.keep c := by
      rw [stand_keepMistake, hst]
    have hb₃ := hb₂.keep hbe e.kind_ne_empty c
    rw [List.append_assoc] at hb₃
    rw [← hstand]
    exact ⟨_, rfl, hb₃, rfl⟩

/-- The rounds over a file build what its constructs say. -/
theorem scriptRounds_run (hc : c.Closed) (hs : s.Ready)
    (hcons : Reading.Constructed c u ys after) : ∀ {s₁ : State} {xs : List Item},
      s₁.stand = u → Built s n (.bundle l xs) s₁ →
      Built s n (.bundle l (xs ++ ys)) (whileAdvancing (scriptRound n) c s₁).2 ∧
        (whileAdvancing (scriptRound n) c s₁).2.stand = after := by
  induction hcons with
  | @ended u here ys hg hend =>
    rintro s₁ xs rfl hb
    obtain ⟨s₂, hround, hb₂, hst⟩ := scriptRound_ended hc hs hb hg hend
    rw [whileAdvancing_of_stop hround]
    exact ⟨hb₂, hst⟩
  | @halted u here ys e hg hend he hstop =>
    rintro s₁ xs rfl hb
    obtain ⟨s₂, hround, hb₂, hst⟩ := scriptRound_fault hc hs hb hg hend he
    rw [if_pos hstop] at hround
    rw [whileAdvancing_of_stop hround]
    exact ⟨hb₂, hst⟩
  | @resumed u here after ys zs e hg hend he hstop _ ih =>
    rintro s₁ xs rfl hb
    obtain ⟨s₂, hround, hb₂, hst⟩ := scriptRound_fault hc hs hb hg hend he
    rw [hstop, if_neg (by decide)] at hround
    have hrestart := stand_restart hst false
    have hlt := length_restart_lt hc (Bool.or_eq_false_iff.1 hend).1 false
    rw [whileAdvancing_of_more hround]
    · have := ih hrestart (hb₂.congr rfl rfl)
      rwa [List.append_assoc, List.append_assoc] at this
    · rw [hrestart]
      exact Nat.lt_of_lt_of_le hlt (hg.suffix Reading.onward_topLevel hc).length_le

end Rounds

/-- A whole parse builds the item that its reading says. -/
theorem script_run (hc : c.Closed) (hs : s.Ready) :
    Built s (script c s).1 (Reading.script c s.stand).1 (script c s).2 ∧
      (script c s).2.stand = (Reading.script c s.stand).2 := by
  have hroot : Built s _ (.bundle ⟨.root, none, none⟩ []) _ :=
    built_newNode hs.sound (.ofKind .root) rfl rfl c
  have hrun := scriptRounds_run hc hs (Reading.constructed_constructs hc s.stand)
    (stand_newNode (.ofKind .root) c s) hroot
  simp only [script, bind_run, pure_run, readToEnd_run]
  generalize newNode (.ofKind .root) c s = root at hrun ⊢
  generalize whileAdvancing (scriptRound root.1) c root.2 = rounds at hrun ⊢
  obtain ⟨hb, hst⟩ := hrun
  have hb₁ : Built s root.1 _ { rounds.2 with pending := [] } := hb.congr rfl rfl
  have hlast := built_newNode hb₁.sound ((Node.ofKind .endOfInput).withRange c.closing.range)
    rfl rfl c
  have hbuilt := (hb₁.attach hlast (fun h => NodeKind.noConfusion h) c).cover c
  refine ⟨hbuilt, ?_⟩
  rw [stand_coverChildren, stand_attach, stand_newNode, stand_setPending, hst]
  rfl

end RouteScript.Grammar
