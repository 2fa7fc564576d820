import RouteScript.Proofs.Grammar.InStep
import RouteScript.Proofs.Grammar.Rounds
/-!
# Rules that keep parses in step

Every step of the grammar keeps parses in step, the rules by what they are made of and the loops by
induction on the tokens left. Whole parses that begin in step so end in the same tree but for its
ranges (`inStep_script`).

A parse is in step with itself, and the frame of the pair then tells what no rule touches: the
tokens from the first end of input on, and the refusals so far.
-/
namespace RouteScript.Grammar

variable {α : Type} {a : Frame} {c c' : Context} {s s' : State}

/-! ## Combinators -/

theorem level_sequenceFrom {rules : List Rule} (h : ∀ rule ∈ rules, Level a rule rule)
    {start start' : List LocatedToken} (hstart : Parallel a.rest a.rest' start start')
    (node : NodeId) : Level a (sequenceFrom start node rules) (sequenceFrom start' node rules) := by
  induction rules with
  | nil => exact (level_coverChildren node).bind fun _ => .pure rfl
  | cons rule rules ih =>
    have hrest := ih fun r hr => h r (List.mem_cons_of_mem _ hr)
    refine (h rule List.mem_cons_self).bind fun found => (level_outcomeOf found).bind fun o => ?_
    cases o with
    | failure => exact (level_moveTo hstart).bind fun _ => .pure rfl
    | nothing => exact hrest
    | success => exact (level_attach node found).bind fun _ => hrest

theorem level_sequence {rules : List Rule} (h : ∀ rule ∈ rules, Level a rule rule)
    (kind : NodeKind) : Level a (sequence kind rules) (sequence kind rules) :=
  related_get.bind fun _ _ hs => (level_newNode rfl).bind fun _ =>
    level_sequenceFrom h hs.pending _

theorem level_choice {rules : List Rule} (h : ∀ rule ∈ rules, Level a rule rule) :
    Level a (choice rules) (choice rules) := by
  suffices key : ∀ failure, Level a (choiceFrom failure rules) (choiceFrom failure rules) from
    key nothingId
  induction rules with
  | nil => exact fun failure => .pure rfl
  | cons rule rules ih =>
    have hrest := ih fun r hr => h r (List.mem_cons_of_mem _ hr)
    refine fun failure => (h rule List.mem_cons_self).bind fun found =>
      (level_outcomeOf found).bind fun o => ?_
    cases o with
    | success => exact .pure rfl
    | failure => exact hrest found
    | nothing => exact hrest failure

theorem level_optional {rule : Rule} (h : Level a rule rule) :
    Level a (optional rule) (optional rule) :=
  h.bind fun found => (level_outcomeOf found).bind fun o => by cases o <;> exact .pure rfl

theorem level_orMissing {rule : Rule} (h : Level a rule rule) (what : String) :
    Level a (orMissing rule what) (orMissing rule what) :=
  h.bind fun found => (level_outcomeOf found).bind fun o => by
    cases o with
    | success => exact .pure rfl
    | nothing | failure => exact level_missing what

theorem level_many {rule : Rule} (h : Level a rule rule) (kind : NodeKind) :
    Level a (many kind rule) (many kind rule) := by
  have hone : ∀ node, Level a (collectOne node rule) (collectOne node rule) := fun node =>
    h.bind fun found => (level_outcomeOf found).bind fun o => by
      cases o with
      | success => exact (level_attach node found).bind fun _ => .pure rfl
      | nothing | failure => exact .pure rfl
  exact (level_newNode rfl).bind fun node => (hone node).whileAdvancing.bind fun _ =>
    (level_coverChildren node).bind fun _ => .pure rfl

/-! ## Rules -/

theorem level_oneOf {kind : TokenKind} (hkind : kind ≠ .endOfInput) (what : String)
    (node : Token → Node) : Level a (oneOf kind what node) (oneOf kind what node) :=
  (related_takeIf? hkind).bind fun _ _ ht => by
    cases ht with
    | some heq =>
      simp only [heq]
      exact level_located ..
    | none => exact level_missing what

theorem level_identifier : Level a identifier identifier := level_oneOf (by decide) ..

theorem level_string : Level a string string := level_oneOf (by decide) ..

theorem level_assignOperator : Level a assignOperator assignOperator := level_oneOf (by decide) ..

theorem level_terminator : Level a terminator terminator := level_oneOf (by decide) ..

/-- Only the literals of tokens that close a stream may differ, and they are not looked at. -/
theorem level_number : Level a number number :=
  related_current.bind fun t t' h => by
    rcases h with h | ⟨h, h'⟩
    · simp only [LocatedToken.kind, h]
      split
      · exact related_readToken.bind fun _ _ _ => level_located ..
      · exact level_missing _
    · simp only [LocatedToken.kind, kind_of_isEnd h, kind_of_isEnd h']
      exact level_missing _

theorem level_coreVariable : Level a coreVariable coreVariable :=
  related_current.bind fun t t' h => by
    rcases h with h | ⟨h, h'⟩
    · simp only [LocatedToken.isEnd, h]
      refine .ite (level_missing _) ?_
      split
      · split
        · exact related_readToken.bind fun _ _ _ => (level_located ..).bind fun _ =>
            (level_located ..).bind fun _ => (level_attach ..).bind fun _ => .pure rfl
        · exact level_mistake ..
      · exact level_missing _
    · rw [if_pos h, if_pos h']
      exact level_missing _

theorem level_fileStarter : Level a fileStarter fileStarter :=
  related_current.bind fun t t' h => by
    rcases h with h | ⟨h, h'⟩
    · simp only [LocatedToken.kind, h]
      split
      · exact .ite (related_readToken.bind fun _ _ _ => level_located ..) (level_missing _)
      · exact level_missing _
    · simp only [LocatedToken.kind, kind_of_isEnd h, kind_of_isEnd h']
      exact level_missing _

theorem level_target : Level a target target :=
  level_orMissing (level_choice (by simp [level_identifier, level_coreVariable])) _

theorem level_value : Level a value value :=
  level_orMissing (level_choice (by simp [level_number, level_string, level_coreVariable])) _

theorem level_assignment : Level a assignment assignment := by
  have hmark : ∀ (id : NodeId) (t : Tree),
      (markSides t id).clearRanges = markSides t.clearRanges id := fun id t => by
    rw [markSides, markSides, Tree.children_clearRanges]
    split
    · rw [Tree.clearRanges_setRole, Tree.clearRanges_setRole]
    · rfl
  have hoperands : Level a (sequence .assignment [target, assignOperator, value])
      (sequence .assignment [target, assignOperator, value]) :=
    level_sequence (by simp [level_target, level_value, level_assignOperator]) _
  refine hoperands.bind fun found => (level_outcomeOf found).bind fun o => ?_
  cases o with
  | success => exact (level_modifyTree (hmark found)).bind fun _ => .pure rfl
  | nothing | failure => exact .pure rfl

theorem level_statement : Level a statement statement :=
  level_sequence (by simp [level_assignment, level_terminator]) _

theorem level_topLevelAssignment : Level a topLevelAssignment topLevelAssignment :=
  level_assignment.bind fun found => (level_outcomeOf found).bind fun o => by
    cases o with
    | success =>
      exact (level_optional level_terminator).bind fun _ =>
        (level_widenOver _ _).bind fun _ => .pure rfl
    | nothing | failure => exact .pure rfl

theorem level_blockRound (block : NodeId) : Level a (blockRound block) (blockRound block) := by
  have hrest : ∀ (unclosed : Bool) (error : NodeId), Level a (do
      widenOver block error
      keepMistake block error
      if unclosed || (← isStopped) then return false
      restart true
      return true) (do
      widenOver block error
      keepMistake block error
      if unclosed || (← isStopped) then return false
      restart true
      return true) := fun _ _ =>
    (level_widenOver ..).bind fun _ => (level_keepMistake ..).bind fun _ =>
      level_isStopped.bind fun _ => .ite (.pure rfl) ((level_restart _).bind fun _ => .pure rfl)
  refine (level_many level_statement _).bind fun _ => (level_adoptChildren ..).bind fun _ =>
    (related_takeIf? (by decide)).bind fun _ _ ht => ?_
  cases ht with
  | some _ => exact (level_widen ..).bind fun _ => .pure rfl
  | none =>
    refine related_current.bind fun t t' h => ?_
    have hleaves : leavesBlock t = leavesBlock t' := by
      rw [leavesBlock, leavesBlock, h.kind, h.isEnd]
    rw [hleaves]
    exact .ite ((level_missing _).bind fun _ => hrest ..) (level_statement.bind fun _ => hrest ..)

theorem level_block : Level a block block :=
  (related_takeIf? (by decide)).bind fun _ _ ht => by
    cases ht with
    | none => exact level_missing _
    | some _ =>
      exact (level_located ..).bind fun node =>
        (level_blockRound node).whileAdvancing.bind fun _ => .pure rfl

theorem level_missingFrom {start start' : List LocatedToken}
    (h : Parallel a.rest a.rest' start start') (what : String) :
    Level a (missingFrom start what) (missingFrom start' what) :=
  (level_missing what).bind fun _ => (level_moveTo h).bind fun _ => .pure rfl

theorem level_routeName : Level a routeName routeName :=
  related_get.bind fun s s' hs => (related_takeIf? (by decide)).bind fun _ _ ht => by
    cases ht with
    | none => exact level_missing _
    | some _ =>
      refine (level_choice (by simp [level_identifier, level_number, level_string])).bind
        fun name => (level_outcomeOf name).bind fun o => ?_
      cases o with
      | success =>
        refine (related_takeIf? (by decide)).bind fun _ _ hclose => ?_
        cases hclose with
        | some _ => exact .pure rfl
        | none => exact level_missingFrom hs.pending _
      | nothing | failure => exact level_missingFrom hs.pending _

theorem level_readName (route : NodeId) (kind : NodeKind) :
    Level a (readName route kind) (readName route kind) :=
  related_current.bind fun t t' h => by
    rw [h.kind]
    refine .ite (level_routeName.bind fun name => (level_outcomeOf name).bind fun o => ?_)
      (.ite ((level_mistake ..).bind fun _ => .pure rfl) (.pure rfl))
    cases o with
    | failure => exact level_skipName.bind fun _ => .pure rfl
    | nothing | success =>
      refine (related_nodeOf name).bind fun n n' hn => ?_
      have hscalar : n.scalar? = n'.scalar? := by
        show n.unranged.scalar? = n'.unranged.scalar?
        rw [hn]
      rw [hscalar]
      exact (level_modifyTree fun t => Tree.clearRanges_setRole t ..).bind fun _ => .pure rfl

theorem level_keepNameError (route : NodeId) (error : Option NodeId) :
    Level a (keepNameError route error) (keepNameError route error) := by
  cases error with
  | none => exact .pure rfl
  | some error =>
    exact (level_keepMistake ..).bind fun _ => (level_widenOver ..).bind fun _ =>
      level_isStopped.bind fun _ => .pure rfl

theorem level_routeBody (route : NodeId) : Level a (routeBody route) (routeBody route) :=
  level_block.bind fun _ => (level_attach ..).bind fun _ => level_widenOver ..

theorem level_route : Level a route route :=
  related_current.bind fun t t' h => by
    have hkind : routeKind? t.token = routeKind? t'.token := by
      rcases h with h | ⟨h, h'⟩
      · rw [h]
      · rw [routeKind?, routeKind?, kind_of_isEnd h, kind_of_isEnd h']
    rw [hkind]
    cases routeKind? t'.token with
    | none => exact level_missing _
    | some kind =>
      exact related_get.bind fun _ _ hs => related_readToken.bind fun _ _ _ =>
        (level_located ..).bind fun _ => (level_readName ..).bind fun _ =>
          level_currentKind.bind fun _ => .ite (level_missingFrom hs.pending _)
            ((level_keepNameError ..).bind fun _ =>
              .ite ((level_routeBody _).bind fun _ => .pure rfl) (.pure rfl))

/-! ## Whole files -/

theorem level_diagnose (last : NodeId) : Level a (diagnose last) (diagnose last) :=
  level_currentKind.bind fun _ => by
    split
    · exact level_fileStarter
    · exact level_topLevelAssignment
    · exact level_topLevelAssignment
    · exact level_route
    · refine (level_outcomeOf last).bind fun o => ?_
      cases o with
      | failure => exact level_missing _
      | nothing | success => exact .pure rfl

theorem level_topLevel : Level a topLevel topLevel :=
  level_atEnd.bind fun _ => level_isStopped.bind fun _ => .ite (.pure rfl) <|
    (level_choice (by
      simp [level_fileStarter, level_topLevelAssignment, level_route])).bind fun found =>
        (level_outcomeOf found).bind fun o => by
    cases o with
    | success =>
      exact (level_newNode rfl).bind fun _ => (level_attach ..).bind fun _ =>
        (level_coverChildren _).bind fun _ => .pure rfl
    | nothing | failure => exact level_diagnose _

theorem level_scriptRound (root : NodeId) : Level a (scriptRound root) (scriptRound root) :=
  (level_many level_topLevel _).bind fun _ => (level_adoptChildren ..).bind fun _ =>
    level_atEnd.bind fun _ => level_isStopped.bind fun _ => .ite (.pure rfl) <|
      level_topLevel.bind fun error => (level_outcomeOf error).bind fun o => by
    cases o with
    | failure =>
      exact (level_keepMistake ..).bind fun _ => level_isStopped.bind fun _ =>
        .ite (.pure rfl) ((level_restart _).bind fun _ => .pure rfl)
    | nothing | success => exact .pure rfl

/-- Every rule of the grammar keeps parses in step. -/
theorem level_rule : ∀ name : RuleName, Level a name.rule name.rule
  | .identifier => level_identifier
  | .number => level_number
  | .string => level_string
  | .assignOperator => level_assignOperator
  | .terminator => level_terminator
  | .coreVariable => level_coreVariable
  | .fileStarter => level_fileStarter
  | .target => level_target
  | .value => level_value
  | .assignment => level_assignment
  | .statement => level_statement
  | .topLevelAssignment => level_topLevelAssignment
  | .block => level_block
  | .routeName => level_routeName
  | .route => level_route
  | .topLevel => level_topLevel

/-! ## What no rule touches -/

/-- The frame of a parse that runs beside itself. -/
def State.frame (s : State) : Frame where
  rest := beyond s.pending
  rest' := beyond s.pending
  told := s.refusals
  ended := ended_beyond s.pending
  ended' := ended_beyond s.pending

theorem State.inStep_self (s : State) : InStep s.frame s s :=
  ⟨parallel_of_readable rfl, rfl, rfl, rfl, rfl, List.prefix_rfl⟩

/-- A step that keeps parses in step moves no cursor past an end of input. -/
theorem beyond_run {R : α → α → Prop} {p : Parse α} (hp : ∀ a, Related a R p p) (hc : c.Closed)
    (s : State) : beyond (p c s).2.pending = beyond s.pending :=
  (hp s.frame ⟨rfl, hc, hc⟩ s.inStep_self).2.pending.beyond_eq (ended_beyond _)

/-- A step that keeps parses in step takes no refusal back. -/
theorem refusals_run {R : α → α → Prop} {p : Parse α} (hp : ∀ a, Related a R p p)
    (hc : c.Closed) (s : State) : s.refusals <+: (p c s).2.refusals :=
  (hp s.frame ⟨rfl, hc, hc⟩ s.inStep_self).2.told

/-! ## Whole parses -/

/-- The frame of parses that have skipped to the end of their streams. -/
def Frame.skipped (a : Frame) : Frame := ⟨[], [], a.told, by simp [Ended], by simp [Ended]⟩

/-- Skipping what is left takes both streams to their ends, whatever each of them holds. -/
theorem InStep.skipped (h : InStep a s s') :
    InStep a.skipped { s with pending := [] } { s' with pending := [] } :=
  ⟨.rest, h.tree, h.mistakes, h.stopped, h.refusals, h.told⟩

theorem InStep.closeScript (hc : c.Level c') (h : InStep a s s') (root : NodeId) :
    (closeScript root c s).1 = (closeScript root c' s').1 ∧
      InStep a.skipped (closeScript root c s).2 (closeScript root c' s').2 := by
  have hlast : Level a.skipped (do
      let last ← newNode ((Node.ofKind .endOfInput).withRange c.closing.range)
      attach root last
      coverChildren root
      return root) (do
      let last ← newNode ((Node.ofKind .endOfInput).withRange c'.closing.range)
      attach root last
      coverChildren root
      return root) := (level_located ..).bind fun last => (level_attach root last).bind fun _ =>
    (level_coverChildren root).bind fun _ => .pure rfl
  exact hlast hc h.skipped

/-- A parse makes a root, goes round until there is no more to read, and closes. -/
theorem script_eq (c : Context) (s : State) : script c s =
    closeScript (newNode (.ofKind .root) c s).1 c
      (whileAdvancing (scriptRound (newNode (.ofKind .root) c s).1) c
        (newNode (.ofKind .root) c s).2).2 := rfl

/-- Whole parses that begin in step find the same root and end in step. -/
theorem inStep_script (hc : c.Level c') (hs : InStep a s s') :
    (script c s).1 = (script c' s').1 ∧ InStep a.skipped (script c s).2 (script c' s').2 := by
  obtain ⟨hroot, hnew⟩ := level_newNode (n := .ofKind .root) rfl hc hs
  rw [script_eq, script_eq, ← hroot]
  obtain ⟨-, hread⟩ :=
    (level_scriptRound (newNode (.ofKind .root) c s).1).whileAdvancing hc hnew
  exact hread.closeScript hc _

end RouteScript.Grammar
