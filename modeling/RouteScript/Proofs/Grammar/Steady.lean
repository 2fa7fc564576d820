import RouteScript.Proofs.Grammar.Run
/-!
# Parses that the budget does not reach

Of the options of a parse only the answer matters whether it may go on after so many mistakes. A
step is `Steady` if it takes no mistake back and does the same in two contexts that answer alike as
long as the mistakes stay below a limit: all that it does then, to the store as well. Every step of
the grammar is steady, the rules by what they are made of and the loops by induction on the tokens
left.
-/
namespace RouteScript.Grammar

variable {α β : Type} {limit : Nat} {c c' : Context}

/-- Whether a parse with the options goes on after so many mistakes. -/
def goesOn (options : ParseOptions) (mistakes : Nat) : Bool :=
  options.recover && decide (mistakes < options.maxErrors)

/-- The contexts close the stream alike and go on alike below the limit. -/
structure Context.Alike (limit : Nat) (c c' : Context) : Prop where
  closing : c.closing = c'.closing
  goesOn : ∀ n, 0 < n → n < limit → goesOn c.options n = goesOn c'.options n

/-- The step takes no mistake back and does the same in contexts that are alike up to more mistakes
than it leaves behind. -/
structure Steady (p : Parse α) : Prop where
  mistakes_le : ∀ (c : Context) (s : State), s.mistakes ≤ (p c s).2.mistakes
  same : ∀ {limit : Nat} {c c' : Context} {s : State}, c.Alike limit c' →
    (p c' s).2.mistakes < limit → p c s = p c' s

/-! ## Combinations of steps -/

namespace Steady

theorem pure (a : α) : Steady (pure a : Parse α) := ⟨fun _ _ => Nat.le_refl _, fun _ _ => rfl⟩

theorem bind {p : Parse α} {q : α → Parse β} (hp : Steady p) (hq : ∀ a, Steady (q a)) :
    Steady (p >>= q) where
  mistakes_le c s := Nat.le_trans (hp.mistakes_le c s) ((hq _).mistakes_le c _)
  same {limit c c' s} h hlt := by
    have hle := (hq (p c' s).1).mistakes_le c' (p c' s).2
    rw [bind_run, bind_run] at *
    rw [hp.same h (Nat.lt_of_le_of_lt hle hlt), (hq _).same h hlt]

theorem ite {t : Prop} [Decidable t] {p q : Parse α} (hp : Steady p) (hq : Steady q) :
    Steady (if t then p else q) := by
  split
  · exact hp
  · exact hq

/-- A step that neither reads the options nor keeps mistakes. -/
theorem of_closing {p : Parse α} (hc : ∀ c c' s, c.closing = c'.closing → p c s = p c' s)
    (hm : ∀ c s, (p c s).2.mistakes = s.mistakes) : Steady p :=
  ⟨fun c s => Nat.le_of_eq (hm c s).symm, fun h _ => hc _ _ _ h.closing⟩

theorem whileAdvancing_eq (round : Parse Bool) (c : Context) (s : State) :
    Grammar.whileAdvancing round c s =
      if (round c s).2.pending.length < s.pending.length ∧ (round c s).1 = true then
        Grammar.whileAdvancing round c (round c s).2
      else ((), (round c s).2) := by
  rw [Grammar.whileAdvancing]
  rfl

/-- A loop is steady if its rounds are. -/
theorem whileAdvancing {round : Parse Bool} (hr : Steady round) :
    Steady (whileAdvancing round) := by
  have hle : ∀ (c : Context) (s : State),
      s.mistakes ≤ (Grammar.whileAdvancing round c s).2.mistakes := by
    intro c s
    induction hn : s.pending.length using Nat.strongRecOn generalizing s with
    | ind n ih =>
      rw [whileAdvancing_eq]
      split
      · rename_i hmore
        exact Nat.le_trans (hr.mistakes_le c s) (ih _ (hn ▸ hmore.1) _ rfl)
      · exact hr.mistakes_le c s
  refine ⟨hle, fun {limit c c' s} h hlt => ?_⟩
  induction hn : s.pending.length using Nat.strongRecOn generalizing s with
  | ind n ih =>
    -- the first round stays below the limit, as the rounds after it take nothing back
    rw [whileAdvancing_eq] at hlt ⊢
    rw [whileAdvancing_eq round c' s]
    by_cases hmore : (round c' s).2.pending.length < s.pending.length ∧ (round c' s).1 = true
    · rw [if_pos hmore] at hlt
      rw [hr.same h (Nat.lt_of_le_of_lt (hle ..) hlt), if_pos hmore, if_pos hmore]
      exact ih _ (hn ▸ hmore.1) hlt rfl
    · rw [if_neg hmore] at hlt
      rw [hr.same h hlt, if_neg hmore, if_neg hmore]

end Steady

/-! ## Steps -/

theorem steady_get : Steady (get : Parse State) := .of_closing (fun _ _ _ _ => rfl) fun _ _ => rfl

theorem steady_current : Steady current :=
  .of_closing (fun _ _ s h => by simp [Stand.current, h]) fun _ _ => rfl

theorem steady_currentKind : Steady currentKind := steady_current.bind fun _ => .pure _

theorem steady_atEnd : Steady atEnd := steady_current.bind fun _ => .pure _

theorem steady_moveTo (pending : List LocatedToken) : Steady (moveTo pending) :=
  .of_closing (fun _ _ _ _ => rfl) fun _ _ => rfl

theorem steady_readToken : Steady readToken :=
  steady_current.bind fun _ =>
    .ite (.pure _) (steady_get.bind fun _ => (steady_moveTo _).bind fun _ => .pure _)

theorem steady_readToEnd : Steady readToEnd :=
  .of_closing (fun _ _ _ h => by simp [h]) fun _ _ => rfl

theorem steady_takeIf? (kind : TokenKind) : Steady (takeIf? kind) :=
  steady_currentKind.bind fun _ => .ite (steady_readToken.bind fun _ => .pure _) (.pure _)

theorem steady_newNode (n : Node) : Steady (newNode n) :=
  .of_closing (fun _ _ _ _ => rfl) fun _ _ => rfl

theorem steady_nodeOf (id : NodeId) : Steady (nodeOf id) :=
  .of_closing (fun _ _ _ _ => rfl) fun _ _ => rfl

theorem steady_outcomeOf (id : NodeId) : Steady (outcomeOf id) :=
  .of_closing (fun _ _ _ _ => rfl) fun _ _ => rfl

theorem steady_modifyTree (f : Tree → Tree) : Steady (modifyTree f) :=
  .of_closing (fun _ _ _ _ => rfl) fun _ _ => rfl

theorem steady_attach (parent child : NodeId) : Steady (attach parent child) :=
  .of_closing (fun _ _ _ _ => rfl) fun c s =>
    congrArg Stand.mistakes (stand_attach parent child c s)

theorem steady_adoptChildren (target source : NodeId) : Steady (adoptChildren target source) :=
  .of_closing (fun _ _ _ _ => rfl) fun _ _ => rfl

theorem steady_coverChildren (id : NodeId) : Steady (coverChildren id) := steady_modifyTree _

theorem steady_widen (id : NodeId) (r : ByteRange) : Steady (widen id r) := steady_modifyTree _

theorem steady_widenOver (id other : NodeId) : Steady (widenOver id other) :=
  (steady_nodeOf other).bind fun n => by
    cases n.range with
    | some r => exact steady_widen id r
    | none => exact .pure _

theorem steady_isStopped : Steady isStopped := .of_closing (fun _ _ _ _ => rfl) fun _ _ => rfl

theorem steady_mistake (message : String) (r : ByteRange) : Steady (mistake message r) :=
  steady_newNode _

theorem steady_missing (what : String) : Steady (missing what) :=
  steady_current.bind fun _ => steady_mistake _ _

theorem steady_restart (inBlock : Bool) : Steady (restart inBlock) :=
  steady_get.bind fun _ => steady_moveTo _

theorem steady_skipName : Steady skipName := steady_get.bind fun _ => steady_moveTo _

/-- Keeping a mistake asks whether the parse goes on after it, and it counts towards the limit. -/
theorem steady_keepMistake (parent error : NodeId) : Steady (keepMistake parent error) := by
  have hmistakes : ∀ c s, (keepMistake parent error c s).2.mistakes = s.mistakes + 1 :=
    fun c s => congrArg Stand.mistakes (stand_keepMistake parent error c s)
  refine ⟨fun c s => by rw [hmistakes]; omega, fun {limit c c' s} h hlt => ?_⟩
  rw [hmistakes] at hlt
  have hgo := h.goesOn (s.mistakes + 1) (Nat.succ_pos _) hlt
  have hkeep : s.stand.keep c = s.stand.keep c' := by
    have hstand : ∀ c : Context, s.stand.keep c =
        ⟨s.pending, s.mistakes + 1, s.stopped || !goesOn c.options (s.mistakes + 1)⟩ :=
      fun _ => rfl
    rw [hstand, hstand, hgo]
  rw [keepMistake_run, keepMistake_run, hkeep]
  rfl

/-! ## Combinators -/

theorem steady_sequenceFrom {rules : List Rule} (h : ∀ rule ∈ rules, Steady rule)
    (start : List LocatedToken) (node : NodeId) : Steady (sequenceFrom start node rules) := by
  induction rules with
  | nil => exact (steady_coverChildren node).bind fun _ => .pure _
  | cons rule rules ih =>
    have hrest := ih fun r hr => h r (List.mem_cons_of_mem _ hr)
    refine (h rule List.mem_cons_self).bind fun found => (steady_outcomeOf found).bind fun o => ?_
    cases o with
    | failure => exact (steady_moveTo start).bind fun _ => .pure _
    | nothing => exact hrest
    | success => exact (steady_attach node found).bind fun _ => hrest

theorem steady_sequence {rules : List Rule} (h : ∀ rule ∈ rules, Steady rule) (kind : NodeKind) :
    Steady (sequence kind rules) :=
  steady_get.bind fun _ => (steady_newNode _).bind fun _ => steady_sequenceFrom h _ _

theorem steady_choice {rules : List Rule} (h : ∀ rule ∈ rules, Steady rule) :
    Steady (choice rules) := by
  suffices key : ∀ failure, Steady (choiceFrom failure rules) from key nothingId
  induction rules with
  | nil => exact fun failure => .pure _
  | cons rule rules ih =>
    have hrest := ih fun r hr => h r (List.mem_cons_of_mem _ hr)
    refine fun failure => (h rule List.mem_cons_self).bind fun found =>
      (steady_outcomeOf found).bind fun o => ?_
    cases o with
    | success => exact .pure _
    | failure => exact hrest found
    | nothing => exact hrest failure

theorem steady_optional {rule : Rule} (h : Steady rule) : Steady (optional rule) :=
  h.bind fun found => (steady_outcomeOf found).bind fun o => by cases o <;> exact .pure _

theorem steady_orMissing {rule : Rule} (h : Steady rule) (what : String) :
    Steady (orMissing rule what) :=
  h.bind fun found => (steady_outcomeOf found).bind fun o => by
    cases o with
    | success => exact .pure _
    | nothing | failure => exact steady_missing what

theorem steady_many {rule : Rule} (h : Steady rule) (kind : NodeKind) :
    Steady (many kind rule) := by
  have hone : ∀ node, Steady (collectOne node rule) := fun node =>
    h.bind fun found => (steady_outcomeOf found).bind fun o => by
      cases o with
      | success => exact (steady_attach node found).bind fun _ => .pure _
      | nothing | failure => exact .pure _
  exact (steady_newNode _).bind fun node => (hone node).whileAdvancing.bind fun _ =>
    (steady_coverChildren node).bind fun _ => .pure _

/-! ## Rules -/

theorem steady_oneOf (kind : TokenKind) (what : String) (node : Token → Node) :
    Steady (oneOf kind what node) :=
  (steady_takeIf? kind).bind fun t => by
    cases t with
    | some t => exact steady_newNode _
    | none => exact steady_missing what

theorem steady_number : Steady number :=
  steady_current.bind fun _ => by
    split
    · exact steady_readToken.bind fun _ => steady_newNode _
    · exact steady_missing _

theorem steady_coreVariable : Steady coreVariable :=
  steady_current.bind fun _ => .ite (steady_missing _) <| by
    split
    · split
      · exact steady_readToken.bind fun _ => (steady_newNode _).bind fun _ =>
          (steady_newNode _).bind fun _ => (steady_attach _ _).bind fun _ => .pure _
      · exact steady_mistake _ _
    · exact steady_missing _

theorem steady_fileStarter : Steady fileStarter :=
  steady_current.bind fun _ => by
    split
    · exact .ite (steady_readToken.bind fun _ => steady_newNode _) (steady_missing _)
    · exact steady_missing _

theorem steady_assignment : Steady assignment := by
  have htarget : Steady target := steady_orMissing (steady_choice (by
    simp [identifier, steady_oneOf, steady_coreVariable])) _
  have hvalue : Steady value := steady_orMissing (steady_choice (by
    simp [string, steady_number, steady_oneOf, steady_coreVariable])) _
  refine (steady_sequence (by simp [htarget, hvalue, assignOperator, steady_oneOf]) _).bind
    fun found => (steady_outcomeOf found).bind fun o => ?_
  cases o with
  | success => exact (steady_modifyTree _).bind fun _ => .pure _
  | nothing | failure => exact .pure _

theorem steady_statement : Steady statement :=
  steady_sequence (by simp [steady_assignment, terminator, steady_oneOf]) _

theorem steady_topLevelAssignment : Steady topLevelAssignment :=
  steady_assignment.bind fun found => (steady_outcomeOf found).bind fun o => by
    cases o with
    | success =>
      exact (steady_optional (steady_oneOf ..)).bind fun _ =>
        (steady_widenOver _ _).bind fun _ => .pure _
    | nothing | failure => exact .pure _

theorem steady_blockRound (block : NodeId) : Steady (blockRound block) := by
  have hrest : ∀ (unclosed : Bool) (error : NodeId), Steady (do
      widenOver block error
      keepMistake block error
      if unclosed || (← isStopped) then return false
      restart true
      return true) := fun _ _ =>
    (steady_widenOver ..).bind fun _ => (steady_keepMistake ..).bind fun _ =>
      steady_isStopped.bind fun _ => .ite (.pure _) ((steady_restart _).bind fun _ => .pure _)
  refine (steady_many steady_statement _).bind fun _ => (steady_adoptChildren ..).bind fun _ =>
    (steady_takeIf? _).bind fun t => ?_
  cases t with
  | some closing => exact (steady_widen ..).bind fun _ => .pure _
  | none =>
    exact steady_current.bind fun _ => .ite ((steady_missing _).bind fun _ => hrest ..)
      (steady_statement.bind fun _ => hrest ..)

theorem steady_block : Steady block :=
  (steady_takeIf? _).bind fun t => by
    cases t with
    | none => exact steady_missing _
    | some opening =>
      exact (steady_newNode _).bind fun node =>
        (steady_blockRound node).whileAdvancing.bind fun _ => .pure _

theorem steady_missingFrom (start : List LocatedToken) (what : String) :
    Steady (missingFrom start what) :=
  (steady_missing what).bind fun _ => (steady_moveTo start).bind fun _ => .pure _

theorem steady_routeName : Steady routeName :=
  steady_get.bind fun _ => (steady_takeIf? _).bind fun opening => by
    cases opening with
    | none => exact steady_missing _
    | some _ =>
      refine (steady_choice (by simp [identifier, string, steady_number, steady_oneOf])).bind
        fun name => (steady_outcomeOf name).bind fun o => ?_
      cases o with
      | success =>
        refine (steady_takeIf? _).bind fun closing => ?_
        cases closing with
        | some _ => exact .pure _
        | none => exact steady_missingFrom ..
      | nothing | failure => exact steady_missingFrom ..

theorem steady_readName (route : NodeId) (kind : NodeKind) : Steady (readName route kind) :=
  steady_current.bind fun _ => .ite
    (steady_routeName.bind fun name => (steady_outcomeOf name).bind fun o => by
      cases o with
      | failure => exact steady_skipName.bind fun _ => .pure _
      | nothing | success =>
        exact (steady_nodeOf name).bind fun _ => (steady_modifyTree _).bind fun _ => .pure _)
    (.ite ((steady_mistake ..).bind fun _ => .pure _) (.pure _))

theorem steady_keepNameError (route : NodeId) (error : Option NodeId) :
    Steady (keepNameError route error) := by
  cases error with
  | none => exact .pure _
  | some error =>
    exact (steady_keepMistake ..).bind fun _ => (steady_widenOver ..).bind fun _ =>
      steady_isStopped.bind fun _ => .pure _

theorem steady_routeBody (route : NodeId) : Steady (routeBody route) :=
  steady_block.bind fun _ => (steady_attach ..).bind fun _ => steady_widenOver ..

theorem steady_route : Steady route :=
  steady_current.bind fun _ => by
    split
    · exact steady_missing _
    · exact steady_get.bind fun _ => steady_readToken.bind fun _ => (steady_newNode _).bind fun _ =>
        (steady_readName ..).bind fun _ => steady_currentKind.bind fun _ =>
          .ite (steady_missingFrom ..) ((steady_keepNameError ..).bind fun _ =>
            .ite ((steady_routeBody _).bind fun _ => .pure _) (.pure _))

/-! ## Whole files -/

theorem steady_diagnose (last : NodeId) : Steady (diagnose last) :=
  steady_currentKind.bind fun _ => by
    split
    · exact steady_fileStarter
    · exact steady_topLevelAssignment
    · exact steady_topLevelAssignment
    · exact steady_route
    · refine (steady_outcomeOf last).bind fun o => ?_
      cases o with
      | failure => exact steady_missing _
      | nothing | success => exact .pure _

theorem steady_topLevel : Steady topLevel :=
  steady_atEnd.bind fun _ => steady_isStopped.bind fun _ => .ite (.pure _) <|
    (steady_choice (by
      simp [steady_fileStarter, steady_topLevelAssignment, steady_route])).bind fun found =>
        (steady_outcomeOf found).bind fun o => by
    cases o with
    | success =>
      exact (steady_newNode _).bind fun _ => (steady_attach ..).bind fun _ =>
        (steady_coverChildren _).bind fun _ => .pure _
    | nothing | failure => exact steady_diagnose _

theorem steady_scriptRound (root : NodeId) : Steady (scriptRound root) :=
  (steady_many steady_topLevel _).bind fun _ => (steady_adoptChildren ..).bind fun _ =>
    steady_atEnd.bind fun _ => steady_isStopped.bind fun _ => .ite (.pure _) <|
      steady_topLevel.bind fun error => (steady_outcomeOf error).bind fun o => by
    cases o with
    | failure =>
      exact (steady_keepMistake ..).bind fun _ => steady_isStopped.bind fun _ =>
        .ite (.pure _) ((steady_restart _).bind fun _ => .pure _)
    | nothing | success => exact .pure _

/-- A whole parse is steady: with fewer mistakes than the limit it is the same, store and all. -/
theorem steady_script : Steady script :=
  (steady_newNode _).bind fun root => (steady_scriptRound root).whileAdvancing.bind fun _ =>
    steady_readToEnd.bind fun _ => (steady_newNode _).bind fun _ => (steady_attach ..).bind fun _ =>
      (steady_coverChildren root).bind fun _ => .pure _

end RouteScript.Grammar
