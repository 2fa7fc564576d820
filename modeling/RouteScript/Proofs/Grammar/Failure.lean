import RouteScript.Proofs.Grammar.Agree
/-!
# Rules without success

A rule that finds a mistake or nothing leaves no trace but new nodes in the store: the cursor, the
mistakes that were kept and every node that was there before are what they were. It is so from
every state that steps of a parse lead to, wherever its cursor stands.
-/
namespace RouteScript

namespace Tree

variable {t : Tree} {n p x : NodeId}

/-- A node that carries no children and hangs nowhere is touched by no attachment of others. -/
theorem node_hangLast_of_alone (hs : t.Sound) (hp : p < t.size) {f : NodeId} (hf : f < t.size)
    (hok : t.refusalAs? .children p f = none) (hids : t.childIds x = [])
    (hparent : (t.node x).parent = none) (hxp : x ≠ p) (hxf : x ≠ f) :
    (t.hangLast p f).node x = t.node x := by
  have hout : ¬ t.Within f x := fun hw => hxf (hw.eq_of_parent_none hparent)
  rw [(hangLast_spec hs hf hp hok).2, if_neg hxp, if_neg hxf, rebased_of_not_within hout,
    Payload.erase_eq_self (by rw [show (t.node x).payload.ids = [] from hids]; simp)]
  rfl

theorem node_attachAll_of_empty : ∀ {ids : List NodeId} {t : Tree}, t.Sound → p < t.size →
    (∀ c ∈ ids, c < t.size) → t.node x = .ofKind .empty → x ≠ p →
    (t.attachAll p ids).1.node x = .ofKind .empty
  | [], _, _, _, _, hx, _ => hx
  | c :: ids, t, hs, hp, hids, hx, hxp => by
    rw [attachAll]
    split
    · exact hx
    · rename_i hok
      have hc := hids c (by simp)
      have hxc : x ≠ c := fun e =>
        ((refusalAs?_eq_none hs.links).1 hok).2.1 (by rw [← e, kind, hx]; rfl)
      have hkeep := node_hangLast_of_alone hs hp hc hok (by rw [childIds, hx]; rfl)
        (by rw [hx]; rfl) hxp hxc
      refine node_attachAll_of_empty (hangLast_spec hs hc hp hok).1 (by rwa [size_hangLast])
        (fun d hd => ?_) (hkeep.trans hx) hxp
      rw [size_hangLast]
      exact hids d (List.mem_cons_of_mem _ hd)

end Tree

namespace Grammar

/-! ## The rules of the grammar -/

/-- The rules below that of a whole file. -/
inductive RuleName where
  | identifier | number | string | assignOperator | terminator | coreVariable | fileStarter
  | target | value | assignment | statement | topLevelAssignment | block | routeName | route
  | topLevel
  deriving DecidableEq

namespace RuleName

/-- The rule of a name. -/
def rule : RuleName → Rule
  | identifier => Grammar.identifier
  | number => Grammar.number
  | string => Grammar.string
  | assignOperator => Grammar.assignOperator
  | terminator => Grammar.terminator
  | coreVariable => Grammar.coreVariable
  | fileStarter => Grammar.fileStarter
  | target => Grammar.target
  | value => Grammar.value
  | assignment => Grammar.assignment
  | statement => Grammar.statement
  | topLevelAssignment => Grammar.topLevelAssignment
  | block => Grammar.block
  | routeName => Grammar.routeName
  | route => Grammar.route
  | topLevel => Grammar.topLevel

/-- Every rule comes to what some reading says. -/
theorem exists_reads : ∀ name : RuleName, ∃ f, Reads name.rule f
  | identifier => ⟨_, reads_identifier⟩
  | number => ⟨_, reads_number⟩
  | string => ⟨_, reads_string⟩
  | assignOperator => ⟨_, reads_assignOperator⟩
  | terminator => ⟨_, reads_terminator⟩
  | coreVariable => ⟨_, reads_coreVariable⟩
  | fileStarter => ⟨_, reads_fileStarter⟩
  | target => ⟨_, reads_target⟩
  | value => ⟨_, reads_value⟩
  | assignment => ⟨_, reads_assignment⟩
  | statement => ⟨_, reads_statement⟩
  | topLevelAssignment => ⟨_, reads_topLevelAssignment⟩
  | block => ⟨_, reads_block⟩
  | routeName => ⟨_, reads_routeName⟩
  | route => ⟨_, reads_route⟩
  | topLevel => ⟨_, reads_topLevel⟩

end RuleName

/-! ## Reached states -/

variable {options : ParseOptions} {tokens : List LocatedToken} {c : Context} {s : State}
  {n p f : NodeId} {node : Node} {name : RuleName}

/-- The states that steps of a parse of the tokens lead to: its rules may run in any order from any
place of the stream, and between them nodes of the store may be made, hung and marked as the rules
do. What stands for nothing is never changed. -/
inductive Reached (options : ParseOptions) (tokens : List LocatedToken) : State → Prop
  | start : Reached options tokens (.ofTokens tokens)
  | seek {s : State} (k : Nat) : Reached options tokens s →
      Reached options tokens { s with pending := (splitClosing tokens).1.drop k }
  | run {s : State} (name : RuleName) : Reached options tokens s →
      Reached options tokens (name.rule (.ofTokens options tokens) s).2
  | script {s : State} : Reached options tokens s →
      Reached options tokens (script (.ofTokens options tokens) s).2
  | newNode {s : State} {node : Node} : Reached options tokens s → node.payload.ids = [] →
      node.parent = none → Reached options tokens (newNode node (.ofTokens options tokens) s).2
  | attach {s : State} {p f : NodeId} : Reached options tokens s → p ≠ nothingId →
      p < s.tree.size → f < s.tree.size →
      Reached options tokens (attach p f (.ofTokens options tokens) s).2
  | adoptChildren {s : State} {p g : NodeId} : Reached options tokens s → p ≠ nothingId →
      p < s.tree.size → Reached options tokens (adoptChildren p g (.ofTokens options tokens) s).2
  | keepMistake {s : State} {p f : NodeId} : Reached options tokens s → p ≠ nothingId →
      p < s.tree.size → f < s.tree.size →
      Reached options tokens (keepMistake p f (.ofTokens options tokens) s).2
  | setRange {s : State} {n : NodeId} (change : Node → Option ByteRange) :
      Reached options tokens s → n ≠ nothingId → n < s.tree.size →
      Reached options tokens { s with
        tree := s.tree.modify n fun node => { node with range := change node } }
  | setRole {s : State} {n : NodeId} (role : String) : Reached options tokens s → n ≠ nothingId →
      n < s.tree.size → Reached options tokens { s with tree := s.tree.setRole n role }

theorem Comes.ready {s₁ : State} {id : NodeId} {r : Result} (hs : s.Ready) (h : Comes s r id s₁) :
    s₁.Ready :=
  hs.of_grows h.grows

theorem State.Ready.attach (hs : s.Ready) (hn : p ≠ nothingId) (hp : p < s.tree.size)
    (hf : f < s.tree.size) (c : Context) : (attach p f c s).2.Ready := by
  simp only [Grammar.attach, modify_run]
  cases hok : s.tree.refusalAs? .children p f with
  | some e => exact ⟨hs.sound, hs.pos, hs.nothing⟩
  | none =>
    have hnf : nothingId ≠ f := fun e =>
      ((Tree.refusalAs?_eq_none hs.sound.links).1 hok).2.1 (by rw [← e, Tree.kind, hs.nothing]; rfl)
    refine ⟨(Tree.hangLast_spec hs.sound hf hp hok).1, ?_, ?_⟩
    · rw [Tree.size_hangLast]
      exact hs.pos
    · rw [Tree.node_hangLast_of_alone hs.sound hp hf hok (by rw [Tree.childIds, hs.nothing]; rfl)
        (by rw [hs.nothing]; rfl) hn.symm hnf, hs.nothing]

theorem State.Ready.adoptChildren (hs : s.Ready) (hn : p ≠ nothingId) (hp : p < s.tree.size)
    (g : NodeId) (c : Context) : (adoptChildren p g c s).2.Ready where
  sound := hs.sound.moveChildren hp g
  pos := by
    show 0 < (s.tree.attachAll p (s.tree.children g)).1.size
    rw [Tree.size_attachAll]
    exact hs.pos
  nothing := Tree.node_attachAll_of_empty hs.sound hp
    (fun _ hc => hs.sound.child_lt_size (Tree.children_subset _ _ hc)) hs.nothing hn.symm

theorem State.Ready.relabel (hs : s.Ready) {change : Node → Node} (hc : Tree.Relabels change)
    (hn : n ≠ nothingId) (hlt : n < s.tree.size) :
    State.Ready { s with tree := s.tree.modify n change } where
  sound := hs.sound.relabel hc n
  pos := by rw [Tree.size_modify]; exact hs.pos
  nothing := by rw [Tree.node_modify hlt, if_neg hn.symm, hs.nothing]

/-- Rules may run from every state that is reached. -/
theorem Reached.ready (h : Reached options tokens s) : s.Ready := by
  have hc := closed_ofTokens options tokens
  induction h with
  | start => exact ready_ofTokens tokens
  | seek k _ ih => exact ⟨ih.sound, ih.pos, ih.nothing⟩
  | run name _ ih =>
    obtain ⟨f, hf⟩ := name.exists_reads
    exact (hf _ _ hc ih).ready ih
  | script _ ih => exact ih.of_grows (script_run hc ih).1.grows
  | newNode _ hids hparent ih => exact ih.of_grows (Tree.grows_push ih.sound hids hparent)
  | attach _ hn hp hf ih => exact ih.attach hn hp hf _
  | adoptChildren _ hn hp ih => exact ih.adoptChildren hn hp _ _
  | keepMistake _ hn hp hf ih =>
    rw [keepMistake_run]
    have := ih.attach hn hp hf (.ofTokens options tokens)
    exact ⟨this.sound, this.pos, this.nothing⟩
  | setRange change _ hn hlt ih => exact ih.relabel (Tree.relabels_range change) hn hlt
  | setRole role _ hn hlt ih => exact ih.relabel (Tree.relabels_role role) hn hlt

/-! ## What a rule without success leaves -/

/-- All that was there in a state is there in another: it stands where the first does, and its
store holds the same nodes, with others after them. -/
structure State.Untouched (s s₁ : State) : Prop where
  pending : s₁.pending = s.pending
  mistakes : s₁.mistakes = s.mistakes
  stopped : s₁.stopped = s.stopped
  refusals : s₁.refusals = s.refusals
  size_le : s.tree.size ≤ s₁.tree.size
  node : ∀ id, id < s.tree.size → s₁.tree.node id = s.tree.node id

/-- From every state that is reached, a rule that finds a mistake or nothing leaves the cursor, the
mistakes that were kept and whether the parse has stopped as they were, and only adds nodes. -/
theorem untouched_of_no_success (h : Reached options tokens s) {id : NodeId} {s₁ : State}
    (hrun : name.rule (.ofTokens options tokens) s = (id, s₁))
    (hkind : s₁.tree.kind id = .error ∨ s₁.tree.kind id = .empty) : s.Untouched s₁ := by
  obtain ⟨f, hf⟩ := name.exists_reads
  have step := hf _ s (closed_ofTokens options tokens) h.ready
  rw [hrun] at step
  have hne : (f (.ofTokens options tokens) s.stand).outcome ≠ .success := by
    have hout : (s₁.tree.kind id).outcome = _ := step.outcome h.ready
    rw [← hout]
    rcases hkind with hkind | hkind <;> rw [hkind] <;> decide
  have hstand := step.stand hne
  exact {
    pending := congrArg Stand.pending hstand
    mistakes := congrArg Stand.mistakes hstand
    stopped := congrArg Stand.stopped hstand
    refusals := step.refusals
    size_le := step.grows.size_le
    node := step.grows.keeps }

/-- A route whose name is not well formed, after an assignment, with no block after it. -/
def misnamedRoute : List LocatedToken :=
  [⟨.ofText .identifier "a", 0, 1⟩, ⟨.ofText .assign "=", 1, 2⟩, ⟨⟨.integer, .integer 1⟩, 2, 3⟩,
   ⟨.ofText .route "route", 4, 9⟩, ⟨.ofText .leftBracket "[", 9, 10⟩,
   ⟨.ofText .assign "=", 10, 11⟩, ⟨.ofText .rightBracket "]", 11, 12⟩]

theorem untouched_of_no_success_misnamedRoute :
    ∃ s, Reached .default misnamedRoute s ∧ s.pending.length = 4 ∧
      (s.tree.node 1).label = ⟨.assignment, none, some ⟨0, 3⟩⟩ ∧
      s.Untouched (route (.ofTokens .default misnamedRoute) s).2 := by
  have h : Reached .default misnamedRoute _ := Reached.start.run .topLevelAssignment
  exact ⟨_, h, by decide +kernel, by decide +kernel, untouched_of_no_success h
    (show RuleName.route.rule _ _ = (_, _) from rfl) (.inl (by decide +kernel))⟩

end Grammar
end RouteScript
