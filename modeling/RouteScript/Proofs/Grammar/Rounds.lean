import Mathlib.Data.List.Chain
import RouteScript.Proofs.Grammar.Failure
/-!
# Rounds

The loops of a block and of a script go on as long as a round answers yes. That each of them also
asks whether the cursor came forward is never felt: a round that answers yes always brings it
forward (`blockRound_step`, `scriptRound_step`), and so the rounds come to an end by themselves
(`ends_of_step`). A script leaves its loop at the end of the stream or where the parse has
stopped.

What is kept as a mistake is one. This is said by letting the way to keep it vary: whatever is done
to nodes that are no mistakes, every round and every route comes to the same.
-/
namespace RouteScript.Grammar

/-- The second state stands further on in the stream. -/
def State.Before (s s₁ : State) : Prop := s₁.pending <:+ s.pending ∧ s₁.pending ≠ s.pending

/-- The rounds of a loop, of which all but the last answer yes; `begun` are the states they begin
in. -/
inductive Rounds (round : Parse Bool) (c : Context) : State → List State → State → Prop
  | last {s after : State} : round c s = (false, after) → Rounds round c s [s] after
  | again {s s₁ after : State} {begun : List State} : round c s = (true, s₁) →
      Rounds round c s₁ begun after → Rounds round c s (s :: begun) after

/-- The loop comes to an end by itself: each of its rounds begins further on in the stream than the
one before, and the loop that asks for that comes to the same. -/
structure Ends (round : Parse Bool) (c : Context) (s : State) (begun : List State)
    (after : State) : Prop where
  rounds : Rounds round c s begun after
  onward : begun.IsChain State.Before
  run : whileAdvancing round c s = ((), after)

/-! ## Other ways to keep a mistake -/

/-- What `keep` does to mistakes is to keep them; what it does to other nodes is left open. -/
def KeepsMistakes (keep : NodeId → NodeId → Parse Unit) : Prop :=
  ∀ n f c s, s.tree.kind f = .error → keep n f c s = keepMistake n f c s

/-- The round of a block with another way to keep its mistake. -/
def blockRoundWith (keep : NodeId → NodeId → Parse Unit) (block : NodeId) : Parse Bool := do
  adoptChildren block (← many .block statement)
  match ← takeIf? .rightBrace with
  | some closing =>
    widen block closing.range
    return false
  | none =>
    let unclosed := leavesBlock (← current)
    let error ← if unclosed then missing "\x7d" else statement
    widenOver block error
    keep block error
    if unclosed || (← isStopped) then return false
    restart true
    return true

/-- The first part of a route's body with another way to keep the mistake in its name. -/
def keepNameErrorWith (keep : NodeId → NodeId → Parse Unit) (route : NodeId) :
    Option NodeId → Parse Bool
  | none => return true
  | some error => do
    keep route error
    widenOver route error
    return !(← isStopped)

/-- A route with another way to keep the mistake in its name. -/
def routeWith (keep : NodeId → NodeId → Parse Unit) : Rule := do
  let t ← current
  match routeKind? t.token with
  | none => missing "route"
  | some kind =>
    let start := (← get).pending
    let opening ← readToken
    let node ← newNode ((Node.ofKind kind).withRange opening.range)
    let error ← readName node kind
    if (← currentKind) ≠ .leftBrace then missingFrom start "\x7b"
    else
      if ← keepNameErrorWith keep node error then routeBody node
      return node

/-- The round of a script with another way to keep its mistake, and with `exit` for what is done
where constructs are to come but no mistake is found. -/
def scriptRoundWith (keep : NodeId → NodeId → Parse Unit) (exit : Parse Bool) (root : NodeId) :
    Parse Bool := do
  adoptChildren root (← many .root topLevel)
  if (← atEnd) || (← isStopped) then return false
  let error ← topLevel
  match ← outcomeOf error with
  | .failure =>
    keep root error
    if ← isStopped then return false
    restart false
    return true
  | _ => exit

theorem blockRoundWith_keepMistake : blockRoundWith keepMistake = blockRound := rfl

theorem routeWith_keepMistake : routeWith keepMistake = route := rfl

theorem scriptRoundWith_keepMistake :
    scriptRoundWith keepMistake (return false) = scriptRound := rfl

/-- The end of a script, once its rounds are over. -/
def closeScript (root : NodeId) : Rule := do
  let closing ← readToEnd
  let last ← newNode ((Node.ofKind .endOfInput).withRange closing.range)
  attach root last
  coverChildren root
  return root

variable {options : ParseOptions} {tokens : List LocatedToken} {c : Context} {s s₁ after : State}
  {begun : List State} {n f : NodeId} {r : ByteRange} {l : Label} {xs : List Item}
  {round : Parse Bool} {keep : NodeId → NodeId → Parse Unit}

/-! ## Loops that end -/

theorem State.Before.length_lt (h : s.Before s₁) : s₁.pending.length < s.pending.length :=
  Nat.lt_of_le_of_ne h.1.length_le fun e => h.2 (h.1.eq_of_length e)

/-- A restart from a place further on is further on. -/
theorem before_of_restart {here : Stand} {inBlock : Bool} (hc : c.Closed)
    (hle : here.pending <:+ s.pending) (hend : (here.current c).isEnd = false)
    (hst : s₁.stand = here.restart inBlock c) : s.Before s₁ := by
  have hpending : s₁.pending = (here.restart inBlock c).pending := congrArg Stand.pending hst
  have hlt := length_restart_lt hc hend inBlock
  refine ⟨hpending ▸ (suffix_restart inBlock c here).trans hle, fun e => ?_⟩
  rw [hpending] at e
  rw [e] at hlt
  exact absurd hlt (Nat.not_lt.2 hle.length_le)

theorem Rounds.exists_cons (h : Rounds round c s begun after) : ∃ rest, begun = s :: rest := by
  cases h with
  | last => exact ⟨[], rfl⟩
  | again => exact ⟨_, rfl⟩

/-- The last round leads to where the loop ends. -/
theorem Rounds.exists_last (h : Rounds round c s begun after) :
    ∃ a ∈ begun, round c a = (false, after) := by
  induction h with
  | last h => exact ⟨_, List.mem_cons_self, h⟩
  | again _ _ ih =>
    obtain ⟨a, ha, hround⟩ := ih
    exact ⟨a, List.mem_cons_of_mem _ ha, hround⟩

/-- A loop ends whose rounds, while they answer yes, keep an invariant and bring the cursor
forward. -/
theorem ends_of_step {Inv : State → Prop}
    (step : ∀ a b, Inv a → round c a = (true, b) → Inv b ∧ a.Before b) (hs : Inv s) :
    ∃ begun after, Ends round c s begun after ∧ ∀ a ∈ begun, Inv a := by
  induction hn : s.pending.length using Nat.strongRecOn generalizing s with
  | ind n ih =>
    cases hround : round c s with
    | mk answer s₁ =>
      cases answer with
      | false =>
        refine ⟨[s], s₁, ⟨.last hround, .singleton s, whileAdvancing_of_stop hround⟩, ?_⟩
        simpa using hs
      | true =>
        obtain ⟨hs₁, hbefore⟩ := step s s₁ hs hround
        obtain ⟨begun, after, hends, hall⟩ := ih _ (hn ▸ hbefore.length_lt) hs₁ rfl
        refine ⟨s :: begun, after, ⟨.again hround hends.rounds, ?_, ?_⟩, ?_⟩
        · obtain ⟨rest, rfl⟩ := hends.rounds.exists_cons
          exact hends.onward.cons_cons hbefore
        · rw [whileAdvancing_of_more hround hbefore.length_lt, hends.run]
        · exact List.forall_mem_cons.2 ⟨hs, hall⟩

/-! ## What is kept -/

theorem Comes.kind_error {e : Fault} (h : Comes s (.fault e) f s₁) : s₁.tree.kind f = .error := by
  cases h with
  | fault hb => exact hb.kind

theorem kind_widenOver (n f x : NodeId) (c : Context) (s : State) :
    (widenOver n f c s).2.tree.kind x = s.tree.kind x := by
  simp only [widenOver, bind_run, nodeOf_run]
  cases (s.tree.node f).range with
  | none => rfl
  | some r => exact (Tree.relabels_range _).sameLinks.1.kind x

/-! ## Blocks -/

/-- A round of a block that answers yes has more of the block built, and stands further on. -/
theorem blockRound_step (hc : c.Closed) (hs : s.Ready) {a b : State}
    (ha : ∃ r xs, Built s n (.bundle (blockLabel r) xs) a) (hround : blockRound n c a = (true, b)) :
    (∃ r xs, Built s n (.bundle (blockLabel r) xs) b) ∧ a.Before b := by
  obtain ⟨r, xs, hb⟩ := ha
  have hg := Reading.gathered_collect Reading.forward_statement hc a.stand
  generalize (Reading.collect .statement c a.stand).1 = ys at hg
  generalize (Reading.collect .statement c a.stand).2 = here at hg
  by_cases hclose : (here.current c).kind = .rightBrace
  · obtain ⟨u, hu, -⟩ := blockRound_closed hc hs hb hg hclose
    rw [hu] at hround
    cases hround
  by_cases hleaves : leavesBlock (here.current c) = true
  · obtain ⟨u, hu, -⟩ := blockRound_unclosed hc hs hb hg hclose hleaves
    rw [hu] at hround
    cases hround
  rw [Bool.not_eq_true] at hleaves
  cases he : Reading.statement c here with
  | nothing => exact absurd he (Reading.definite_statement c here)
  | found x u => exact absurd (by rw [he]; rfl) hg.stopped
  | fault e =>
    obtain ⟨u, hu, hb₂, hst⟩ := blockRound_fault hc hs hb hg hclose hleaves he
    by_cases hstop : (here.keep c).stopped = true
    · rw [hu, if_pos hstop] at hround
      cases hround
    rw [hround, if_neg hstop, Prod.mk.injEq] at hu
    obtain ⟨-, rfl⟩ := hu
    exact ⟨⟨_, _, hb₂.congr rfl rfl⟩, before_of_restart hc (hg.suffix Reading.onward_statement hc)
      (Reading.isEnd_of_leavesBlock hleaves) (stand_restart hst true)⟩

/-- What a round of a block keeps is a mistake. -/
theorem blockRoundWith_eq (hk : KeepsMistakes keep) (hc : c.Closed) (hs : s.Ready)
    (hb : Built s n (.bundle (blockLabel r) xs) s₁) :
    blockRoundWith keep n c s₁ = blockRound n c s₁ := by
  have hg := Reading.gathered_collect Reading.forward_statement hc s₁.stand
  obtain ⟨s₂, hadopt, hb₂, hst⟩ :=
    hb.adopt_many hs hc reads_statement Reading.forward_statement hg .block
  rw [← hst] at hg
  simp only [blockRoundWith, blockRound, bind_run, hadopt, takeIf?_run]
  by_cases hclose : (s₂.stand.current c).kind = .rightBrace
  · simp only [if_pos hclose]
  simp only [if_neg hclose, bind_run, current_run, ↓ite_run]
  have hs₂ := hs.of_grows hb₂.grows
  by_cases hleaves : leavesBlock (s₂.stand.current c) = true
  · have herror := (reads_missing "\x7d" c s₂ hc hs₂).kind_error
    simp only [if_pos hleaves]
    rw [hk n _ c _ ((kind_widenOver ..).trans herror)]
  have step := reads_statement c s₂ hc hs₂
  cases he : Reading.statement c s₂.stand with
  | nothing => exact absurd he (Reading.definite_statement c s₂.stand)
  | found x u => exact absurd (by rw [he]; rfl) hg.stopped
  | fault e =>
    rw [he] at step
    simp only [if_neg hleaves]
    rw [hk n _ c _ ((kind_widenOver ..).trans step.kind_error)]

/-! ## Routes -/

/-- What a route keeps of its name is a mistake. -/
theorem routeWith_eq (hk : KeepsMistakes keep) (hc : c.Closed) (hs : s.Ready) :
    routeWith keep c s = route c s := by
  simp only [routeWith, route, bind_run, current_run]
  cases hkind : routeKind? (s.stand.current c).token with
  | none => rfl
  | some kind =>
    have hready : (s.advance c).Ready := ⟨hs.sound, hs.pos, hs.nothing⟩
    have hnew : Built (s.advance c) _ (.bundle ⟨kind, none, some _⟩ []) _ := built_newNode
      (s := s.advance c) hs.sound ((Node.ofKind kind).withRange (s.stand.current c).range) rfl rfl c
    simp only [bind_run, get_run, readToken_run]
    generalize newNode ((Node.ofKind kind).withRange (s.stand.current c).range) c (s.advance c)
      = opened at hnew ⊢
    obtain ⟨n, s₁⟩ := opened
    simp only at hnew
    have hheaded := Reading.headed_header kind c s₁.stand
    obtain ⟨error, s₂, hread, hst, hname⟩ := readName_run hc hready hnew hheaded
    simp only [hread, ↓ite_run, currentKind_run, bind_run]
    have hsame : keepNameErrorWith keep n error c s₂ = keepNameError n error c s₂ := by
      cases he : (Reading.header kind c s₁.stand).error with
      | none =>
        rw [he] at hname
        obtain ⟨rfl, -⟩ := hname
        rfl
      | some e =>
        rw [he] at hname
        obtain ⟨-, id, rfl, hbe⟩ := hname
        simp only [keepNameErrorWith, keepNameError, bind_run]
        rw [hk n id c s₂ hbe.kind]
    rw [hsame]

/-! ## Scripts -/

/-- A round of a script has more of the root built. If it answers yes it stands further on, and if
not, at the end of the stream or where the parse has stopped. -/
theorem scriptRound_step (hc : c.Closed) (hs : s.Ready) {a b : State} {answer : Bool}
    (ha : ∃ xs, Built s n (.bundle l xs) a) (hround : scriptRound n c a = (answer, b)) :
    if answer then (∃ xs, Built s n (.bundle l xs) b) ∧ a.Before b
    else (b.stand.current c).isEnd = true ∨ b.stopped = true := by
  obtain ⟨xs, hb⟩ := ha
  have hg := Reading.gathered_collect Reading.forward_topLevel hc a.stand
  generalize (Reading.collect .topLevel c a.stand).1 = ys at hg
  generalize (Reading.collect .topLevel c a.stand).2 = here at hg
  by_cases hend : ((here.current c).isEnd || here.stopped) = true
  · obtain ⟨u, hu, -, rfl⟩ := scriptRound_ended hc hs hb hg hend
    rw [hround, Prod.mk.injEq] at hu
    obtain ⟨rfl, rfl⟩ := hu
    simpa [State.stand] using hend
  rw [Bool.not_eq_true] at hend
  cases he : Reading.topLevel c here with
  | nothing => exact absurd he (Reading.topLevel_ne_nothing hend)
  | found x u => exact absurd (by rw [he]; rfl) hg.stopped
  | fault e =>
    obtain ⟨u, hu, hb₂, hst⟩ := scriptRound_fault hc hs hb hg hend he
    by_cases hstop : (here.keep c).stopped = true
    · rw [hround, if_pos hstop, Prod.mk.injEq] at hu
      obtain ⟨rfl, rfl⟩ := hu
      exact .inr ((congrArg Stand.stopped hst).trans hstop)
    · rw [hround, if_neg hstop, Prod.mk.injEq] at hu
      obtain ⟨rfl, rfl⟩ := hu
      exact ⟨⟨_, hb₂.congr rfl rfl⟩, before_of_restart hc
        (hg.suffix Reading.onward_topLevel hc) (Bool.or_eq_false_iff.1 hend).1
        (stand_restart hst false)⟩

/-- What a round of a script keeps is a mistake, and where constructs are to come one is found. -/
theorem scriptRoundWith_eq (hk : KeepsMistakes keep) (exit : Parse Bool) (hc : c.Closed)
    (hs : s.Ready) (hb : Built s n (.bundle l xs) s₁) :
    scriptRoundWith keep exit n c s₁ = scriptRound n c s₁ := by
  have hg := Reading.gathered_collect Reading.forward_topLevel hc s₁.stand
  obtain ⟨s₂, hadopt, hb₂, hst⟩ :=
    hb.adopt_many hs hc reads_topLevel Reading.forward_topLevel hg .root
  rw [← hst] at hg
  simp only [scriptRoundWith, scriptRound, bind_run, hadopt, atEnd_run, isStopped_run, ↓ite_run]
  by_cases hend : ((s₂.stand.current c).isEnd || s₂.stand.stopped) = true
  · simp only [if_pos hend]
  simp only [if_neg hend]
  rw [Bool.not_eq_true] at hend
  have hs₂ := hs.of_grows hb₂.grows
  have step := reads_topLevel c s₂ hc hs₂
  have hout := step.outcome hs₂
  cases he : Reading.topLevel c s₂.stand with
  | nothing => exact absurd he (Reading.topLevel_ne_nothing hend)
  | found x u => exact absurd (by rw [he]; rfl) hg.stopped
  | fault e =>
    rw [he] at step hout
    simp only [bind_run, outcomeOf_run, hout, Result.outcome, ↓ite_run, isStopped_run]
    rw [hk n _ c _ step.kind_error]

/-! ## Loops of a parse -/

/-- The loop of a script ends, at the end of the stream or where the parse has stopped. -/
theorem ends_script (hc : c.Closed) (hs : s.Ready) (hb : Built s n (.bundle l []) s₁) :
    ∃ begun after, Ends (scriptRound n) c s₁ begun after ∧
      ((after.stand.current c).isEnd = true ∨ after.stopped = true) ∧
      ∀ a ∈ begun, ∃ xs, Built s n (.bundle l xs) a := by
  obtain ⟨begun, after, hends, hall⟩ := ends_of_step
    (fun a b ha hround => scriptRound_step hc hs ha hround) ⟨[], hb⟩
  obtain ⟨a, ha, hlast⟩ := hends.rounds.exists_last
  exact ⟨begun, after, hends, scriptRound_step hc hs (hall a ha) hlast, hall⟩

/-- From every state that steps of a parse lead to, the loop of a script comes to an end by itself,
at the end of the stream or where the parse has stopped, and so does that of a block. Neither they
nor a route keep anything but mistakes, and a script never finds something else where constructs
are to come and none can be read. -/
theorem loops_end_of_reached (h : Reached options tokens s) :
    let c := Context.ofTokens options tokens
    (∃ begun after, let root := newNode (.ofKind .root) c s
      Ends (scriptRound root.1) c root.2 begun after ∧
      script c s = closeScript root.1 c after ∧
      ((after.stand.current c).isEnd = true ∨ after.stopped = true) ∧
      ∀ a ∈ begun, ∀ keep exit, KeepsMistakes keep →
        scriptRoundWith keep exit root.1 c a = scriptRound root.1 c a) ∧
    ((s.stand.current c).kind = .leftBrace → ∃ begun after,
      let node := newNode ((Node.ofKind .block).withRange (s.stand.current c).range) c (s.advance c)
      Ends (blockRound node.1) c node.2 begun after ∧
      block c s = (node.1, after) ∧
      ∀ a ∈ begun, ∀ keep, KeepsMistakes keep →
        blockRoundWith keep node.1 c a = blockRound node.1 c a) ∧
    ∀ keep, KeepsMistakes keep → routeWith keep c s = route c s := by
  intro c
  have hc : c.Closed := closed_ofTokens options tokens
  have hs := h.ready
  refine ⟨?_, fun hopen => ?_, fun keep hk => routeWith_eq hk hc hs⟩
  · have hroot : Built s _ (.bundle ⟨.root, none, none⟩ []) _ :=
      built_newNode hs.sound (.ofKind .root) rfl rfl c
    obtain ⟨begun, after, hends, hleft, hall⟩ := ends_script hc hs hroot
    refine ⟨begun, after, hends, ?_, hleft, fun a ha keep exit hk => ?_⟩
    · simp only [script, closeScript, bind_run, hends.run]
    · obtain ⟨xs, hb⟩ := hall a ha
      exact scriptRoundWith_eq hk exit hc hs hb
  · have hready : (s.advance c).Ready := ⟨hs.sound, hs.pos, hs.nothing⟩
    have hnode : Built (s.advance c) _ (.bundle (blockLabel (s.stand.current c).range) []) _ :=
      built_newNode (s := s.advance c) hs.sound
        ((Node.ofKind .block).withRange (s.stand.current c).range) rfl rfl c
    obtain ⟨begun, after, hends, hall⟩ := ends_of_step
      (fun a b ha hround => blockRound_step hc hready ha hround) ⟨_, _, hnode⟩
    refine ⟨begun, after, hends, ?_, fun a ha keep hk => ?_⟩
    · simp only [block, bind_run, takeIf?_run, if_pos hopen, hends.run, pure_run]
    · obtain ⟨r, xs, hb⟩ := hall a ha
      exact blockRoundWith_eq hk hc hready hb

/-- A block with two statements that are not well formed. -/
def spoiledBlock : List LocatedToken :=
  [⟨.ofText .leftBrace "\x7b", 0, 1⟩, ⟨.ofText .identifier "a", 1, 2⟩, ⟨.ofText .assign "=", 2, 3⟩,
   ⟨.ofText .semicolon ";", 3, 4⟩, ⟨.ofText .identifier "b", 5, 6⟩,
   ⟨.ofText .rightBrace "\x7d", 6, 7⟩]

theorem loops_end_of_reached_spoiledBlock : ∃ begun after,
    Ends (blockRound 1) (.ofTokens .default spoiledBlock) (newNode
      ((Node.ofKind .block).withRange ⟨0, 1⟩) (.ofTokens .default spoiledBlock)
      ((State.ofTokens spoiledBlock).advance (.ofTokens .default spoiledBlock))).2 begun after ∧
    after.mistakes = 2 := by
  have h : Reached .default spoiledBlock _ := .start
  obtain ⟨begun, after, hends, hrun, -⟩ := (loops_end_of_reached h).2.1 (by decide +kernel)
  refine ⟨begun, after, hends, ?_⟩
  have hmistakes : (block (.ofTokens .default spoiledBlock) (.ofTokens spoiledBlock)).2.mistakes =
    2 := by decide +kernel
  rw [hrun] at hmistakes
  exact hmistakes

end RouteScript.Grammar
