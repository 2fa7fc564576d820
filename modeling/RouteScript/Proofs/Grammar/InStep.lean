import RouteScript.Proofs.Grammar.Found
import RouteScript.Proofs.Grammar.Steady
import RouteScript.Proofs.Tree.Cleared
/-!
# Two parses in step

Two parses run side by side over streams that hold the same tokens up to their first end of input,
at whatever ranges and with whatever behind it. They stay `InStep`: what is ahead of them up to
there is the same, and so are their trees without ranges, their mistakes and their refusals. Two
steps are `Level` if they keep parses in step and answer the same.
-/
namespace RouteScript.Grammar

variable {α β γ : Type}

/-! ## Streams -/

/-- Neither a stream nor its rest holds anything before an end of input. -/
def Ended (tokens : List LocatedToken) : Prop := ∀ t ∈ tokens.head?, t.isEnd = true

/-- The streams hold the same tokens, none of them an end of input, before what is left of them. -/
inductive Parallel (rest rest' : List LocatedToken) : List LocatedToken → List LocatedToken → Prop
  | rest : Parallel rest rest' rest rest'
  | cons {t t' : LocatedToken} {ts ts' : List LocatedToken} : t.token = t'.token →
      t.isEnd = false → Parallel rest rest' ts ts' → Parallel rest rest' (t :: ts) (t' :: ts')

/-- The tokens before the first end of input. -/
def readable (tokens : List LocatedToken) : List LocatedToken := tokens.takeWhile fun t => !t.isEnd

/-- The tokens from the first end of input on. -/
def beyond (tokens : List LocatedToken) : List LocatedToken := tokens.dropWhile fun t => !t.isEnd

/-- The tokens are the same, or both close a stream. -/
def Akin (t t' : LocatedToken) : Prop := t.token = t'.token ∨ t.isEnd = true ∧ t'.isEnd = true

theorem kind_of_isEnd {t : Token} (h : t.isEnd = true) : t.kind = .endOfInput :=
  of_decide_eq_true h

namespace Akin

variable {t t' : LocatedToken}

theorem kind (h : Akin t t') : t.kind = t'.kind := by
  rcases h with h | ⟨h, h'⟩
  · rw [LocatedToken.kind, h]
  · rw [LocatedToken.kind, LocatedToken.kind, kind_of_isEnd h, kind_of_isEnd h']

theorem isEnd (h : Akin t t') : t.isEnd = t'.isEnd := by
  simp only [LocatedToken.isEnd, Token.isEnd, h.kind]

/-- Tokens that are akin are the same where they close no stream. -/
theorem token (h : Akin t t') (hkind : t.kind ≠ .endOfInput) : t.token = t'.token :=
  h.resolve_right fun he => hkind (kind_of_isEnd he.1)

theorem missingMessage (h : Akin t t') (what : String) :
    missingMessage what t.token = missingMessage what t'.token := by
  rcases h with h | ⟨h, h'⟩
  · rw [h]
  · rw [Grammar.missingMessage, Grammar.missingMessage, if_pos h, if_pos h']

end Akin

theorem readable_cons {t : LocatedToken} (h : t.isEnd = false) (tokens : List LocatedToken) :
    readable (t :: tokens) = t :: readable tokens := by
  simp [readable, h]

theorem beyond_cons {t : LocatedToken} (h : t.isEnd = false) (tokens : List LocatedToken) :
    beyond (t :: tokens) = beyond tokens := by
  simp [beyond, h]

theorem readable_eq_nil {tokens : List LocatedToken} : readable tokens = [] ↔ Ended tokens := by
  cases tokens with
  | nil => simp [readable, Ended]
  | cons t tokens => simp [readable, Ended, List.takeWhile_cons]

theorem beyond_of_ended {tokens : List LocatedToken} (h : Ended tokens) :
    beyond tokens = tokens := by
  cases tokens with
  | nil => rfl
  | cons t tokens =>
    have hend : t.isEnd = true := h t rfl
    simp [beyond, hend]

theorem ended_beyond (tokens : List LocatedToken) : Ended (beyond tokens) := by
  intro t ht
  have hnot := List.head?_dropWhile_not (fun t : LocatedToken => !t.isEnd) tokens
  rw [beyond] at ht
  rw [Option.mem_def.1 ht] at hnot
  simpa using hnot

/-- Streams that hold the same tokens up to their first ends of input are parallel. -/
theorem parallel_of_readable {ts ts' : List LocatedToken}
    (h : (readable ts).map (·.token) = (readable ts').map (·.token)) :
    Parallel (beyond ts) (beyond ts') ts ts' := by
  induction ts generalizing ts' with
  | nil =>
    have hts' : Ended ts' := readable_eq_nil.1 (List.map_eq_nil_iff.1 h.symm)
    rw [beyond_of_ended hts']
    exact .rest
  | cons t ts ih =>
    cases hend : t.isEnd with
    | true =>
      have hts : Ended (t :: ts) := fun u hu => Option.some.inj hu ▸ hend
      rw [readable_eq_nil.2 hts] at h
      have hts' : Ended ts' := readable_eq_nil.1 (List.map_eq_nil_iff.1 h.symm)
      rw [beyond_of_ended hts, beyond_of_ended hts']
      exact .rest
    | false =>
      rw [readable_cons hend, List.map_cons] at h
      cases ts' with
      | nil => cases h
      | cons t' ts' =>
        cases hend' : t'.isEnd with
        | true => simp [readable, hend'] at h
        | false =>
          rw [readable_cons hend', List.map_cons, List.cons.injEq] at h
          rw [beyond_cons hend, beyond_cons hend']
          exact .cons h.1 hend (ih h.2)

namespace Parallel

variable {rest rest' ts ts' us us' : List LocatedToken}

theorem length (h : Parallel rest rest' ts ts') :
    ts.length + rest'.length = ts'.length + rest.length := by
  induction h with
  | rest => exact Nat.add_comm ..
  | cons _ _ _ ih => simp only [List.length_cons]; omega

theorem beyond_eq (h : Parallel rest rest' ts ts') (hrest : Ended rest) : beyond ts = rest := by
  induction h with
  | rest => exact beyond_of_ended hrest
  | cons _ hend _ ih => rw [beyond_cons hend, ih]

theorem current (h : Parallel rest rest' ts ts') (hrest : Ended rest) (hrest' : Ended rest')
    {close close' : LocatedToken} (hc : close.isEnd = true) (hc' : close'.isEnd = true) :
    Akin (ts.headD close) (ts'.headD close') := by
  have hhead : ∀ {us : List LocatedToken} {close : LocatedToken}, Ended us → close.isEnd = true →
      (us.headD close).isEnd = true := fun {us} _ hus hclose => by
    cases us with
    | nil => exact hclose
    | cons t us => exact hus t rfl
  cases h with
  | rest => exact .inr ⟨hhead hrest hc, hhead hrest' hc'⟩
  | cons heq _ _ => exact .inl heq

theorem tail (h : Parallel rest rest' ts ts') (hrest : Ended rest) {close : LocatedToken}
    (hc : close.isEnd = true) (hend : (ts.headD close).isEnd = false) :
    Parallel rest rest' ts.tail ts'.tail := by
  cases h with
  | cons _ _ h => exact h
  | rest =>
    cases rest with
    | nil => exact absurd hend (by rw [List.headD_nil, hc]; decide)
    | cons t rest => exact absurd hend (by rw [List.headD_cons, hrest t rfl]; decide)

theorem restartFrom_of_ended (h : Ended ts) (inBlock : Bool) (depth : Nat) (first : Bool) :
    Grammar.restartFrom inBlock depth first ts = ts := by
  cases ts with
  | nil => rfl
  | cons t ts => simp only [Grammar.restartFrom, LocatedToken.kind, kind_of_isEnd (h t rfl)]

theorem afterBracket?_of_ended (h : Ended ts) : Grammar.afterBracket? ts = none := by
  cases ts with
  | nil => rfl
  | cons t ts => simp only [Grammar.afterBracket?, LocatedToken.kind, kind_of_isEnd (h t rfl)]

/-- A restart skips the same tokens and stops before the end of input at the latest. -/
theorem restartFrom (h : Parallel rest rest' ts ts') (hrest : Ended rest) (hrest' : Ended rest')
    (inBlock : Bool) : ∀ depth first,
      Parallel rest rest' (Grammar.restartFrom inBlock depth first ts)
        (Grammar.restartFrom inBlock depth first ts') := by
  induction h with
  | rest =>
    intro depth first
    rw [restartFrom_of_ended hrest, restartFrom_of_ended hrest']
    exact .rest
  | @cons t t' ts ts' heq hend h ih =>
    intro depth first
    have hstay : Parallel rest rest' (t :: ts) (t' :: ts') := .cons heq hend h
    simp only [Grammar.restartFrom, LocatedToken.kind, heq]
    repeat' split
    all_goals first | exact hstay | exact h | exact ih ..

/-- A name is skipped alike. -/
theorem afterBracket? (h : Parallel rest rest' ts ts') (hrest : Ended rest)
    (hrest' : Ended rest') : Option.Rel (Parallel rest rest')
      (Grammar.afterBracket? ts) (Grammar.afterBracket? ts') := by
  induction h with
  | rest =>
    rw [afterBracket?_of_ended hrest, afterBracket?_of_ended hrest']
    exact .none
  | cons heq hend h ih =>
    simp only [Grammar.afterBracket?, LocatedToken.kind, heq]
    split
    · exact .none
    · exact .some (.cons heq hend h)
    · exact .some h
    · exact ih

end Parallel

/-! ## Parses -/

/-- What two parses in step leave alone: what their streams hold from the first end of input on,
and what their trees had turned down before. -/
structure Frame where
  rest : List LocatedToken
  rest' : List LocatedToken
  told : List TreeError
  ended : Ended rest
  ended' : Ended rest'

variable {a : Frame} {s s' : State} {c c' : Context}

/-- The states agree on everything but ranges and what lies in the frame. -/
structure InStep (a : Frame) (s s' : State) : Prop where
  pending : Parallel a.rest a.rest' s.pending s'.pending
  tree : s.tree.clearRanges = s'.tree.clearRanges
  mistakes : s.mistakes = s'.mistakes
  stopped : s.stopped = s'.stopped
  refusals : s.refusals = s'.refusals
  told : a.told <+: s.refusals

/-- The contexts have the same options, and a token that closes the stream does so in both. -/
structure Context.Level (c c' : Context) : Prop where
  options : c.options = c'.options
  closed : c.Closed
  closed' : c'.Closed

/-- Run in step, the steps answer what is related and leave parses in step. -/
def Related (a : Frame) (R : α → β → Prop) (p : Parse α) (q : Parse β) : Prop :=
  ∀ ⦃c c' : Context⦄ ⦃s s' : State⦄, c.Level c' → InStep a s s' →
    R (p c s).1 (q c' s').1 ∧ InStep a (p c s).2 (q c' s').2

/-- Run in step, the steps answer the same and leave parses in step. -/
abbrev Level (a : Frame) (p q : Parse α) : Prop := Related a Eq p q

namespace InStep

theorem node (h : InStep a s s') (id : NodeId) :
    (s.tree.node id).unranged = (s'.tree.node id).unranged := by
  rw [← Tree.node_cleared, h.tree, Tree.node_cleared]

theorem current (h : InStep a s s') (hc : c.Level c') :
    Akin (s.stand.current c) (s'.stand.current c') :=
  h.pending.current a.ended a.ended' hc.closed hc.closed'

/-- A change of the trees that comes to the same without ranges. -/
theorem withTree (h : InStep a s s') {t t' : Tree} (ht : t.clearRanges = t'.clearRanges) :
    InStep a { s with tree := t } { s' with tree := t' } :=
  ⟨h.pending, ht, h.mistakes, h.stopped, h.refusals, h.told⟩

theorem withPending (h : InStep a s s') {ts ts' : List LocatedToken}
    (hp : Parallel a.rest a.rest' ts ts') :
    InStep a { s with pending := ts } { s' with pending := ts' } :=
  ⟨hp, h.tree, h.mistakes, h.stopped, h.refusals, h.told⟩

theorem withRefusals (h : InStep a s s') (more : List TreeError) :
    InStep a { s with refusals := s.refusals ++ more }
      { s' with refusals := s'.refusals ++ more } :=
  ⟨h.pending, h.tree, h.mistakes, h.stopped, by rw [h.refusals],
    h.told.trans (List.prefix_append ..)⟩

end InStep

/-! ## Combinations of steps -/

namespace Related

variable {R : α → β → Prop} {p : Parse α} {q : Parse β}

theorem pure {x : α} {y : β} (h : R x y) :
    Related a R (pure x : Parse α) (Pure.pure y : Parse β) := fun _ _ _ _ _ hs => ⟨h, hs⟩

theorem bind {δ : Type} {S : γ → δ → Prop} {next : α → Parse γ} {next' : β → Parse δ}
    (hp : Related a R p q) (hnext : ∀ x y, R x y → Related a S (next x) (next' y)) :
    Related a S (p >>= next) (q >>= next') := fun _ _ _ _ hc hs =>
  hnext _ _ (hp hc hs).1 hc (hp hc hs).2

theorem ite {t : Prop} [Decidable t] {p' : Parse α} {q' : Parse β} (hp : Related a R p q)
    (hp' : Related a R p' q') : Related a R (if t then p else p') (if t then q else q') := by
  split
  · exact hp
  · exact hp'

end Related

namespace Level

variable {p q : Parse α}

theorem bind {R : β → γ → Prop} {next : α → Parse β} {next' : α → Parse γ} (hp : Level a p q)
    (hnext : ∀ x, Related a R (next x) (next' x)) : Related a R (p >>= next) (q >>= next') :=
  Related.bind hp fun x _ hxy => hxy ▸ hnext x

/-- Rounds that stay in step bring the cursor forward together. -/
theorem whileAdvancing {round round' : Parse Bool} (h : Level a round round') :
    Level a (whileAdvancing round) (Grammar.whileAdvancing round') := by
  intro c c' s s' hc hs
  refine ⟨rfl, ?_⟩
  induction hn : s.pending.length using Nat.strongRecOn generalizing s s' with
  | ind n ih =>
    obtain ⟨hmore, hnext⟩ := h hc hs
    have hleft := hs.pending.length
    have hahead := hnext.pending.length
    rw [Steady.whileAdvancing_eq round, Steady.whileAdvancing_eq round']
    by_cases hgo : (round c s).2.pending.length < s.pending.length ∧ (round c s).1 = true
    · rw [if_pos hgo, if_pos ⟨by omega, hmore ▸ hgo.2⟩]
      exact ih _ (hn ▸ hgo.1) hnext rfl
    · rw [if_neg hgo, if_neg fun hgo' => hgo ⟨by omega, hmore ▸ hgo'.2⟩]
      exact hnext

end Level

/-! ## Steps -/

theorem related_get : Related a (InStep a) (get : Parse State) get := fun _ _ _ _ _ hs => ⟨hs, hs⟩

theorem related_current : Related a Akin current current := fun _ _ _ _ hc hs =>
  ⟨hs.current hc, hs⟩

theorem level_currentKind : Level a currentKind currentKind :=
  related_current.bind fun _ _ h => .pure h.kind

theorem level_atEnd : Level a atEnd atEnd := related_current.bind fun _ _ h => .pure h.isEnd

theorem level_moveTo {ts ts' : List LocatedToken} (h : Parallel a.rest a.rest' ts ts') :
    Level a (moveTo ts) (moveTo ts') := fun _ _ _ _ _ hs => ⟨rfl, hs.withPending h⟩

theorem related_readToken : Related a Akin readToken readToken := fun c c' s s' hc hs => by
  have hcur := hs.current hc
  rw [readToken_run, readToken_run]
  refine ⟨hcur, hs.withPending ?_⟩
  rw [Stand.advance, Stand.advance, ← hcur.isEnd]
  split
  · exact hs.pending
  · rename_i hend
    exact hs.pending.tail a.ended hc.closed (Bool.eq_false_iff.2 hend)

/-- What is taken is the same token, since an end of input is never asked for. -/
theorem related_takeIf? {kind : TokenKind} (h : kind ≠ .endOfInput) :
    Related a (Option.Rel fun t t' => t.token = t'.token) (takeIf? kind) (takeIf? kind) :=
  fun c c' s s' hc hs => by
    have hcur := hs.current hc
    have hread := related_readToken hc hs
    rw [readToken_run, readToken_run] at hread
    rw [takeIf?_run, takeIf?_run, ← hcur.kind]
    split
    · rename_i hkind
      exact ⟨.some (hcur.token (hkind ▸ h)), hread.2⟩
    · exact ⟨.none, hs⟩

theorem level_newNode {n n' : Node} (h : n.unranged = n'.unranged) :
    Level a (newNode n) (newNode n') := fun c c' s s' _ hs => by
  refine ⟨?_, hs.withTree ?_⟩
  · show s.tree.size = s'.tree.size
    rw [← Tree.size_clearRanges, hs.tree, Tree.size_clearRanges]
  · show (s.tree.push n).2.clearRanges = (s'.tree.push n').2.clearRanges
    rw [Tree.clearRanges_push, Tree.clearRanges_push, hs.tree, h]

/-- A new node, wherever it was read. -/
theorem level_located (n : Node) (r r' : ByteRange) :
    Level a (newNode (n.withRange r)) (newNode (n.withRange r')) := level_newNode rfl

theorem related_nodeOf (id : NodeId) :
    Related a (fun n n' => n.unranged = n'.unranged) (nodeOf id) (nodeOf id) :=
  fun _ _ _ _ _ hs => ⟨hs.node id, hs⟩

theorem level_outcomeOf (id : NodeId) : Level a (outcomeOf id) (outcomeOf id) :=
  (related_nodeOf id).bind fun n n' h => .pure <| by
    show n.unranged.kind.outcome = n'.unranged.kind.outcome
    rw [h]

/-- A change of the tree that has no regard to ranges. -/
theorem level_modifyTree {f : Tree → Tree} (h : ∀ t, (f t).clearRanges = f t.clearRanges) :
    Level a (modifyTree f) (modifyTree f) := fun _ _ _ _ _ hs =>
  ⟨rfl, hs.withTree (by rw [h, h, hs.tree])⟩

/-- The step changes nothing but ranges. -/
def SetsRanges (p : Parse Unit) : Prop := ∀ c s, ∃ t : Tree,
  p c s = ((), { s with tree := t }) ∧ t.clearRanges = s.tree.clearRanges

/-- Whatever ranges are set makes no difference. -/
theorem SetsRanges.level {p q : Parse Unit} (hp : SetsRanges p) (hq : SetsRanges q) :
    Level a p q := fun c c' s s' _ hs => by
  obtain ⟨t, hrun, ht⟩ := hp c s
  obtain ⟨t', hrun', ht'⟩ := hq c' s'
  rw [hrun, hrun']
  exact ⟨rfl, hs.withTree (by rw [ht, ht', hs.tree])⟩

theorem setsRanges_coverChildren (id : NodeId) : SetsRanges (coverChildren id) := fun _ s => by
  refine ⟨_, rfl, ?_⟩
  beta_reduce
  split
  · rfl
  · exact Tree.clearRanges_setRange (fun _ => s.tree.childrenRange? id) s.tree id

theorem setsRanges_widen (id : NodeId) (r : ByteRange) : SetsRanges (widen id r) := fun _ s =>
  ⟨_, rfl, Tree.clearRanges_setRange _ s.tree id⟩

theorem setsRanges_widenOver (id other : NodeId) : SetsRanges (widenOver id other) :=
  fun c s => by
    simp only [widenOver, bind_run, nodeOf_run]
    cases (s.tree.node other).range with
    | some r => exact setsRanges_widen id r c s
    | none => exact ⟨s.tree, rfl, rfl⟩

theorem level_coverChildren (id : NodeId) : Level a (coverChildren id) (coverChildren id) :=
  (setsRanges_coverChildren id).level (setsRanges_coverChildren id)

theorem level_widen (id : NodeId) (r r' : ByteRange) : Level a (widen id r) (widen id r') :=
  (setsRanges_widen id r).level (setsRanges_widen id r')

theorem level_widenOver (id other : NodeId) : Level a (widenOver id other) (widenOver id other) :=
  (setsRanges_widenOver id other).level (setsRanges_widenOver id other)

theorem level_attach (parent child : NodeId) :
    Level a (attach parent child) (attach parent child) :=
  fun c c' s s' _ hs => by
    have hrefusal : s.tree.refusalAs? .children parent child =
        s'.tree.refusalAs? .children parent child := by
      rw [← Tree.refusalAs?_clearRanges, hs.tree, Tree.refusalAs?_clearRanges]
    refine ⟨rfl, ?_⟩
    simp only [attach, modify_run, hrefusal]
    cases s'.tree.refusalAs? .children parent child with
    | some e => exact hs.withRefusals [e]
    | none =>
      exact hs.withTree (by rw [Tree.clearRanges_hangLast, hs.tree, Tree.clearRanges_hangLast])

theorem level_adoptChildren (target source : NodeId) :
    Level a (adoptChildren target source) (adoptChildren target source) :=
  fun c c' s s' _ hs => by
    have hmove := Tree.moveChildren_clearRanges s.tree target source
    rw [hs.tree, Tree.moveChildren_clearRanges, Prod.mk.injEq] at hmove
    refine ⟨rfl, ?_⟩
    simp only [adoptChildren, modify_run, ← hmove.2]
    exact (hs.withTree hmove.1.symm).withRefusals _

theorem level_mayGoOn : Level a mayGoOn mayGoOn := fun _ _ _ _ hc hs =>
  ⟨by rw [mayGoOn_run, mayGoOn_run, hc.options, hs.mistakes], hs⟩

theorem level_isStopped : Level a isStopped isStopped := fun _ _ _ _ _ hs => ⟨hs.stopped, hs⟩

theorem level_mistake (message : String) (r r' : ByteRange) :
    Level a (mistake message r) (mistake message r') := level_located ..

theorem level_missing (what : String) : Level a (missing what) (missing what) :=
  related_current.bind fun _ _ h => by
    rw [h.missingMessage]
    exact level_mistake ..

theorem level_stop : Level a (modify fun s => { s with stopped := true } : Parse Unit)
    (modify fun s => { s with stopped := true }) := fun _ _ _ _ _ hs =>
  ⟨rfl, hs.pending, hs.tree, hs.mistakes, rfl, hs.refusals, hs.told⟩

theorem level_keepMistake (parent error : NodeId) :
    Level a (keepMistake parent error) (keepMistake parent error) := by
  have hcount : Level a (modify fun s => { s with mistakes := s.mistakes + 1 } : Parse Unit)
      (modify fun s => { s with mistakes := s.mistakes + 1 }) := fun _ _ _ _ _ hs =>
    ⟨rfl, hs.pending, hs.tree, congrArg (· + 1) hs.mistakes, hs.stopped, hs.refusals, hs.told⟩
  exact hcount.bind fun _ => (level_attach ..).bind fun _ => level_mayGoOn.bind fun _ =>
    .ite (.pure rfl) level_stop

theorem level_restart (inBlock : Bool) : Level a (restart inBlock) (restart inBlock) :=
  related_get.bind fun _ _ h =>
    level_moveTo (h.pending.restartFrom a.ended a.ended' inBlock 0 true)

theorem level_skipName : Level a skipName skipName :=
  related_get.bind fun s s' h => level_moveTo <| by
    have hafter := h.pending.afterBracket? a.ended a.ended'
    generalize afterBracket? s.pending = left, afterBracket? s'.pending = left' at hafter
    cases hafter with
    | some hleft => exact hleft
    | none => exact h.pending

end RouteScript.Grammar
