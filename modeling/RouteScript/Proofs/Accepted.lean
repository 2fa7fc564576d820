import RouteScript.Proofs.Grammar.Level
/-!
# Attachments

A node that the tree turns down stays out of it, and the parse goes on with a note of why. No step
takes such a note back, and a whole parse ends without any: so none of the attachments that are part
of it was turned down, and no node that a rule found was lost on the way.
-/
namespace RouteScript.Grammar

variable {α β γ : Type} {c : Context} {s u : State}

/-! ## Parts of a run -/

/-- The step takes no refusal back. -/
def Candid (c : Context) (p : Parse α) : Prop :=
  ∀ s : State, s.refusals <+: (p c s).2.refusals

theorem candid_of_level {R : α → α → Prop} {p : Parse α} (hc : c.Closed)
    (hp : ∀ a, Related a R p p) : Candid c p := fun s => refusals_run hp hc s

theorem Candid.whileAdvancing {round : Parse Bool} (h : Candid c round) :
    Candid c (whileAdvancing round) := by
  intro s
  induction hn : s.pending.length using Nat.strongRecOn generalizing s with
  | ind n ih =>
    rw [Steady.whileAdvancing_eq]
    split
    · rename_i hmore
      exact (h s).trans (ih _ (hn ▸ hmore.1) _ rfl)
    · exact h s

/-- Running `q` from `u` is a part of running `p` from `s`: the run comes to `u` and runs `q` there,
and what it runs after that takes no refusal back. -/
inductive PartOf (c : Context) (q : Parse β) (u : State) : {α : Type} → Parse α → State → Prop
  | whole : PartOf c q u q u
  | first {α γ : Type} {p : Parse α} {next : α → Parse γ} {s : State} :
      PartOf c q u p s → Candid c (next (p c s).1) → PartOf c q u (p >>= next) s
  | rest {α γ : Type} {p : Parse α} {next : α → Parse γ} {s : State} :
      PartOf c q u (next (p c s).1) (p c s).2 → PartOf c q u (p >>= next) s
  | round {round : Parse Bool} {s : State} : PartOf c q u round s → Candid c round →
      PartOf c q u (whileAdvancing round) s
  | rounds {round : Parse Bool} {s : State} :
      (round c s).2.pending.length < s.pending.length → (round c s).1 = true →
      PartOf c q u (whileAdvancing round) (round c s).2 → PartOf c q u (whileAdvancing round) s

/-- What a part of a run is refused is known when the run is over. -/
theorem PartOf.refusals {q : Parse β} {p : Parse α} (h : PartOf c q u p s) :
    (q c u).2.refusals <+: (p c s).2.refusals := by
  induction h with
  | whole => exact List.prefix_rfl
  | first _ hnext ih => exact ih.trans (hnext _)
  | rest _ ih => exact ih
  | @round round s _ hround ih =>
    rw [Steady.whileAdvancing_eq]
    split
    · exact ih.trans (hround.whileAdvancing _)
    · exact ih
  | rounds hlt hmore _ ih =>
    rw [Steady.whileAdvancing_eq, if_pos ⟨hlt, hmore⟩]
    exact ih

/-! ## Rounds of a script -/

/-- What the first round of a script runs is a part of the script. -/
theorem partOf_script (hc : c.Closed) (s : State) {q : Parse β}
    (h : PartOf c q u (scriptRound (newNode (.ofKind .root) c s).1)
      (newNode (.ofKind .root) c s).2) : PartOf c q u script s := by
  refine .rest (.first (.round h (candid_of_level hc fun _ => level_scriptRound _)) ?_)
  -- to skip what is left does not keep parses in step, but it refuses nothing
  intro s
  exact candid_of_level hc (fun _ => (level_located ..).bind fun last =>
    (level_attach _ last).bind fun _ => (level_coverChildren _).bind fun _ => .pure rfl)
    { s with pending := [] }

/-- A round of a script moves what it finds to the root. -/
theorem partOf_scriptRound_adopt (hc : c.Closed) (root : NodeId) (s : State) :
    PartOf c (adoptChildren root (many .root topLevel c s).1) (many .root topLevel c s).2
      (scriptRound root) s := by
  refine .rest (.first .whole (candid_of_level (R := Eq) hc fun _ => ?_))
  refine level_atEnd.bind fun _ => level_isStopped.bind fun _ => .ite (.pure rfl)
    (level_topLevel.bind fun _ => (level_outcomeOf _).bind fun o => ?_)
  cases o with
  | failure =>
    exact (level_keepMistake ..).bind fun _ => level_isStopped.bind fun _ =>
      .ite (.pure rfl) ((level_restart _).bind fun _ => .pure rfl)
  | nothing | success => exact .pure rfl

/-- A round of a script keeps the mistake of the construct that fails behind what it finds. -/
theorem partOf_scriptRound_keep (hc : c.Closed) {root : NodeId} {s : State} {q : Parse β}
    (hs : (adoptChildren root (many .root topLevel c s).1 c (many .root topLevel c s).2).2 = u)
    (hgo : ((u.stand.current c).isEnd || u.stopped) = false)
    (hfail : ((topLevel c u).2.tree.node (topLevel c u).1).kind.outcome = .failure) {v : State}
    (h : PartOf c q v (keepMistake root (topLevel c u).1) (topLevel c u).2) :
    PartOf c q v (scriptRound root) s := by
  refine .rest (.rest ?_)
  rw [hs]
  refine .rest (.rest ?_)
  simp only [atEnd_run, isStopped_run, show u.stand.stopped = u.stopped from rfl, hgo,
    Bool.false_eq_true, if_false]
  refine .rest (.rest ?_)
  simp only [outcomeOf_run, hfail]
  exact .first h (candid_of_level (R := Eq) hc fun _ => level_isStopped.bind fun _ =>
    .ite (.pure rfl) ((level_restart _).bind fun _ => .pure rfl))

/-- To keep a mistake is to attach it. -/
theorem partOf_keepMistake (hc : c.Closed) (parent error : NodeId) (s : State) :
    PartOf c (attach parent error) { s with mistakes := s.mistakes + 1 } (keepMistake parent error)
      s := by
  refine .rest (.first .whole (candid_of_level (R := Eq) hc fun _ => ?_))
  exact level_mayGoOn.bind fun _ => .ite (.pure rfl) level_stop

/-! ## Refusals -/

theorem refusals_attach (c : Context) (s : State) (parent child : NodeId) :
    (attach parent child c s).2.refusals =
      s.refusals ++ (s.tree.refusalAs? .children parent child).toList := by
  simp only [attach, modify_run]
  cases s.tree.refusalAs? .children parent child <;> simp

theorem refusals_adoptChildren (c : Context) (s : State) (target source : NodeId) :
    (adoptChildren target source c s).2.refusals =
      s.refusals ++ (s.tree.moveChildren target source).2.toList := rfl

/-- Nothing is refused in a whole parse. -/
theorem refusals_script (options : ParseOptions) (tokens : List LocatedToken) :
    (script (.ofTokens options tokens) (.ofTokens tokens)).2.refusals = [] :=
  (script_run (closed_ofTokens options tokens) (ready_ofTokens tokens)).1.refusals

/-- Every attachment that is a part of a parse succeeds: the tree accepts the child, and the parse
goes on with the tree that has it; and where the children of one node move to another, all of them
do. -/
theorem attachments_accepted (options : ParseOptions) (tokens : List LocatedToken) :
    let c := Context.ofTokens options tokens
    let s := State.ofTokens tokens
    (script c s).2.refusals = [] ∧
      (∀ parent child u, PartOf c (attach parent child) u script s →
        u.tree.attach parent child = .ok (attach parent child c u).2.tree) ∧
      ∀ target source u, PartOf c (adoptChildren target source) u script s →
        u.tree.moveChildren target source = ((adoptChildren target source c u).2.tree, none) := by
  intro c s
  have hnone : (script c s).2.refusals = [] := refusals_script options tokens
  refine ⟨hnone, ?_, ?_⟩
  · intro parent child u h
    have hrefusals := h.refusals
    rw [hnone, List.prefix_nil, refusals_attach, List.append_eq_nil_iff,
      Option.toList_eq_nil_iff] at hrefusals
    simp only [Tree.attach, attach, modify_run, hrefusals.2]
  · intro target source u h
    have hrefusals := h.refusals
    rw [hnone, List.prefix_nil, refusals_adoptChildren, List.append_eq_nil_iff,
      Option.toList_eq_nil_iff] at hrefusals
    exact Prod.ext rfl hrefusals.2

/-- The tokens of `request_route{b=1;};`: a block with a statement in it, and a semicolon that may
not stand where it does. -/
def framedTokens : List LocatedToken :=
  [⟨.ofText .route "request_route", 0, 13⟩, ⟨.ofText .leftBrace "\x7b", 13, 14⟩,
   ⟨.ofText .identifier "b", 14, 15⟩, ⟨.ofText .assign "=", 15, 16⟩,
   ⟨⟨.integer, .integer 1⟩, 16, 17⟩, ⟨.ofText .semicolon ";", 17, 18⟩,
   ⟨.ofText .rightBrace "\x7d", 18, 19⟩, ⟨.ofText .semicolon ";", 19, 20⟩, .endAt 20]

/-- The first round of a parse moves the construct with the block to the root, and hangs the mistake
about the semicolon below it. -/
theorem attachments_accepted_framed :
    let c := Context.ofTokens .default framedTokens
    let s := State.ofTokens framedTokens
    (∃ target source u, PartOf c (adoptChildren target source) u script s ∧
      (u.tree.children source).map u.tree.kind = [.topLevel] ∧
      u.tree.moveChildren target source = ((adoptChildren target source c u).2.tree, none)) ∧
    ∃ parent child u, PartOf c (attach parent child) u script s ∧
      u.tree.kind child = .error ∧
      u.tree.attach parent child = .ok (attach parent child c u).2.tree := by
  intro c s
  have hc : c.Closed := closed_ofTokens .default framedTokens
  have hadopt := partOf_script hc s (partOf_scriptRound_adopt hc _ _)
  have hkeep := partOf_script hc s
    (partOf_scriptRound_keep hc rfl (by decide +kernel) (by decide +kernel)
      (partOf_keepMistake hc _ _ _))
  have hattached : ∀ parent child u, PartOf c (attach parent child) u script s →
      u.tree.attach parent child = .ok (attach parent child c u).2.tree :=
    (attachments_accepted .default framedTokens).2.1
  have hmoved : ∀ target source u, PartOf c (adoptChildren target source) u script s →
      u.tree.moveChildren target source = ((adoptChildren target source c u).2.tree, none) :=
    (attachments_accepted .default framedTokens).2.2
  constructor
  · exact ⟨_, _, _, hadopt, by decide +kernel, hmoved _ _ _ hadopt⟩
  · exact ⟨_, _, _, hkeep, by decide +kernel, hattached _ _ _ hkeep⟩

end RouteScript.Grammar
