import RouteScript.Proofs.Grammar.Reading
/-!
# Steps of a parse

What each step of a parse answers and leaves behind. A state is `Ready` if its store is sound and
its first node stands for nothing; a node is `Built` between two states if only nodes were added
and it is one of them, hanging nowhere. A rule `Reads` a reading if it comes to what that says.
-/
namespace RouteScript.Grammar

variable {α β : Type} {c : Context} {s s₁ s₂ : State} {id n f g : NodeId}
  {l m : Label} {x y : Item} {xs ys : List Item}

/-! ## Answers

What a step answers may stand in a test, so the equations of such steps are not definitional: a
rewrite has to take the decision along.
-/

@[simp] theorem bind_run (step : Parse α) (next : α → Parse β) (c : Context) (s : State) :
    (step >>= next) c s = next (step c s).1 c (step c s).2 := rfl

@[simp] theorem pure_run (a : α) (c : Context) (s : State) : (pure a : Parse α) c s = (a, s) := rfl

@[simp] theorem ite_run {p : Prop} [Decidable p] (a b : Parse α) (c : Context) (s : State) :
    (if p then a else b) c s = if p then a c s else b c s := by
  split <;> rfl

@[simp] theorem get_run (c : Context) (s : State) : (get : Parse State) c s = (s, s) := rfl

@[simp] theorem modify_run (g : State → State) (c : Context) (s : State) :
    (modify g : Parse Unit) c s = ((), g s) := rfl

@[simp] theorem current_run (c : Context) (s : State) :
    current c s = (s.stand.current c, s) := (rfl)

@[simp] theorem atEnd_run (c : Context) (s : State) :
    atEnd c s = ((s.stand.current c).isEnd, s) := (rfl)

@[simp] theorem currentKind_run (c : Context) (s : State) :
    currentKind c s = ((s.stand.current c).kind, s) := (rfl)

@[simp] theorem isStopped_run (c : Context) (s : State) :
    isStopped c s = (s.stand.stopped, s) := (rfl)

@[simp] theorem mayGoOn_run (c : Context) (s : State) :
    mayGoOn c s = (c.options.recover && decide (s.mistakes < c.options.maxErrors), s) := (rfl)

@[simp] theorem moveTo_run (pending : List LocatedToken) (c : Context) (s : State) :
    moveTo pending c s = ((), { s with pending }) := rfl

@[simp] theorem nodeOf_run (id : NodeId) (c : Context) (s : State) :
    nodeOf id c s = (s.tree.node id, s) := (rfl)

@[simp] theorem outcomeOf_run (id : NodeId) (c : Context) (s : State) :
    outcomeOf id c s = ((s.tree.node id).kind.outcome, s) := (rfl)

@[simp] theorem stand_setTree (s : State) (t : Tree) : { s with tree := t }.stand = s.stand := rfl

@[simp] theorem stand_setPending (s : State) (pending : List LocatedToken) :
    { s with pending }.stand = s.stand.goTo pending := rfl

/-- The state after the current token, unless that one closes the stream. -/
def State.advance (c : Context) (s : State) : State :=
  { s with pending := (s.stand.advance c).pending }

@[simp] theorem stand_advance (c : Context) (s : State) :
    (s.advance c).stand = s.stand.advance c := by
  unfold State.advance Stand.advance
  split <;> rfl

@[simp] theorem readToken_run (c : Context) (s : State) :
    readToken c s = (s.stand.current c, s.advance c) := by
  simp only [readToken, State.advance, Stand.advance, bind_run, ↓ite_run, current_run, get_run,
    moveTo_run, pure_run]
  split <;> rfl

@[simp] theorem takeIf?_run (kind : TokenKind) (c : Context) (s : State) :
    takeIf? kind c s =
      if (s.stand.current c).kind = kind then (some (s.stand.current c), s.advance c)
      else (none, s) := by
  simp only [takeIf?, bind_run, ↓ite_run, currentKind_run, readToken_run, pure_run]

@[simp] theorem readToEnd_run (c : Context) (s : State) :
    readToEnd c s = (c.closing, { s with pending := [] }) := rfl

/-! ## Rounds -/

theorem whileAdvancing_of_stop {round : Parse Bool} (h : round c s = (false, s₁)) :
    whileAdvancing round c s = ((), s₁) := by
  rw [whileAdvancing, h]
  simp

theorem whileAdvancing_of_more {round : Parse Bool} (h : round c s = (true, s₁))
    (hlt : s₁.stand.pending.length < s.stand.pending.length) :
    whileAdvancing round c s = whileAdvancing round c s₁ := by
  rw [whileAdvancing, h]
  exact if_pos ⟨hlt, rfl⟩

/-! ## Ready states -/

/-- A state that a rule may run from. -/
structure State.Ready (s : State) : Prop where
  sound : s.tree.Sound
  pos : 0 < s.tree.size
  nothing : s.tree.node nothingId = .ofKind .empty

theorem State.Ready.of_grows (h : s.Ready) (hg : s.tree.Grows s₁.tree) : s₁.Ready where
  sound := hg.sound
  pos := Nat.lt_of_lt_of_le h.pos hg.size_le
  nothing := by rw [hg.keeps nothingId h.pos, h.nothing]

theorem ready_ofTokens (tokens : List LocatedToken) : (State.ofTokens tokens).Ready where
  sound := Tree.sound_empty.push (by rfl) (by rfl)
  pos := Nat.one_pos
  nothing := rfl

/-! ## Built nodes -/

/-- From `s` to `s₁` only nodes were added, among them `n`, which hangs nowhere and has the item. -/
structure Built (s : State) (n : NodeId) (x : Item) (s₁ : State) : Prop where
  grows : s.tree.Grows s₁.tree
  top : s₁.tree.Top s.tree.size n x
  refusals : s₁.refusals = s.refusals

namespace Built

theorem sound (h : Built s n x s₁) : s₁.tree.Sound := h.grows.sound

theorem label (h : Built s n x s₁) : (s₁.tree.node n).label = x.label := h.top.label h.sound

theorem kind (h : Built s n x s₁) : (s₁.tree.node n).kind = x.label.kind :=
  congrArg Label.kind h.label

theorem range (h : Built s n x s₁) : (s₁.tree.node n).range = x.label.range :=
  congrArg Label.range h.label

/-- A node that was built stays what it is while others are added. -/
theorem later (h : Built s n x s₁) (hg : s₁.tree.Grows s₂.tree) (hr : s₂.refusals = s₁.refusals) :
    Built s n x s₂ :=
  ⟨h.grows.trans hg, h.top.grows h.sound hg, hr.trans h.refusals⟩

/-- What is built after something else is built from the start on. -/
theorem earlier (hg : s.tree.Grows s₁.tree) (hr : s₁.refusals = s.refusals)
    (h : Built s₁ n x s₂) : Built s n x s₂ :=
  ⟨hg.trans h.grows, h.top.mono hg.size_le, h.refusals.trans hr⟩

/-- Where the parse stands has no part in what is built. -/
theorem congr (h : Built s n x s₁) (ht : s₂.tree = s₁.tree) (hr : s₂.refusals = s₁.refusals) :
    Built s n x s₂ :=
  ⟨ht ▸ h.grows, ht ▸ h.top, hr.trans h.refusals⟩

theorem trans (h : Built s n x s₁) (k : Built s₁ f y s₂) : Built s n x s₂ :=
  h.later k.grows k.refusals

theorem of_trans (h : Built s n x s₁) (k : Built s₁ f y s₂) : Built s f y s₂ :=
  k.earlier h.grows h.refusals

/-- What is built later is another node. -/
theorem ne (h : Built s n x s₁) (k : Built s₁ f y s₂) : n ≠ f := fun e =>
  absurd h.top.lt_size (Nat.not_lt.2 (e ▸ k.top.low_le))

end Built

/-- A new node that carries a value or nothing. -/
theorem built_newNode (hs : s.tree.Sound) (node : Node) (hids : node.payload.ids = [])
    (hparent : node.parent = none) (c : Context) :
    Built s (newNode node c s).1 node.alone (newNode node c s).2 :=
  ⟨Tree.grows_push hs hids hparent, Tree.top_push hs hids hparent, rfl⟩

/-- Changing the label of what was built. -/
theorem Built.relabel (h : Built s n x s₁) {change : Node → Node} (hc : Tree.Relabels change)
    (hl : ∀ node : Node, node.label = x.label → (change node).label = l) :
    Built s n (x.withLabel l) { s₁ with tree := s₁.tree.modify n change } where
  grows := h.grows.transBut (Tree.growsBut_relabel h.sound hc h.top.lt_size) h.top.low_le
  top := hl _ h.label ▸ h.top.relabel h.sound hc
  refusals := h.refusals

/-! ## Changes of the tree -/

@[simp] theorem stand_newNode (node : Node) (c : Context) (s : State) :
    (newNode node c s).2.stand = s.stand := rfl

@[simp] theorem stand_attach (n f : NodeId) (c : Context) (s : State) :
    (attach n f c s).2.stand = s.stand := by
  simp only [attach, modify_run]
  split <;> rfl

@[simp] theorem stand_coverChildren (n : NodeId) (c : Context) (s : State) :
    (coverChildren n c s).2.stand = s.stand := rfl

@[simp] theorem stand_widen (n : NodeId) (r : ByteRange) (c : Context) (s : State) :
    (widen n r c s).2.stand = s.stand := rfl

@[simp] theorem stand_widenOver (n f : NodeId) (c : Context) (s : State) :
    (widenOver n f c s).2.stand = s.stand := by
  simp only [widenOver, bind_run, nodeOf_run]
  cases (s.tree.node f).range <;> rfl

/-- Attaching a node that was built since `s₁`, when of what there was only `n` has changed. -/
theorem Built.attach_since (h : Built s n (.bundle l xs) s₂) (hg : s.tree.Grows s₁.tree)
    (hnf : n ≠ f) (hbut : s₁.tree.GrowsBut n s₂.tree)
    (hf : s₂.tree.Top s₁.tree.size f x) (hx : x.label.kind ≠ .empty) (c : Context) :
    Built s n (.bundle l (xs ++ [x])) (attach n f c s₂).2 := by
  obtain ⟨hok, hbut', htop⟩ := Tree.hang_top hg.sound hnf hbut h.top hf hx
  simp only [Grammar.attach, modify_run, hok]
  exact ⟨hg.transBut hbut' h.top.low_le, htop, h.refusals⟩

/-- Attaching what was built last to what was built before. -/
theorem Built.attach (h : Built s n (.bundle l xs) s₁) (k : Built s₁ f x s₂)
    (hx : x.label.kind ≠ .empty) (c : Context) :
    Built s n (.bundle l (xs ++ [x])) (attach n f c s₂).2 :=
  (h.trans k).attach_since h.grows (h.ne k) (k.grows.but n) k.top hx c

/-- Moving the children of what was built last to the end of those of what was built before. -/
theorem Built.adopt (h : Built s n (.bundle l xs) s₁) (k : Built s₁ g (.bundle m ys) s₂)
    (c : Context) : Built s n (.bundle l (xs ++ ys)) (adoptChildren n g c s₂).2 := by
  obtain ⟨t, hmove, hbut, htop⟩ := Tree.moveChildren_top h.sound h.top k.grows k.top
  simp only [adoptChildren, modify_run, hmove, Option.toList_none, List.append_nil]
  exact ⟨h.grows.transBut hbut h.top.low_le, htop, k.refusals.trans h.refusals⟩

theorem childrenRange?_eq {t : Tree} (hs : t.Sound) (hx : (t.children n).map t.item = xs) :
    t.childrenRange? n = Item.rangeAround xs := by
  have : (t.children n).filterMap (fun child => (t.node child).range) =
      xs.filterMap (·.label.range) := by
    rw [← hx, List.filterMap_map]
    refine List.filterMap_congr fun child _ => ?_
    rw [Function.comp, Tree.label_item hs]
    rfl
  rw [Tree.childrenRange?, this]
  rfl

/-- The range of what was built becomes that around its items. -/
theorem Built.cover {kind : NodeKind} {role : Option String}
    (h : Built s n (.bundle ⟨kind, role, none⟩ xs) s₁) (c : Context) :
    Built s n (.bundle ⟨kind, role, Item.rangeAround xs⟩ xs) (coverChildren n c s₁).2 := by
  have hitem := Tree.payload_of_item_bundle h.sound h.top.item
  have hrange := h.range
  rw [Item.label_bundle] at hrange
  have hcover : (coverChildren n c s₁).2 = { s₁ with tree := s₁.tree.modify n fun node =>
      { node with range := Item.rangeAround xs } } := by
    simp only [coverChildren, modifyTree, modify_run, hrange, Option.isSome_none,
      Bool.false_eq_true, if_false, childrenRange?_eq h.sound hitem.2.2]
  rw [hcover, ← Item.withLabel_bundle _ ⟨kind, role, none⟩]
  refine h.relabel (Tree.relabels_range _) fun node hnode => ?_
  rw [Item.label_bundle] at hnode
  simp only [Node.label, Label.mk.injEq] at hnode ⊢
  exact ⟨hnode.1, hnode.2.1, trivial⟩

/-- The range of what was built is widened. -/
theorem Built.widen (h : Built s n x s₁) (r : ByteRange) (c : Context) :
    Built s n (x.withLabel (x.label.widen r)) (widen n r c s₁).2 :=
  h.relabel (Tree.relabels_range _) fun node hnode => by rw [← hnode]; rfl

/-- The range of what was built is widened over that of another node. -/
theorem Built.widenOver (h : Built s n x s₁) (hf : (s₁.tree.node f).range = y.label.range)
    (c : Context) : Built s n (x.widenOver y) (widenOver n f c s₁).2 := by
  simp only [Grammar.widenOver, bind_run, nodeOf_run, hf, Item.widenOver]
  cases y.label.range with
  | some r => exact h.widen r c
  | none => rwa [Label.over, Item.withLabel_label]

/-- What was built gets a role. -/
theorem Built.setRole (h : Built s n x s₁) (role : String) (c : Context) :
    Built s n (x.withRole role) (modifyTree (·.setRole n role) c s₁).2 :=
  h.relabel (Tree.relabels_role role) fun node hnode => by rw [← hnode]; rfl

/-- Keeping a mistake is attaching it and counting it. -/
theorem keepMistake_run (n f : NodeId) (c : Context) (s : State) :
    keepMistake n f c s = ((), { (attach n f c s).2 with
      mistakes := (s.stand.keep c).mistakes, stopped := (s.stand.keep c).stopped }) := by
  have hattach : attach n f c { s with mistakes := s.mistakes + 1 } =
      ((), { (attach n f c s).2 with mistakes := s.mistakes + 1 }) := by
    simp only [attach, modify_run]
    cases s.tree.refusalAs? .children n f <;> rfl
  have hstopped : (attach n f c s).2.stopped = s.stopped :=
    congrArg Stand.stopped (stand_attach n f c s)
  have hkeep : (s.stand.keep c).stopped =
      (s.stopped || !(c.options.recover && decide (s.mistakes + 1 < c.options.maxErrors))) := rfl
  simp only [keepMistake, bind_run, modify_run, hattach, ↓ite_run, mayGoOn_run, pure_run, hkeep]
  cases c.options.recover && decide (s.mistakes + 1 < c.options.maxErrors) with
  | true => rw [if_pos rfl, hstopped, Bool.not_true, Bool.or_false]; rfl
  | false => rw [if_neg (by decide), Bool.not_false, Bool.or_true]; rfl

@[simp] theorem stand_keepMistake (n f : NodeId) (c : Context) (s : State) :
    (keepMistake n f c s).2.stand = s.stand.keep c := by
  have hpending : (attach n f c s).2.pending = s.stand.pending :=
    congrArg Stand.pending (stand_attach n f c s)
  simp only [keepMistake_run, State.stand, hpending]
  rfl

/-- A mistake becomes the last item of what was built before. -/
theorem Built.keep (h : Built s n (.bundle l xs) s₁) (k : Built s₁ f x s₂)
    (hx : x.label.kind ≠ .empty) (c : Context) :
    Built s n (.bundle l (xs ++ [x])) (keepMistake n f c s₂).2 := by
  rw [keepMistake_run]
  exact (h.attach k hx c).congr rfl rfl

/-- The same, with the range of what was built before widened over the mistake first. -/
theorem Built.widen_keep (h : Built s n (.bundle l xs) s₁) (k : Built s₁ f x s₂)
    (hx : x.label.kind ≠ .empty) (c : Context) :
    Built s n (.bundle (l.over x.label.range) (xs ++ [x]))
      (keepMistake n f c (Grammar.widenOver n f c s₂).2).2 := by
  have hwide := (h.trans k).widenOver k.range c
  rw [Item.widenOver_bundle] at hwide
  rw [keepMistake_run]
  refine Built.congr (hwide.attach_since h.grows (h.ne k) ?_ ?_ hx c) rfl rfl
  all_goals simp only [Grammar.widenOver, bind_run, nodeOf_run, k.range]
  all_goals cases x.label.range with
  | none => first | exact k.grows.but n | exact k.top
  | some r => ?_
  · exact (k.grows.but n).trans (Tree.growsBut_relabel k.sound (Tree.relabels_range _)
      (Nat.lt_of_lt_of_le h.top.lt_size k.grows.size_le))
  · exact k.top.relabel_other k.sound (Tree.relabels_range _) ((k.grows.but n).not_within h.sound
      (h.top.grows h.sound k.grows).parent k.top.low_le h.top.lt_size)

/-- The same, with the range widened afterwards. -/
theorem Built.attach_widen (h : Built s n (.bundle l xs) s₁) (k : Built s₁ f x s₂)
    (hx : x.label.kind ≠ .empty) (c : Context) :
    Built s n (.bundle (l.over x.label.range) (xs ++ [x]))
      (Grammar.widenOver n f c (Grammar.attach n f c s₂).2).2 := by
  rw [← Item.widenOver_bundle]
  refine (h.attach k hx c).widenOver ?_ c
  obtain ⟨hok, -, -⟩ := Tree.hang_top h.sound (h.ne k) (k.grows.but n)
    (h.top.grows h.sound k.grows) k.top hx
  have hspec := Tree.hangLast_spec k.sound k.top.lt_size
    (Nat.lt_of_lt_of_le h.top.lt_size k.grows.size_le) hok
  simp only [Grammar.attach, modify_run, hok, hspec.2]
  exact k.range

/-- A mistake is kept, and the range widened over it afterwards. -/
theorem Built.keep_widen (h : Built s n (.bundle l xs) s₁) (k : Built s₁ f x s₂)
    (hx : x.label.kind ≠ .empty) (c : Context) :
    Built s n (.bundle (l.over x.label.range) (xs ++ [x]))
      (Grammar.widenOver n f c (keepMistake n f c s₂).2).2 := by
  refine (h.attach_widen k hx c).congr ?_ ?_
  all_goals
    simp only [keepMistake_run, Grammar.widenOver, bind_run, nodeOf_run]
    cases ((Grammar.attach n f c s₂).2.tree.node f).range <;> rfl

end RouteScript.Grammar
