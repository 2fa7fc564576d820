import RouteScript.Proofs.Grammar.Reading
/-!
# What readings find

For each reading, when it succeeds: on which tokens, with which item, and where the parse goes on.
From that follows that success brings the parse forward (`Forward`), and that a reading below the
level of blocks keeps no mistakes (`Quiet`).
-/
namespace RouteScript.Grammar

variable {c : Context} {s u after : Stand} {x y : Item} {f g : Reading} {fs : List Reading}
  {what : String} {kind : NodeKind}

/-- The token that closes the stream says so. -/
def Context.Closed (c : Context) : Prop := c.closing.isEnd = true

theorem closed_ofTokens (options : ParseOptions) (tokens : List LocatedToken) :
    (Context.ofTokens options tokens).Closed := by
  unfold Context.Closed Context.ofTokens splitClosing
  repeat' split
  · rfl
  · assumption
  · rfl

namespace Stand

theorem length_advance_lt (hc : c.Closed) (h : (s.current c).isEnd = false) :
    (s.advance c).pending.length < s.pending.length := by
  cases hp : s.pending with
  | nil =>
    rw [current, hp, List.headD_nil, hc] at h
    cases h
  | cons t rest => simp [advance, h, hp]

theorem suffix_advance (c : Context) (s : Stand) : (s.advance c).pending <:+ s.pending := by
  unfold advance
  split
  · exact List.suffix_rfl
  · exact List.tail_suffix _

@[simp] theorem goTo_advance (c : Context) (s : Stand) (pending : List LocatedToken) :
    (s.advance c).goTo pending = s.goTo pending := by
  unfold advance
  split <;> rfl

@[simp] theorem goTo_pending (s : Stand) : s.goTo s.pending = s := rfl

@[simp] theorem goTo_goTo (s : Stand) (p q : List LocatedToken) :
    (s.goTo p).goTo q = s.goTo q := rfl

end Stand

theorem isEnd_eq_false {t : LocatedToken} {kind : TokenKind} (h : t.kind = kind)
    (hk : kind ≠ .endOfInput) : t.isEnd = false := by
  simp [LocatedToken.isEnd, Token.isEnd, show t.token.kind = kind from h, hk]

namespace Reading

theorem outcome_ne_success {r : Result} : r.outcome ≠ .success ↔ ∀ x after, r ≠ .found x after := by
  cases r <;> simp [Result.outcome]

/-! ## Properties of readings -/

/-- What the reading finds leaves the mistakes that were kept alone. -/
def Quiet (f : Reading) : Prop :=
  ∀ c s x after, f c s = .found x after → after.goTo s.pending = s

/-- What the reading finds brings the parse forward. -/
def Forward (f : Reading) : Prop :=
  ∀ c s x after, c.Closed → f c s = .found x after → after.pending.length < s.pending.length

/-- What the reading finds leaves the parse at the same tokens or further down. -/
def Onward (f : Reading) : Prop :=
  ∀ c s x after, c.Closed → f c s = .found x after → after.pending <:+ s.pending

/-- The reading never comes to nothing. -/
def Definite (f : Reading) : Prop := ∀ c s, f c s ≠ .nothing

theorem Quiet.goTo (h : f.Quiet) (hf : f c s = .found x after) (pending : List LocatedToken) :
    after.goTo pending = s.goTo pending := by
  have := congrArg (·.goTo pending) (h c s x after hf)
  simpa using this

/-- The reading takes one token, if that has an item, and says so if it has none. -/
structure TakesOne (f : Reading) (item? : LocatedToken → Option Item) : Prop where
  found : ∀ c s x after, f c s = .found x after ↔ item? (s.current c) = some x ∧ after = s.advance c
  definite : f.Definite
  notEnd : ∀ t x, item? t = some x → t.isEnd = false

variable {p q : LocatedToken → Option Item}

theorem TakesOne.quiet (h : TakesOne f p) : f.Quiet := fun c s x after hf => by
  rw [((h.found c s x after).1 hf).2, Stand.goTo_advance, Stand.goTo_pending]

theorem TakesOne.forward (h : TakesOne f p) : f.Forward := fun c s x after hc hf => by
  obtain ⟨hx, rfl⟩ := (h.found c s x after).1 hf
  exact Stand.length_advance_lt hc (h.notEnd _ _ hx)

theorem TakesOne.onward (h : TakesOne f p) : f.Onward := fun c s x after _ hf => by
  rw [((h.found c s x after).1 hf).2]
  exact Stand.suffix_advance c s

/-! ## Alternatives -/

theorem choiceFrom_eq_found (fs : List Reading) : ∀ {failure : Result}, failure.outcome ≠ .success →
    (choiceFrom failure c s fs = .found x after ↔ choice fs c s = .found x after) := by
  induction fs with
  | nil =>
    intro failure hne
    simp only [choice, choiceFrom, reduceCtorEq, iff_false]
    rintro rfl
    exact hne rfl
  | cons f fs ih =>
    intro failure hne
    simp only [choice, choiceFrom]
    cases f c s with
    | found y u => rfl
    | fault e => rfl
    | nothing => exact ih hne

theorem choice_cons_eq_found : choice (f :: fs) c s = .found x after ↔
    f c s = .found x after ∨ (f c s).outcome ≠ .success ∧ choice fs c s = .found x after := by
  simp only [choice, choiceFrom]
  cases hf : f c s with
  | found y u => simp [Result.outcome]
  | fault e =>
    simp only [Result.outcome, reduceCtorEq, ne_eq, not_false_eq_true, true_and, false_or]
    exact choiceFrom_eq_found fs (by simp [Result.outcome])
  | nothing => simp [Result.outcome]

theorem outcome_of_choice (h : (choice fs c s).outcome ≠ .success) :
    ∀ f ∈ fs, (f c s).outcome ≠ .success := by
  induction fs with
  | nil => simp
  | cons g fs ih =>
    have hg : (g c s).outcome ≠ .success := by
      intro hx
      cases hf : g c s with
      | found x after => exact h (by rw [choice_cons_eq_found.2 (.inl hf)]; rfl)
      | _ => rw [hf] at hx; cases hx
    refine List.forall_mem_cons.2 ⟨hg, ih fun hx => ?_⟩
    cases hf : choice fs c s with
    | found x after => exact h (by rw [choice_cons_eq_found.2 (.inr ⟨hg, hf⟩)]; rfl)
    | _ => rw [hf] at hx; cases hx

theorem choiceFrom_ne_nothing (fs : List Reading) : ∀ {failure : Result}, failure ≠ .nothing →
    choiceFrom failure c s fs ≠ .nothing := by
  induction fs with
  | nil => exact fun h => h
  | cons f fs ih =>
    intro failure h
    rw [choiceFrom]
    cases f c s with
    | found y u => simp
    | fault e => exact ih (by simp)
    | nothing => exact ih h

theorem definite_choice (h : f.Definite) (fs : List Reading) : (choice (f :: fs)).Definite := by
  intro c s
  rw [choice, choiceFrom]
  cases hf : f c s with
  | found y u => simp
  | fault e => exact choiceFrom_ne_nothing fs (by simp)
  | nothing => exact absurd hf (h c s)

theorem TakesOne.outcome_ne_success (h : TakesOne f p) (c : Context) (s : Stand) :
    (f c s).outcome ≠ .success ↔ p (s.current c) = none := by
  cases hp : p (s.current c) with
  | none =>
    simp only [iff_true]
    cases hf : f c s with
    | found x after =>
      rw [h.found, hp] at hf
      cases hf.1
    | _ => simp [Result.outcome]
  | some x => simp [(h.found c s x _).2 ⟨hp, rfl⟩, Result.outcome]

theorem TakesOne.choice_one (h : TakesOne f p) : TakesOne (choice [f]) p where
  found c s x after := by
    rw [choice_cons_eq_found, h.found]
    simp [choice, choiceFrom]
  definite := definite_choice h.definite []
  notEnd := h.notEnd

theorem TakesOne.choice_cons (h : TakesOne f p) (k : TakesOne (choice fs) q) :
    TakesOne (choice (f :: fs)) (fun t => p t <|> q t) where
  found c s x after := by
    rw [choice_cons_eq_found, h.found, k.found, h.outcome_ne_success]
    cases p (s.current c) <;> simp
  definite := definite_choice h.definite fs
  notEnd t x hx := by
    cases hp : p t with
    | none => exact k.notEnd t x (by simpa [hp] using hx)
    | some y => exact h.notEnd t y hp

theorem TakesOne.orMissing (h : TakesOne f p) (what : String) : TakesOne (f.orMissing what) p where
  found c s x after := by
    rw [← h.found]
    simp only [Reading.orMissing]
    cases f c s <;> simp
  definite c s := by
    simp only [Reading.orMissing]
    cases f c s <;> simp
  notEnd := h.notEnd

/-! ## Sequences -/

/-- What is found one after the other, and where the parse stands then. -/
inductive InTurn (c : Context) : List Reading → Stand → List Item → Stand → Prop
  | nil {s : Stand} : InTurn c [] s [] s
  | cons {f : Reading} {fs : List Reading} {s u after : Stand} {x : Item} {xs : List Item} :
      f c s = .found x u → InTurn c fs u xs after → InTurn c (f :: fs) s (x :: xs) after

theorem sequenceFrom_eq_found (hd : ∀ f ∈ fs, f.Definite) : ∀ {xs : List Item} {s : Stand},
    sequenceFrom kind c xs s fs = .found x after ↔
      ∃ ys, InTurn c fs s ys after ∧ x = .covered kind (xs ++ ys) := by
  induction fs with
  | nil =>
    intro xs s
    simp only [sequenceFrom, Result.found.injEq]
    constructor
    · rintro ⟨rfl, rfl⟩
      exact ⟨[], .nil, by rw [List.append_nil]⟩
    · rintro ⟨ys, hys, rfl⟩
      cases hys
      exact ⟨by rw [List.append_nil], rfl⟩
  | cons f fs ih =>
    intro xs s
    rw [sequenceFrom]
    cases hf : f c s with
    | nothing => exact absurd hf (hd f (by simp) c s)
    | fault e =>
      simp only [reduceCtorEq, false_iff]
      rintro ⟨ys, hys, -⟩
      cases hys with
      | cons h _ => rw [hf] at h; cases h
    | found y u =>
      simp only
      rw [ih fun g hg => hd g (by simp [hg])]
      constructor
      · rintro ⟨ys, hys, rfl⟩
        exact ⟨y :: ys, .cons hf hys, by simp⟩
      · rintro ⟨ys, hys, rfl⟩
        cases hys with
        | cons h k =>
          rw [hf] at h
          cases h
          exact ⟨_, k, by simp⟩

theorem definite_sequence (hd : ∀ f ∈ fs, f.Definite) (kind : NodeKind) :
    (sequence kind fs).Definite := by
  suffices key : ∀ c xs s, sequenceFrom kind c xs s fs ≠ .nothing from fun c s => key c [] s
  intro c
  induction fs with
  | nil => exact fun xs s => by simp [sequenceFrom]
  | cons f fs ih =>
    intro xs s
    rw [sequenceFrom]
    cases hf : f c s with
    | nothing => exact absurd hf (hd f (by simp) c s)
    | fault e => simp
    | found y u => exact ih (fun g hg => hd g (by simp [hg])) _ u

/-! ## Single tokens -/

def targetItem? (t : LocatedToken) : Option Item := identifierItem? t <|> coreVariableItem? t

def valueItem? (t : LocatedToken) : Option Item :=
  numberItem? t <|> stringItem? t <|> coreVariableItem? t

def nameItem? (t : LocatedToken) : Option Item :=
  identifierItem? t <|> numberItem? t <|> stringItem? t

theorem targetItem?_eq_some {t : LocatedToken} : targetItem? t = some x ↔
    identifierItem? t = some x ∨ identifierItem? t = none ∧ coreVariableItem? t = some x := by
  rw [targetItem?, Option.orElse_eq_orElse, Option.orElse_eq_or, Option.or_eq_some_iff]

theorem valueItem?_eq_some {t : LocatedToken} : valueItem? t = some x ↔
    numberItem? t = some x ∨ numberItem? t = none ∧
      (stringItem? t = some x ∨ stringItem? t = none ∧ coreVariableItem? t = some x) := by
  simp only [valueItem?, Option.orElse_eq_orElse, Option.orElse_eq_or, Option.or_eq_some_iff]

theorem nameItem?_eq_some {t : LocatedToken} : nameItem? t = some x ↔
    identifierItem? t = some x ∨ identifierItem? t = none ∧
      (numberItem? t = some x ∨ numberItem? t = none ∧ stringItem? t = some x) := by
  simp only [nameItem?, Option.orElse_eq_orElse, Option.orElse_eq_or, Option.or_eq_some_iff]

theorem oneItem?_eq_some {tokenKind : TokenKind} {node : Token → Node} {t : LocatedToken} :
    oneItem? tokenKind node t = some x ↔
      t.kind = tokenKind ∧ x = ((node t.token).withRange t.range).alone := by
  unfold oneItem?
  split <;> simp_all [eq_comm]

theorem numberItem?_eq_some {t : LocatedToken} : numberItem? t = some x ↔
    ∃ n, t.kind = .integer ∧ t.token.literal = .integer n ∧
      x = ((Node.leaf .number (.integer n)).withRange t.range).alone := by
  unfold numberItem?
  split
  · rename_i k hkind hlit
    simp [hkind, hlit, eq_comm]
  · rename_i hne
    simp only [reduceCtorEq, false_iff]
    rintro ⟨n, hkind, hlit, -⟩
    exact hne n hkind hlit

theorem fileStarterItem?_eq_some {t : LocatedToken} : fileStarterItem? t = some x ↔
    ∃ name, t.kind = .directive ∧ t.token.literal = .text name ∧ name ∈ dialects ∧
      x = ((Node.leaf .fileStarter (.text name)).withRange t.range).alone := by
  unfold fileStarterItem?
  split
  · rename_i name hkind hlit
    by_cases hname : name ∈ dialects <;> simp [hkind, hlit, hname, eq_comm]
  · rename_i hne
    simp only [reduceCtorEq, false_iff]
    rintro ⟨name, hkind, hlit, -⟩
    exact hne name hkind hlit

theorem coreVariableItem?_eq_some {t : LocatedToken} : coreVariableItem? t = some x ↔
    t.isEnd = false ∧ ∃ family name kind, t.token.literal = .coreVariable family name ∧
      variableKind? family = some kind ∧ x = .list ⟨kind, none, some t.range⟩
        [((Node.leaf .identifier (.text name)).withRange t.range).alone] := by
  unfold coreVariableItem?
  by_cases hend : t.isEnd = true
  · simp [hend]
  rw [if_neg hend]
  split
  · rename_i family name hlit
    cases hkind : variableKind? family <;> simp [Bool.eq_false_iff.2 hend, hlit, hkind, eq_comm]
  · rename_i hne
    simp only [reduceCtorEq, false_iff]
    rintro ⟨-, family, name, kind, hlit, -⟩
    exact hne family name hlit

theorem takesOne_take {item? : LocatedToken → Option Item}
    (h : ∀ t x, item? t = some x → t.isEnd = false) (fault : Context → Stand → Fault) :
    TakesOne (take item? fault) item? where
  found c s x after := by
    rw [take]
    cases item? (s.current c) <;> simp [eq_comm]
  definite c s := by
    rw [take]
    cases item? (s.current c) <;> simp
  notEnd := h

theorem isEnd_of_oneItem? {tokenKind : TokenKind} (hk : tokenKind ≠ .endOfInput)
    {node : Token → Node} (t : LocatedToken) (x : Item) (hx : oneItem? tokenKind node t = some x) :
    t.isEnd = false :=
  isEnd_eq_false (oneItem?_eq_some.1 hx).1 hk

theorem takesOne_identifier : TakesOne identifier identifierItem? :=
  takesOne_take (isEnd_of_oneItem? (by decide)) _

theorem takesOne_string : TakesOne string stringItem? :=
  takesOne_take (isEnd_of_oneItem? (by decide)) _

theorem takesOne_assignOperator : TakesOne assignOperator assignItem? :=
  takesOne_take (isEnd_of_oneItem? (by decide)) _

theorem takesOne_terminator : TakesOne terminator terminatorItem? :=
  takesOne_take (isEnd_of_oneItem? (by decide)) _

theorem takesOne_number : TakesOne number numberItem? :=
  takesOne_take (fun _ _ hx =>
    let ⟨_, hkind, _⟩ := numberItem?_eq_some.1 hx
    isEnd_eq_false hkind (by decide)) _

theorem takesOne_coreVariable : TakesOne coreVariable coreVariableItem? :=
  takesOne_take (fun _ _ hx => (coreVariableItem?_eq_some.1 hx).1) _

theorem takesOne_fileStarter : TakesOne fileStarter fileStarterItem? :=
  takesOne_take (fun _ _ hx =>
    let ⟨_, hkind, _⟩ := fileStarterItem?_eq_some.1 hx
    isEnd_eq_false hkind (by decide)) _

theorem takesOne_target : TakesOne target targetItem? :=
  (takesOne_identifier.choice_cons takesOne_coreVariable.choice_one).orMissing _

theorem takesOne_value : TakesOne value valueItem? :=
  (takesOne_number.choice_cons
    (takesOne_string.choice_cons takesOne_coreVariable.choice_one)).orMissing _

theorem takesOne_name : TakesOne (choice [identifier, number, string]) nameItem? :=
  takesOne_identifier.choice_cons (takesOne_number.choice_cons takesOne_string.choice_one)

/-! ## Assignments and statements -/

/-- The item of an assignment with these operands. -/
def assigned (left op right : Item) : Item :=
  .list ⟨.assignment, none, Item.rangeAround [left, op, right]⟩
    [left.withRole "left", op, right.withRole "right"]

theorem definite_operands : operands.Definite :=
  definite_sequence (by
    simp [takesOne_target.definite, takesOne_assignOperator.definite, takesOne_value.definite]) _

theorem definite_assignment : assignment.Definite := by
  intro c s
  rw [assignment]
  cases hf : operands c s with
  | nothing => exact absurd hf (definite_operands c s)
  | _ => simp

theorem operands_eq_found : operands c s = .found x after ↔
    ∃ left op right, targetItem? (s.current c) = some left ∧
      assignItem? ((s.advance c).current c) = some op ∧
      valueItem? (((s.advance c).advance c).current c) = some right ∧
      x = .covered .assignment [left, op, right] ∧
      after = ((s.advance c).advance c).advance c := by
  rw [operands, sequence, sequenceFrom_eq_found (by
    simp [takesOne_target.definite, takesOne_assignOperator.definite, takesOne_value.definite])]
  constructor
  · rintro ⟨ys, hys, rfl⟩
    cases hys with
    | cons h₁ hys =>
      cases hys with
      | cons h₂ hys =>
        cases hys with
        | cons h₃ hys =>
          cases hys
          obtain ⟨hleft, rfl⟩ := (takesOne_target.found ..).1 h₁
          obtain ⟨hop, rfl⟩ := (takesOne_assignOperator.found ..).1 h₂
          obtain ⟨hright, rfl⟩ := (takesOne_value.found ..).1 h₃
          exact ⟨_, _, _, hleft, hop, hright, rfl, rfl⟩
  · rintro ⟨left, op, right, hleft, hop, hright, rfl, rfl⟩
    exact ⟨[left, op, right], .cons ((takesOne_target.found ..).2 ⟨hleft, rfl⟩)
      (.cons ((takesOne_assignOperator.found ..).2 ⟨hop, rfl⟩)
        (.cons ((takesOne_value.found ..).2 ⟨hright, rfl⟩) .nil)), rfl⟩

theorem assignment_eq_found : assignment c s = .found x after ↔
    ∃ left op right, targetItem? (s.current c) = some left ∧
      assignItem? ((s.advance c).current c) = some op ∧
      valueItem? (((s.advance c).advance c).current c) = some right ∧
      x = assigned left op right ∧ after = ((s.advance c).advance c).advance c := by
  constructor
  · intro h
    rw [assignment] at h
    cases hf : operands c s with
    | nothing | fault e => rw [hf] at h; cases h
    | found y u =>
      rw [hf] at h
      cases h
      obtain ⟨left, op, right, hleft, hop, hright, rfl, rfl⟩ := operands_eq_found.1 hf
      exact ⟨left, op, right, hleft, hop, hright, rfl, rfl⟩
  · rintro ⟨left, op, right, hleft, hop, hright, rfl, rfl⟩
    rw [assignment, operands_eq_found.2 ⟨left, op, right, hleft, hop, hright, rfl, rfl⟩]
    rfl

theorem statement_eq_found : statement c s = .found x after ↔
    ∃ y u z, assignment c s = .found y u ∧ terminatorItem? (u.current c) = some z ∧
      x = .covered .statement [y, z] ∧ after = u.advance c := by
  rw [statement, sequence, sequenceFrom_eq_found (by
    simp [definite_assignment, takesOne_terminator.definite])]
  constructor
  · rintro ⟨ys, hys, rfl⟩
    cases hys with
    | cons h₁ hys =>
      cases hys with
      | cons h₂ hys =>
        cases hys
        obtain ⟨hz, rfl⟩ := (takesOne_terminator.found ..).1 h₂
        exact ⟨_, _, _, h₁, hz, rfl, rfl⟩
  · rintro ⟨y, u, z, hy, hz, rfl, rfl⟩
    exact ⟨_, .cons hy (.cons ((takesOne_terminator.found ..).2 ⟨hz, rfl⟩) .nil), rfl⟩

theorem definite_statement : statement.Definite :=
  definite_sequence (by simp [definite_assignment, takesOne_terminator.definite]) _

theorem topLevelAssignment_eq_found : topLevelAssignment c s = .found x after ↔
    ∃ y u, assignment c s = .found y u ∧
      ((∃ z, terminatorItem? (u.current c) = some z ∧ x = y.widenOver z ∧ after = u.advance c) ∨
        terminatorItem? (u.current c) = none ∧ x = y ∧ after = u) := by
  rw [topLevelAssignment]
  cases hf : assignment c s with
  | nothing | fault e => simp
  | found y u =>
    simp only [terminator, take, Result.found.injEq]
    cases hz : terminatorItem? (u.current c) with
    | none =>
      simp only [Result.found.injEq]
      constructor
      · rintro ⟨rfl, rfl⟩
        exact ⟨y, u, ⟨rfl, rfl⟩, .inr ⟨hz, rfl, rfl⟩⟩
      · rintro ⟨_, _, ⟨rfl, rfl⟩, ⟨_, h, -⟩ | ⟨-, rfl, rfl⟩⟩
        · rw [hz] at h
          cases h
        · exact ⟨rfl, rfl⟩
    | some z =>
      simp only [Result.found.injEq]
      constructor
      · rintro ⟨rfl, rfl⟩
        exact ⟨y, u, ⟨rfl, rfl⟩, .inl ⟨z, hz, rfl, rfl⟩⟩
      · rintro ⟨_, _, ⟨rfl, rfl⟩, ⟨_, h, rfl, rfl⟩ | ⟨h, -, -⟩⟩
        · rw [hz] at h
          cases h
          exact ⟨rfl, rfl⟩
        · rw [hz] at h
          cases h

theorem quiet_assignment : assignment.Quiet := by
  intro c s x after h
  obtain ⟨_, _, _, _, _, _, _, rfl⟩ := assignment_eq_found.1 h
  simp

theorem forward_assignment : assignment.Forward := by
  intro c s x after hc h
  obtain ⟨left, _, _, hleft, _, _, _, rfl⟩ := assignment_eq_found.1 h
  have hle := ((Stand.suffix_advance c _).trans (Stand.suffix_advance c (s.advance c))).length_le
  exact Nat.lt_of_le_of_lt hle (Stand.length_advance_lt hc (takesOne_target.notEnd _ _ hleft))

theorem onward_assignment : assignment.Onward := by
  intro c s x after _ h
  obtain ⟨_, _, _, _, _, _, _, rfl⟩ := assignment_eq_found.1 h
  exact (Stand.suffix_advance c _).trans
    ((Stand.suffix_advance c _).trans (Stand.suffix_advance c s))

theorem forward_statement : statement.Forward := by
  intro c s x after hc h
  obtain ⟨y, u, z, hy, _, _, rfl⟩ := statement_eq_found.1 h
  exact Nat.lt_of_le_of_lt (Stand.suffix_advance c u).length_le (forward_assignment c s y u hc hy)

theorem onward_statement : statement.Onward := by
  intro c s x after hc h
  obtain ⟨y, u, z, hy, _, _, rfl⟩ := statement_eq_found.1 h
  exact (Stand.suffix_advance c u).trans (onward_assignment c s y u hc hy)

theorem forward_topLevelAssignment : topLevelAssignment.Forward := by
  intro c s x after hc h
  obtain ⟨y, u, hy, ⟨_, _, _, rfl⟩ | ⟨_, _, rfl⟩⟩ := topLevelAssignment_eq_found.1 h
  · exact Nat.lt_of_le_of_lt (Stand.suffix_advance c u).length_le
      (forward_assignment c s y u hc hy)
  · exact forward_assignment c s y _ hc hy

theorem onward_topLevelAssignment : topLevelAssignment.Onward := by
  intro c s x after hc h
  obtain ⟨y, u, hy, ⟨_, _, _, rfl⟩ | ⟨_, _, rfl⟩⟩ := topLevelAssignment_eq_found.1 h
  · exact (Stand.suffix_advance c u).trans (onward_assignment c s y u hc hy)
  · exact onward_assignment c s y _ hc hy

end Reading
end RouteScript.Grammar
