import RouteScript.Proofs.Grammar.Found
import RouteScript.Proofs.Grammar.Steady
import RouteScript.Proofs.Tree.Kinds
/-!
# The contract of rules

A rule that finds a mistake or nothing leaves the cursor where it was, and no rule moves it back.
The combinators hand this contract on, from any rules that keep to it and to any depth: what else
the rules do is left open, as long as they leave the cursor in the stream and no node of the store
becomes one of another kind.

Of the combinators only `sequence` puts the cursor back itself. The others rely on their rules, and
so the contract is what makes each alternative of a `choice` run from the same place
(`PassedOver.unmoved`), and the passes of `many` come to an end (`exists_repeats`): without it, a
pass could go back and the next read the same again.
-/
namespace RouteScript

namespace NodeKind

theorem outcome_ne_success {kind : NodeKind} :
    kind.outcome ≠ .success ↔ kind = .error ∨ kind = .empty := by
  cases kind <;> simp [outcome]

end NodeKind

namespace Grammar

variable {c : Context} {stream : List LocatedToken} {s s₁ s₂ after : State} {n : NodeId}
  {failure last : NodeId} {rule : Rule} {rules : List Rule} {kind : NodeKind} {ends : List State}

/-! ## States of a stream -/

/-- A state of a parse of the stream, the closing token not in it: the cursor stands in the stream,
and the first node of the store stands for nothing. -/
structure State.Inside (stream : List LocatedToken) (s : State) : Prop where
  pending : s.pending <:+ stream
  pos : 0 < s.tree.size
  nothing : s.tree.kind nothingId = .empty

/-- The second state stands no further back, and the nodes of the first are in its store, of the
kinds that they were. -/
structure State.Onward (s s₁ : State) : Prop where
  pending : s₁.pending <:+ s.pending
  kinds : s.tree.KeepsKinds s₁.tree

namespace State.Onward

theorem refl (s : State) : s.Onward s := ⟨List.suffix_rfl, .refl _⟩

theorem trans (h : s.Onward s₁) (k : s₁.Onward s₂) : s.Onward s₂ :=
  ⟨k.pending.trans h.pending, h.kinds.trans k.kinds⟩

theorem inside (h : s.Onward s₁) (hs : s.Inside stream) : s₁.Inside stream where
  pending := h.pending.trans hs.pending
  pos := Nat.lt_of_lt_of_le hs.pos h.kinds.size_le
  nothing := by rw [h.kinds.kind nothingId hs.pos, hs.nothing]

theorem length_lt (h : s.Onward s₁) (hne : s₁.pending ≠ s.pending) :
    s₁.pending.length < s.pending.length :=
  Nat.lt_of_le_of_ne h.pending.length_le fun he => hne (h.pending.eq_of_length he)

/-- A node of the store is still there, and of its kind. -/
theorem keeps (h : s.Onward s₁) (hn : n < s.tree.size ∧ s.tree.kind n = kind) :
    n < s₁.tree.size ∧ s₁.tree.kind n = kind := by
  refine ⟨Nat.lt_of_lt_of_le hn.1 h.kinds.size_le, ?_⟩
  rw [h.kinds.kind n hn.1]
  exact hn.2

end State.Onward

/-! ## Rules that keep to the contract -/

/-- The kind of the node that the rule finds. -/
def Rule.foundKind (rule : Rule) (c : Context) (s : State) : NodeKind :=
  (rule c s).2.tree.kind (rule c s).1

/-- The rule leaves the cursor in the stream and changes the kind of no node that is there, and it
keeps to the contract: it leaves the cursor where it was whenever it finds a mistake or nothing, and
never moves it back. -/
structure Rule.Obeys (rule : Rule) (c : Context) (stream : List LocatedToken) : Prop where
  inside : ∀ s : State, s.Inside stream → (rule c s).2.pending <:+ stream
  kinds : ∀ s : State, s.Inside stream → s.tree.KeepsKinds (rule c s).2.tree
  unmoved : ∀ s : State, s.Inside stream →
    rule.foundKind c s = .error ∨ rule.foundKind c s = .empty → (rule c s).2.pending = s.pending
  length_le : ∀ s : State, s.Inside stream → (rule c s).2.pending.length ≤ s.pending.length

namespace Rule.Obeys

/-- In one stream, no further back is a suffix. -/
theorem onward (h : rule.Obeys c stream) (hs : s.Inside stream) : s.Onward (rule c s).2 where
  pending := List.suffix_of_suffix_length_le (h.inside s hs) hs.pending (h.length_le s hs)
  kinds := h.kinds s hs

theorem stays (h : rule.Obeys c stream) (hs : s.Inside stream)
    (hkind : (rule.foundKind c s).outcome ≠ .success) : (rule c s).2.pending = s.pending :=
  h.unmoved s hs (NodeKind.outcome_ne_success.1 hkind)

end Rule.Obeys

/-! ## Steps -/

/-- From `s` to `s₁` the rules run one after the other and none of them succeeds. The last mistake
among what they find is `last`; where they find none, it is the `failure` from before. -/
inductive PassedOver (c : Context) : NodeId → State → List Rule → NodeId → State → Prop
  | done {failure : NodeId} {s : State} : PassedOver c failure s [] failure s
  | mistake {failure last : NodeId} {s s₁ : State} {rule : Rule} {rest : List Rule} :
      rule.foundKind c s = .error → PassedOver c (rule c s).1 (rule c s).2 rest last s₁ →
      PassedOver c failure s (rule :: rest) last s₁
  | nothing {failure last : NodeId} {s s₁ : State} {rule : Rule} {rest : List Rule} :
      rule.foundKind c s = .empty → PassedOver c failure (rule c s).2 rest last s₁ →
      PassedOver c failure s (rule :: rest) last s₁

namespace PassedOver

/-- Rules that are passed over are run from one and the same place. -/
theorem unmoved (hp : PassedOver c failure s rules last s₁)
    (h : ∀ rule ∈ rules, rule.Obeys c stream) (hs : s.Inside stream) :
    s.Onward s₁ ∧ s₁.pending = s.pending := by
  induction hp with
  | done => exact ⟨.refl _, rfl⟩
  | @mistake _ _ s _ rule _ hkind _ ih | @nothing _ _ s _ rule _ hkind _ ih =>
    have hrule := (h rule List.mem_cons_self).onward hs
    have hstays := (h rule List.mem_cons_self).unmoved s hs (by simp [hkind])
    obtain ⟨hon, hpending⟩ := ih (fun r hr => h r (List.mem_cons_of_mem _ hr)) (hrule.inside hs)
    exact ⟨hrule.trans hon, hpending.trans hstays⟩

end PassedOver

end Grammar
end RouteScript
