import RouteScript.Proofs.Grammar.Found
import RouteScript.Proofs.Grammar.Run
/-!
# Combinators and what they read

A rule `Reads` a reading if from every ready state it comes to what the reading says: the same
fault, or a new node with the same item and the parse at the same place. Every combinator hands
this on from the rules it is made of; a sequence does so only for readings that are `Quiet`, since
it puts the cursor back after a mistake, but mistakes that were kept stay kept.
-/
namespace RouteScript.Grammar

variable {c : Context} {s s₁ s₂ : State} {id n : NodeId} {l : Label} {r failure : Result}
  {rule : Rule} {rules : List Rule} {f : Reading} {fs : List Reading} {what : String}

/-! ## Results -/

theorem Fault.kind_ne_empty (e : Fault) : e.item.label.kind ≠ .empty :=
  fun h => NodeKind.noConfusion h

/-- From `s` to `s₁` a rule came to the result, and `id` is the node it found. -/
inductive Comes (s : State) : Result → NodeId → State → Prop
  | nothing {s₁ : State} (grows : s.tree.Grows s₁.tree) (refusals : s₁.refusals = s.refusals)
      (stand : s₁.stand = s.stand) : Comes s .nothing nothingId s₁
  | fault {s₁ : State} {id : NodeId} {e : Fault} (built : Built s id e.item s₁)
      (stand : s₁.stand = s.stand) : Comes s (.fault e) id s₁
  | found {s₁ : State} {id : NodeId} {x : Item} {after : Stand} (built : Built s id x s₁)
      (success : x.label.kind.outcome = .success) (stand : s₁.stand = after) :
      Comes s (.found x after) id s₁

namespace Comes

theorem grows (h : Comes s r id s₁) : s.tree.Grows s₁.tree := by
  cases h with
  | nothing hg => exact hg
  | fault hb | found hb => exact hb.grows

theorem refusals (h : Comes s r id s₁) : s₁.refusals = s.refusals := by
  cases h with
  | nothing _ hr => exact hr
  | fault hb | found hb => exact hb.refusals

theorem outcome (hs : s.Ready) (h : Comes s r id s₁) :
    (s₁.tree.node id).kind.outcome = r.outcome := by
  cases h with
  | nothing hg => rw [(hs.of_grows hg).nothing]; rfl
  | fault hb => rw [hb.kind]; rfl
  | found hb hx => rw [hb.kind, hx]; rfl

/-- A result that is no success leaves the parse where it stood. -/
theorem stand (h : Comes s r id s₁) (hr : r.outcome ≠ .success) : s₁.stand = s.stand := by
  cases h with
  | nothing _ _ hs | fault _ hs => exact hs
  | found => exact absurd rfl hr

/-- A rule that runs after one without success comes to its result from the start on. -/
theorem earlier (h : Comes s r id s₁) (hr : r.outcome ≠ .success) {r' : Result} {id' : NodeId}
    (k : Comes s₁ r' id' s₂) : Comes s r' id' s₂ := by
  have hstand := h.stand hr
  cases k with
  | nothing hg hrs hs => exact .nothing (h.grows.trans hg) (hrs.trans h.refusals) (hs.trans hstand)
  | fault hb hs => exact .fault (hb.earlier h.grows h.refusals) (hs.trans hstand)
  | found hb hx hs => exact .found (hb.earlier h.grows h.refusals) hx hs

/-- A result without success stands while a rule runs that finds nothing. -/
theorem later (h : Comes s r id s₁) (hr : r.outcome ≠ .success) {id' : NodeId}
    (k : Comes s₁ .nothing id' s₂) : Comes s r id s₂ := by
  cases k with
  | nothing hg hrs hs =>
    cases h with
    | nothing hg' hrs' hs' =>
      exact .nothing (hg'.trans hg) (hrs.trans hrs') (hs.trans hs')
    | fault hb hs' => exact .fault (hb.later hg hrs) (hs.trans hs')
    | found => exact absurd rfl hr

end Comes

/-- The rule comes to what the reading says, from every ready state on. -/
def Reads (rule : Rule) (f : Reading) : Prop :=
  ∀ c s, c.Closed → s.Ready → Comes s (f c s.stand) (rule c s).1 (rule c s).2

theorem reads_missing (what : String) :
    Reads (missing what) fun c s => .fault (.missing what c s) := fun c _ _ hs =>
  .fault (built_newNode hs.sound _ rfl rfl c) rfl

/-! ## Alternatives -/

theorem reads_choiceFrom (h : List.Forall₂ Reads rules fs) (hc : c.Closed) (hs : s.Ready) :
    ∀ {failure : Result} {id : NodeId} {s₁ : State}, Comes s failure id s₁ →
      failure.outcome ≠ .success →
      Comes s (Reading.choiceFrom failure c s.stand fs) (choiceFrom id rules c s₁).1
        (choiceFrom id rules c s₁).2 := by
  induction h with
  | nil => exact fun hfail _ => hfail
  | @cons rule f rules fs hrule _ ih =>
    intro failure id s₁ hfail hne
    have hs₁ := hs.of_grows hfail.grows
    have step := hrule c s₁ hc hs₁
    rw [hfail.stand hne] at step
    rw [choiceFrom, Reading.choiceFrom]
    simp only [bind_run, outcomeOf_run, step.outcome hs₁]
    cases hf : f c s.stand with
    | nothing =>
      rw [hf] at step
      exact ih (hfail.later hne step) hne
    | fault e =>
      rw [hf] at step
      exact ih (hfail.earlier hne step) (by simp [Result.outcome])
    | found x after =>
      rw [hf] at step
      exact hfail.earlier hne step

theorem reads_choice (h : List.Forall₂ Reads rules fs) :
    Reads (choice rules) (Reading.choice fs) := fun _ s hc hs =>
  reads_choiceFrom h hc hs (.nothing (.refl hs.sound) rfl rfl) (by simp [Result.outcome])

theorem reads_orMissing (h : Reads rule f) (what : String) :
    Reads (orMissing rule what) (f.orMissing what) := by
  intro c s hc hs
  have step := h c s hc hs
  have hs₁ := hs.of_grows step.grows
  simp only [orMissing, Reading.orMissing, bind_run, outcomeOf_run, step.outcome hs]
  cases hf : f c s.stand with
  | found x after =>
    rw [hf] at step
    exact step
  | nothing | fault e =>
    rw [hf] at step
    have hne := step.stand (by simp [Result.outcome])
    have := reads_missing what c (rule c s).2 hc hs₁
    rw [hne] at this
    exact step.earlier (by simp [Result.outcome]) this

/-! ## Sequences -/

theorem reads_sequenceFrom {kind : NodeKind} (hk : kind.outcome = .success)
    (h : List.Forall₂ (fun rule (f : Reading) => Reads rule f ∧ f.Quiet) rules fs) (hc : c.Closed)
    (hs : s.Ready) : ∀ {xs : List Item} {s₁ : State}, Built s n (.bundle ⟨kind, none, none⟩ xs) s₁ →
      s₁.stand.goTo s.pending = s.stand →
      Comes s (Reading.sequenceFrom kind c xs s₁.stand fs) (sequenceFrom s.pending n rules c s₁).1
        (sequenceFrom s.pending n rules c s₁).2 := by
  induction h with
  | nil =>
    intro xs s₁ hb _
    exact .found (hb.cover c) (by rw [Item.covered, Item.label_bundle]; exact hk)
      (stand_coverChildren n c s₁)
  | @cons rule f rules fs hrule _ ih =>
    intro xs s₁ hb hback
    have step := hrule.1 c s₁ hc (hs.of_grows hb.grows)
    rw [sequenceFrom, Reading.sequenceFrom]
    simp only [bind_run, outcomeOf_run, step.outcome (hs.of_grows hb.grows)]
    generalize rule c s₁ = found at step ⊢
    obtain ⟨id, s₂⟩ := found
    cases hf : f c s₁.stand with
    | nothing =>
      rw [hf] at step
      have hst : s₂.stand = s₁.stand := step.stand (by simp [Result.outcome])
      have := ih (hb.later step.grows step.refusals) (by rw [hst, hback])
      rwa [hst] at this
    | fault e =>
      rw [hf] at step
      cases step with
      | fault hb' hst =>
        have hstart := congrArg (·.goTo s.pending) hst
        exact .fault ((hb.of_trans hb').congr rfl rfl) (hstart.trans hback)
    | found x after =>
      rw [hf] at step
      cases step with
      | found hb' hx hst =>
        have hne := NodeKind.ne_empty_of_outcome hx
        have := ih (hb.attach hb' hne c) (by rw [stand_attach, hst, hrule.2.goTo hf, hback])
        rwa [stand_attach, hst] at this

theorem reads_sequence {kind : NodeKind} (hk : kind.outcome = .success)
    (h : List.Forall₂ (fun rule (f : Reading) => Reads rule f ∧ f.Quiet) rules fs) :
    Reads (sequence kind rules) (Reading.sequence kind fs) := by
  intro c s hc hs
  have hnew : Built s _ (.bundle ⟨kind, none, none⟩ []) _ :=
    built_newNode hs.sound (.ofKind kind) rfl rfl c
  exact reads_sequenceFrom hk h hc hs hnew rfl

/-! ## Repetitions -/

theorem collect_run (h : Reads rule f) (hc : c.Closed) (hs : s.Ready) :
    ∀ {s₁ : State} {xs : List Item}, Built s n (.bundle l xs) s₁ →
      Built s n (.bundle l (xs ++ (Reading.collect f c s₁.stand).1)) (collect n rule c s₁).2 ∧
        (collect n rule c s₁).2.stand = (Reading.collect f c s₁.stand).2 := by
  -- on the number of tokens left, which is what both repetitions go by
  suffices key : ∀ (left : Nat) {s₁ : State} {xs : List Item}, s₁.pending.length = left →
      Built s n (.bundle l xs) s₁ →
      Built s n (.bundle l (xs ++ (Reading.collect f c s₁.stand).1)) (collect n rule c s₁).2 ∧
        (collect n rule c s₁).2.stand = (Reading.collect f c s₁.stand).2 from
    fun {_ _} hb => key _ rfl hb
  intro left
  induction left using Nat.strongRecOn with
  | ind left ih =>
    intro s₁ xs hleft hb
    have step := h c s₁ hc (hs.of_grows hb.grows)
    rw [collect, whileAdvancing, Reading.collect]
    simp only [collectOne, bind_run, outcomeOf_run, step.outcome (hs.of_grows hb.grows)]
    generalize rule c s₁ = found at step ⊢
    obtain ⟨id, s₂⟩ := found
    cases hf : f c s₁.stand with
    | nothing | fault e =>
      rw [hf] at step
      have hst := step.stand (by simp [Result.outcome])
      simp only [Result.outcome, pure_run, Bool.false_eq_true, and_false, if_false, List.append_nil]
      exact ⟨hb.later step.grows step.refusals, hst⟩
    | found x after =>
      rw [hf] at step
      cases step with
      | found hb' hx hst =>
        have hne := NodeKind.ne_empty_of_outcome hx
        have hb₂ := hb.attach hb' hne c
        have hst₂ := (stand_attach n id c s₂).trans hst
        have hlen : (attach n id c s₂).2.pending.length = after.pending.length :=
          congrArg (·.pending.length) hst₂
        simp only [Result.outcome, bind_run, pure_run, hlen, and_true]
        by_cases hlt : after.pending.length < s₁.pending.length
        · rw [if_pos hlt, if_pos (show after.pending.length < s₁.stand.pending.length from hlt)]
          have := ih _ (by rw [← hleft]; exact hlt) hlen hb₂
          rw [hst₂, List.append_assoc] at this
          exact this
        · rw [if_neg hlt, if_neg (show ¬ after.pending.length < s₁.stand.pending.length from hlt)]
          exact ⟨hb₂, hst₂⟩

/-- A node with all that the rule finds. -/
theorem many_run (h : Reads rule f) (kind : NodeKind) (hc : c.Closed) (hs : s.Ready) :
    Built s (many kind rule c s).1 (.covered kind (Reading.collect f c s.stand).1)
        (many kind rule c s).2 ∧
      (many kind rule c s).2.stand = (Reading.collect f c s.stand).2 := by
  have hnew : Built s _ (.bundle ⟨kind, none, none⟩ []) _ :=
    built_newNode hs.sound (.ofKind kind) rfl rfl c
  have hcollect := collect_run h hc hs hnew
  exact ⟨hcollect.1.cover c, hcollect.2⟩

end RouteScript.Grammar
