import RouteScript.Proofs.Token.Walked
/-!
# Tokens and gaps

A scanned source is gaps and tokens in turn: what lies before, between and after the tokens is
ignorable, however many heads it was skipped in.
-/
namespace RouteScript

/-- Ranges one after the other from `low` on, none of them beyond `high`. -/
def ByteRange.InOrder : Nat → List ByteRange → Nat → Prop
  | low, [], high => low ≤ high
  | low, r :: rs, high => low ≤ r.start ∧ r.start ≤ r.stop ∧ InOrder r.stop rs high

/-- What lies before, between and after ranges, from `low` to `high`. -/
def ByteRange.gaps : Nat → List ByteRange → Nat → List ByteRange
  | low, [], high => [⟨low, high⟩]
  | low, r :: rs, high => ⟨low, r.start⟩ :: gaps r.stop rs high

namespace ByteRange

variable {low high offset : Nat} {ranges : List ByteRange}

theorem InOrder.le : ∀ {low : Nat} {ranges : List ByteRange}, InOrder low ranges high → low ≤ high
  | _, [], h => h
  | _, _ :: _, ⟨hlow, hr, h⟩ => by
    have := h.le
    omega

theorem InOrder.mono {less : Nat} (h : InOrder low ranges high) (hle : less ≤ low) :
    InOrder less ranges high := by
  cases ranges with
  | nil => exact Nat.le_trans hle h
  | cons r rs => exact ⟨Nat.le_trans hle h.1, h.2⟩

theorem InOrder.bounds : ∀ {low : Nat} {ranges : List ByteRange}, InOrder low ranges high →
    ∀ r ∈ ranges, low ≤ r.start ∧ r.start ≤ r.stop ∧ r.stop ≤ high
  | _, [], _ => by simp
  | low, r :: rs, ⟨hlow, hr, h⟩ => by
    refine List.forall_mem_cons.2 ⟨⟨hlow, hr, h.le⟩, fun s hs => ?_⟩
    have := h.bounds s hs
    omega

theorem InOrder.pairwise : ∀ {low : Nat} {ranges : List ByteRange}, InOrder low ranges high →
    ranges.Pairwise fun r s => r.stop ≤ s.start
  | _, [], _ => .nil
  | _, _ :: _, ⟨_, _, h⟩ => .cons (fun s hs => (h.bounds s hs).1) h.pairwise

theorem InOrder.of_append : ∀ {low : Nat} {before : List ByteRange},
    InOrder low (before ++ ranges) high → InOrder low ranges high
  | _, [], h => h
  | _, _ :: _, ⟨hlow, hr, h⟩ => h.of_append.mono (Nat.le_trans hlow hr)

theorem InOrder.append_empty : ∀ {low : Nat} {ranges : List ByteRange}, InOrder low ranges high →
    InOrder low (ranges ++ [.empty high]) high
  | _, [], h => ⟨h, Nat.le_refl _, Nat.le_refl _⟩
  | _, _ :: _, ⟨hlow, hr, h⟩ => ⟨hlow, hr, h.append_empty⟩

/-- An offset lies in one of the ranges or in one of the gaps. -/
theorem contains_or_gap : ∀ (low : Nat) (ranges : List ByteRange), low ≤ offset → offset < high →
    (∃ r ∈ ranges, r.contains offset = true) ∨
      ∃ g ∈ gaps low ranges high, g.contains offset = true
  | low, [], hlow, hhigh => .inr ⟨⟨low, high⟩, by simp [gaps], by simp [hlow, hhigh]⟩
  | low, r :: rs, hlow, hhigh => by
    by_cases hgap : offset < r.start
    · exact .inr ⟨⟨low, r.start⟩, by simp [gaps], by simp [hlow, hgap]⟩
    by_cases hin : offset < r.stop
    · refine .inl ⟨r, by simp, ?_⟩
      rw [contains_iff]
      omega
    · rcases contains_or_gap r.stop rs (by omega) hhigh with ⟨s, hs, h⟩ | ⟨g, hg, h⟩
      · exact .inl ⟨s, List.mem_cons_of_mem _ hs, h⟩
      · exact .inr ⟨g, List.mem_cons_of_mem _ hg, h⟩

end ByteRange

namespace Scan

/-- Bytes from `position` on as gaps and tokens in turn. -/
inductive Laid : Nat → List UInt8 → List LocatedToken → Prop
  | done {position : Nat} {gap : List UInt8} : Ignorable gap [] → Laid position gap []
  | token {position : Nat} {gap lexeme rest : List UInt8} {t : Token}
      {tokens : List LocatedToken} : Ignorable gap (lexeme ++ rest) → lexeme ≠ [] →
      Laid (position + gap.length + lexeme.length) rest tokens →
      Laid position (gap ++ (lexeme ++ rest))
        (⟨t, position + gap.length, position + gap.length + lexeme.length⟩ :: tokens)

variable {options : ScanOptions} {joined : Bool} {position : Nat} {gap bs : List UInt8}
  {tokens : List LocatedToken}

/-- What is skipped before a layout becomes part of its first gap. -/
theorem Laid.skip (hgap : Ignorable gap bs) (h : Laid (position + gap.length) bs tokens) :
    Laid position (gap ++ bs) tokens := by
  generalize hp : position + gap.length = p at h
  cases h with
  | done hmore =>
    refine .done (Ignorable.append ?_ hmore)
    rwa [List.append_nil]
  | @token _ more lexeme rest t tokens hmore hne hrest =>
    have hlength : p + more.length = position + (gap ++ more).length := by
      rw [List.length_append]
      omega
    rw [hlength] at hrest ⊢
    rw [← List.append_assoc]
    exact .token (hgap.append hmore) hne hrest

theorem laid_of_walked (h : Walked options joined position bs tokens) :
    Laid position bs tokens := by
  induction h with
  | done => exact .done .nil
  | @gap joined position n b bs tokens hhead _ ih =>
    obtain ⟨rfl, -, -⟩ := gapLength_of_head hhead
    obtain ⟨gap, rest, hbs, hlength, hgap⟩ := gapped (b :: bs)
    rw [hlength, hbs, List.drop_left] at ih
    rw [hbs]
    exact .skip hgap ih
  | @token joined joins position n b bs t tokens hhead _ ih =>
    obtain ⟨-, hpos, hle⟩ := lexeme_of_head hhead
    have hlength : ((b :: bs).take n).length = n := List.length_take_of_le hle
    have hne : (b :: bs).take n ≠ [] := List.length_pos_iff.1 (by omega)
    rw [← List.take_append_drop n (b :: bs)]
    have : Laid position ([] ++ ((b :: bs).take n ++ (b :: bs).drop n)) (⟨t, position + 0,
        position + 0 + ((b :: bs).take n).length⟩ :: tokens) :=
      .token .nil hne (by rwa [hlength])
    rwa [hlength] at this

theorem Laid.inOrder (h : Laid position bs tokens) :
    ByteRange.InOrder position (tokens.map (·.range)) (position + bs.length) := by
  induction h with
  | done _ => exact Nat.le_add_right _ _
  | token _ _ _ ih =>
    refine ⟨Nat.le_add_right _ _, Nat.le_add_right _ _, ?_⟩
    simpa only [List.length_append, Nat.add_assoc] using ih

theorem Laid.nonempty (h : Laid position bs tokens) :
    ∀ t ∈ tokens, t.range.start < t.range.stop := by
  induction h with
  | done _ => simp
  | token _ hne _ ih =>
    refine List.forall_mem_cons.2 ⟨?_, ih⟩
    exact Nat.lt_add_of_pos_right (List.length_pos_iff.2 hne)

/-- Every gap is ignorable before what follows it in the source. -/
theorem Laid.ignorable (h : Laid position bs tokens) : ∀ before : List UInt8,
    before.length = position →
    ∀ g ∈ ByteRange.gaps position (tokens.map (·.range)) (position + bs.length),
      Ignorable ((before ++ bs).extract g.start g.stop) ((before ++ bs).drop g.stop) := by
  induction h with
  | done hgap =>
    rintro before rfl g hg
    rw [List.mem_singleton.1 hg]
    simpa [List.extract] using hgap
  | @token position gap lexeme rest t tokens hgap _ _ ih =>
    rintro before rfl
    refine List.forall_mem_cons.2 ⟨?_, ?_⟩
    · simpa [List.extract] using hgap
    · have := ih (before ++ gap ++ lexeme) (by simp [Nat.add_assoc])
      simpa only [List.extract, List.length_append, List.append_assoc, Nat.add_assoc] using this

end Scan
end RouteScript
