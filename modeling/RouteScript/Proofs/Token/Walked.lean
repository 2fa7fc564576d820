import RouteScript.Proofs.Token.Lexeme
/-!
# The walk from head to head

A walk counts down the bytes that a head takes. `Walked` is the same walk in one step for each head:
every head takes one byte at least and none beyond the end, so what comes after it is what is left
when its bytes are dropped.
-/
namespace RouteScript.Scan

/-- The tokens of the bytes, from head to head. -/
inductive Walked (options : ScanOptions) :
    Bool → Nat → List UInt8 → List LocatedToken → Prop
  | done {joined : Bool} {position : Nat} : Walked options joined position [] []
  | gap {joined : Bool} {position n : Nat} {b : UInt8} {bs : List UInt8}
      {tokens : List LocatedToken} : head options joined b bs = .gap n →
      Walked options joined (position + n) ((b :: bs).drop n) tokens →
      Walked options joined position (b :: bs) tokens
  | token {joined joins : Bool} {position n : Nat} {b : UInt8} {bs : List UInt8} {t : Token}
      {tokens : List LocatedToken} : head options joined b bs = .token t n joins →
      Walked options joins (position + n) ((b :: bs).drop n) tokens →
      Walked options joined position (b :: bs) (⟨t, position, position + n⟩ :: tokens)

variable {options : ScanOptions} {joined joins : Bool} {b : UInt8} {bs : List UInt8} {t : Token}
  {n position : Nat} {tokens : List LocatedToken}

/-- The bytes that are owed are passed over. -/
theorem walk_owed : ∀ (owed : Nat) (bs : List UInt8) (position : Nat), owed ≤ bs.length →
    walk options joined position owed bs =
      walk options joined (position + owed) 0 (bs.drop owed)
  | 0, _, _, _ => rfl
  | _ + 1, [], _, h => by simp at h
  | owed + 1, b :: bs, position, h => by
    rw [walk, walk_owed owed bs (position + 1) (Nat.le_of_succ_le_succ h), List.drop_succ_cons,
      Nat.add_right_comm, Nat.add_assoc]

/-- The bytes after a head of `n` bytes, the first of which was taken. -/
theorem walk_after (hpos : 0 < n) (hle : n ≤ (b :: bs).length) (position : Nat) :
    walk options joined (position + 1) (n - 1) bs =
      walk options joined (position + n) 0 ((b :: bs).drop n) := by
  obtain ⟨m, rfl⟩ : ∃ m, n = m + 1 := ⟨n - 1, by omega⟩
  rw [Nat.add_sub_cancel, walk_owed m bs _ (Nat.le_of_succ_le_succ hle), List.drop_succ_cons,
    Nat.add_assoc, Nat.add_comm 1 m]

/-- The induction is on the bytes that are left, as the walk takes them one by one. -/
theorem walked_of_walk : ∀ (bs : List UInt8) {joined : Bool} {position owed : Nat}
    {tokens : List LocatedToken}, owed ≤ bs.length →
    walk options joined position owed bs = .ok tokens →
      Walked options joined (position + owed) (bs.drop owed) tokens
  | [], joined, position, owed, tokens, _, h => by
    rw [walk] at h
    cases h
    rw [List.drop_nil]
    exact .done
  | b :: bs, joined, position, owed + 1, tokens, hle, h => by
    rw [walk] at h
    have := walked_of_walk bs (Nat.le_of_succ_le_succ hle) h
    rwa [Nat.add_assoc, Nat.add_comm 1 owed] at this
  | b :: bs, joined, position, 0, tokens, _, h => by
    rw [walk] at h
    split at h
    · rename_i n hhead
      obtain ⟨-, hpos, hn⟩ := gapLength_of_head hhead
      obtain ⟨m, rfl⟩ : ∃ m, n = m + 1 := ⟨n - 1, by omega⟩
      have hrest := walked_of_walk bs (Nat.le_of_succ_le_succ hn) h
      rw [Nat.add_assoc, Nat.add_comm 1 m] at hrest
      exact .gap hhead hrest
    · rename_i t n joins hhead
      obtain ⟨-, hpos, hn⟩ := lexeme_of_head hhead
      obtain ⟨m, rfl⟩ : ∃ m, n = m + 1 := ⟨n - 1, by omega⟩
      cases hwalk : walk options joins (position + 1) (m + 1 - 1) bs with
      | error e => rw [hwalk] at h; cases h
      | ok rest =>
        rw [hwalk] at h
        cases h
        have hrest := walked_of_walk bs (Nat.le_of_succ_le_succ hn) hwalk
        rw [Nat.add_assoc, Nat.add_comm 1 m] at hrest
        exact .token hhead hrest
    · cases h

theorem Walked.walk_eq (h : Walked options joined position bs tokens) :
    walk options joined position 0 bs = .ok tokens := by
  induction h with
  | done => rw [walk]
  | gap hhead _ ih =>
    obtain ⟨-, hpos, hle⟩ := gapLength_of_head hhead
    simp only [walk, hhead]
    rw [walk_after hpos hle, ih]
  | token hhead _ ih =>
    obtain ⟨-, hpos, hle⟩ := lexeme_of_head hhead
    simp only [walk, hhead]
    rw [walk_after hpos hle, ih]
    rfl

theorem walk_eq_ok_iff :
    walk options joined position 0 bs = .ok tokens ↔ Walked options joined position bs tokens :=
  ⟨walked_of_walk bs (Nat.zero_le _), Walked.walk_eq⟩

/-- Every token of a walk is a lexeme. -/
theorem Walked.lexeme (h : Walked options joined position bs tokens) :
    ∀ t ∈ tokens, Lexeme options t.token := by
  induction h with
  | done => simp
  | gap _ _ ih => exact ih
  | token hhead _ ih => exact List.forall_mem_cons.2 ⟨(lexeme_of_head hhead).1, ih⟩

end RouteScript.Scan

namespace RouteScript

/-- A scan is a walk over the whole source. -/
theorem scan_eq_ok_iff {options : ScanOptions} {source : List UInt8}
    {tokens : List LocatedToken} :
    scan options source = .ok tokens ↔ Scan.Walked options false 0 source tokens :=
  Scan.walk_eq_ok_iff

end RouteScript
