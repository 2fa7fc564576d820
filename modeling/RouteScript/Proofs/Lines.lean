import RouteScript.Location
/-!
# Positions follow offsets

The line of an offset is found by halving among the starts of the lines, which rise: what the search
answers is how many of them are no greater than the offset. So a greater offset never has a lesser
position.
-/
namespace RouteScript
namespace LineTable

variable {starts : Array Nat} {offset other low high n m : Nat} {bs source : List UInt8}

/-! ## The search -/

/-- The first `n` of the starts are no greater than the offset, and all others are. -/
structure Splits (starts : Array Nat) (offset n : Nat) : Prop where
  upTo : ∀ i (h : i < starts.size), i < n → starts[i] ≤ offset
  beyond : ∀ i (h : i < starts.size), n ≤ i → offset < starts[i]

theorem getElem_le_getElem (hsorted : starts.toList.Pairwise (· ≤ ·)) {i j : Nat}
    (hj : j < starts.size) (hij : i ≤ j) : starts[i] ≤ starts[j] := by
  rcases Nat.lt_or_eq_of_le hij with hlt | rfl
  · exact List.pairwise_iff_getElem.1 hsorted i j (Nat.lt_trans hlt hj) hj hlt
  · exact Nat.le_refl _

/-- The search keeps what is known of the starts before and behind the part it looks at. -/
theorem countUpTo_spec (hsorted : starts.toList.Pairwise (· ≤ ·)) (hle : low ≤ high)
    (hhigh : high ≤ starts.size) (hupTo : ∀ i (h : i < starts.size), i < low → starts[i] ≤ offset)
    (hbeyond : ∀ i (h : i < starts.size), high ≤ i → offset < starts[i]) :
    countUpTo starts offset low high ≤ high ∧
      Splits starts offset (countUpTo starts offset low high) := by
  fun_induction countUpTo starts offset low high with
  | case1 low high hlt middle hany ih =>
    have hmiddle : middle < starts.size := by omega
    simp only [Array.getElem?_eq_getElem hmiddle, Option.any_some, decide_eq_true_eq] at hany
    refine ih (by omega) hhigh (fun i hi hlt => ?_) hbeyond
    exact Nat.le_trans (getElem_le_getElem hsorted hmiddle (by omega)) hany
  | case2 low high hlt middle hany ih =>
    have hmiddle : middle < starts.size := by omega
    simp only [Array.getElem?_eq_getElem hmiddle, Option.any_some, decide_eq_true_eq,
      Nat.not_le] at hany
    obtain ⟨hcount, hsplits⟩ := ih (by omega) (by omega) hupTo fun i hi hle =>
      Nat.lt_of_lt_of_le hany (getElem_le_getElem hsorted hi hle)
    exact ⟨by omega, hsplits⟩
  | case3 low high hge => exact ⟨hle, hupTo, fun i hi hlow => hbeyond i hi (by omega)⟩

/-- Of a greater offset no fewer starts are passed. -/
theorem Splits.le_of_le (h : Splits starts offset n) (k : Splits starts other m)
    (hn : n ≤ starts.size) (hle : offset ≤ other) : n ≤ m := by
  refine Nat.le_of_not_lt fun hlt => ?_
  have hm : m < starts.size := Nat.lt_of_lt_of_le hlt hn
  have hupTo := h.upTo m hm hlt
  have hbeyond := k.beyond m hm (Nat.le_refl m)
  omega

/-! ## The lines of a source -/

theorem lt_of_mem_startsAfter : ∀ {bs : List UInt8} {offset : Nat},
    ∀ start ∈ startsAfter offset bs, offset < start
  | [], _, _, h => by cases h
  | b :: bs, offset, start, h => by
    have hrest : ∀ start ∈ startsAfter (offset + 1) bs, offset < start := fun start hmem =>
      Nat.lt_trans (Nat.lt_succ_self _) (lt_of_mem_startsAfter start hmem)
    rw [startsAfter] at h
    split at h
    · rcases List.mem_cons.1 h with rfl | h
      · exact Nat.lt_succ_self _
      · exact hrest start h
    · exact hrest start h

theorem pairwise_startsAfter : ∀ (bs : List UInt8) (offset : Nat),
    (startsAfter offset bs).Pairwise (· < ·)
  | [], _ => .nil
  | b :: bs, offset => by
    rw [startsAfter]
    split
    · exact .cons (fun start h => lt_of_mem_startsAfter start h) (pairwise_startsAfter bs _)
    · exact pairwise_startsAfter bs _

/-- The lines of a source start one after the other, the first of them at zero. -/
theorem pairwise_starts (source : List UInt8) :
    (ofSource source).starts.toList.Pairwise (· < ·) :=
  .cons (fun start h => lt_of_mem_startsAfter start h) (pairwise_startsAfter source 0)

/-- The number of lines that start at the offset or before it. -/
def linesUpTo (t : LineTable) (offset : Nat) : Nat :=
  countUpTo t.starts (min offset t.length) 0 t.starts.size

theorem position_eq (t : LineTable) (offset : Nat) : t.position offset =
    ⟨t.linesUpTo offset - 1,
      min offset t.length - (t.starts[t.linesUpTo offset - 1]?).getD 0⟩ :=
  rfl

theorem linesUpTo_spec (source : List UInt8) (offset : Nat) :
    (ofSource source).linesUpTo offset ≤ (ofSource source).starts.size ∧
      Splits (ofSource source).starts (min offset source.length)
        ((ofSource source).linesUpTo offset) :=
  countUpTo_spec ((pairwise_starts source).imp Nat.le_of_lt) (Nat.zero_le _) (Nat.le_refl _)
    (fun _ _ h => absurd h (Nat.not_lt_zero _)) (fun _ hi hle => absurd hi (Nat.not_lt.2 hle))

/-- Every offset lies in a line: the first one starts at zero. -/
theorem linesUpTo_pos (source : List UInt8) (offset : Nat) :
    0 < (ofSource source).linesUpTo offset := by
  refine Nat.pos_of_ne_zero fun hzero => ?_
  have hsize : 0 < (ofSource source).starts.size := by simp [ofSource]
  have hbeyond := (linesUpTo_spec source offset).2.beyond 0 hsize (Nat.le_of_eq hzero)
  have hfirst : (ofSource source).starts[0] = 0 := by simp [ofSource]
  omega

theorem linesUpTo_mono (source : List UInt8) (h : offset ≤ other) :
    (ofSource source).linesUpTo offset ≤ (ofSource source).linesUpTo other := by
  obtain ⟨hsize, hsplits⟩ := linesUpTo_spec source offset
  obtain ⟨-, hsplits'⟩ := linesUpTo_spec source other
  exact hsplits.le_of_le hsplits' hsize (by omega)

/-- A greater offset does not have a lesser position. -/
theorem position_mono (source : List UInt8) (h : offset ≤ other) :
    ((ofSource source).position other).before ((ofSource source).position offset) = false := by
  have hmono := linesUpTo_mono source h
  have hpos := linesUpTo_pos source offset
  rw [position_eq, position_eq]
  rcases Nat.lt_or_eq_of_le hmono with hlt | heq
  · simp only [Position.before, Bool.or_eq_false_iff, decide_eq_false_iff_not,
      Bool.and_eq_false_iff]
    omega
  · have hclamped : min offset (ofSource source).length ≤ min other (ofSource source).length := by
      omega
    simp only [Position.before, heq, Nat.lt_irrefl, decide_false, Bool.false_or, decide_true,
      Bool.true_and, decide_eq_false_iff_not]
    omega

end LineTable
end RouteScript
