import RouteScript.Proofs.Lines
/-!
# Positions tell offsets

The line of an offset is the number of line feeds before it, and its column the distance from the
last of them. Up to the end of the source no two offsets have one position, so a span holds the
position of an offset exactly if its range holds the offset.
-/
namespace RouteScript
namespace LineTable

variable {source : List UInt8} {offset other start n : Nat} {starts : Array Nat}

/-- The line of an offset begins at `start`: at the first byte of the source or right behind a line
feed, and no line feed stands between `start` and the offset. -/
structure LineBegins (source : List UInt8) (offset start : Nat) : Prop where
  le : start ≤ offset
  begins : start = 0 ∨ ∃ i, start = i + 1 ∧ source[i]? = some 0x0A
  unbroken : ∀ i, start ≤ i → i < offset → source[i]? ≠ some 0x0A

/-! ## Line feeds and starts -/

/-- How many of the starts are no greater than the offset is the number of those that come before
the first that is greater. -/
theorem Splits.countP_eq (h : Splits starts offset n) (hn : n ≤ starts.size) :
    starts.toList.countP (· ≤ offset) = n := by
  have hupTo : (starts.toList.take n).countP (· ≤ offset) = n := by
    have hall : ∀ s ∈ starts.toList.take n, decide (s ≤ offset) = true := by
      intro s hs
      obtain ⟨i, hi, rfl⟩ := List.mem_iff_getElem.1 hs
      rw [List.length_take, Array.length_toList] at hi
      simpa using h.upTo i (by omega) (by omega)
    rw [List.countP_eq_length.2 hall, List.length_take, Array.length_toList, Nat.min_eq_left hn]
  have hbeyond : (starts.toList.drop n).countP (· ≤ offset) = 0 := by
    refine List.countP_eq_zero.2 fun s hs => ?_
    obtain ⟨i, hi, rfl⟩ := List.mem_iff_getElem.1 hs
    rw [List.length_drop, Array.length_toList] at hi
    simpa using h.beyond (n + i) (by omega) (by omega)
  conv => lhs; rw [← List.take_append_drop n starts.toList]
  rw [List.countP_append, hupTo, hbeyond, Nat.add_zero]

/-- Of the lines that begin behind a line feed, those up to an offset are as many as the line feeds
before it. -/
theorem countP_startsAfter : ∀ (bs : List UInt8) (base offset : Nat),
    (startsAfter base bs).countP (· ≤ offset) = (bs.take (offset - base)).count 0x0A
  | [], _, _ => by simp [startsAfter]
  | b :: bs, base, offset => by
    have ih := countP_startsAfter bs (base + 1) offset
    rcases Nat.lt_or_ge base offset with hlt | hge
    · obtain ⟨k, rfl⟩ := Nat.exists_eq_add_of_lt hlt
      rw [show base + k + 1 - (base + 1) = k by omega] at ih
      rw [show base + k + 1 - base = k + 1 by omega, List.take_succ_cons, List.count_cons,
        startsAfter]
      by_cases hb : b = 0x0A
      · simp [hb, ih, show base + 1 ≤ base + k + 1 by omega]
      · simp [hb, ih]
    · rw [show offset - (base + 1) = 0 by omega] at ih
      rw [show offset - base = 0 by omega, startsAfter]
      by_cases hb : b = 0x0A
      · simpa [hb, show ¬ base + 1 ≤ offset by omega] using ih
      · simpa [hb] using ih

/-- The lines behind the first begin right behind the line feeds. -/
theorem mem_startsAfter : ∀ {bs : List UInt8} {base : Nat},
    start ∈ startsAfter base bs ↔ ∃ i, start = base + i + 1 ∧ bs[i]? = some 0x0A
  | [], _ => by simp [startsAfter]
  | b :: bs, base => by
    have ih : start ∈ startsAfter (base + 1) bs ↔
        ∃ i, start = base + (i + 1) + 1 ∧ (b :: bs)[i + 1]? = some 0x0A := by
      rw [mem_startsAfter]
      simp only [List.getElem?_cons_succ, Nat.add_right_comm base 1, Nat.add_assoc]
    rw [← Nat.or_exists_add_one, ← ih, startsAfter]
    by_cases hb : b = 0x0A <;> simp [hb]

theorem mem_starts : start ∈ (ofSource source).starts ↔
    start = 0 ∨ ∃ i, start = i + 1 ∧ source[i]? = some 0x0A := by
  simp [ofSource, mem_startsAfter]

/-- One line is counted for each line feed before the offset, and the first. -/
theorem linesUpTo_eq (source : List UInt8) (offset : Nat) :
    (ofSource source).linesUpTo offset =
      (source.take (min offset source.length)).count 0x0A + 1 := by
  obtain ⟨hsize, hsplits⟩ := linesUpTo_spec source offset
  rw [← hsplits.countP_eq hsize, ofSource, List.countP_cons_of_pos (by simp), countP_startsAfter,
    Nat.sub_zero]

/-! ## The position of an offset -/

/-- The last line that the search passes begins where the line of the offset does. -/
theorem lineBegins_start (source : List UInt8) (offset : Nat) :
    ∃ start, (ofSource source).starts[(ofSource source).linesUpTo offset - 1]? = some start ∧
      LineBegins source (min offset source.length) start := by
  obtain ⟨hsize, hsplits⟩ := linesUpTo_spec source offset
  have hpos := linesUpTo_pos source offset
  have hline : (ofSource source).linesUpTo offset - 1 < (ofSource source).starts.size := by omega
  refine ⟨_, Array.getElem?_eq_getElem hline, hsplits.upTo _ hline (by omega),
    mem_starts.1 (Array.getElem_mem hline), fun i hi hlt hfeed => ?_⟩
  -- a line feed in between would begin a line that the search has passed as well
  obtain ⟨j, hj, hstart⟩ := Array.mem_iff_getElem.1 (mem_starts.2 (.inr ⟨i, rfl, hfeed⟩))
  have hpassed : j < (ofSource source).linesUpTo offset := by
    refine Nat.lt_of_not_le fun hle => ?_
    have := hsplits.beyond j hj hle
    omega
  have hle := getElem_le_getElem ((pairwise_starts source).imp Nat.le_of_lt) hline
    (show j ≤ (ofSource source).linesUpTo offset - 1 by omega)
  omega

/-- The position of an offset, in terms of line feeds. -/
theorem exists_position_eq (source : List UInt8) (offset : Nat) :
    ∃ start, LineBegins source (min offset source.length) start ∧
      (ofSource source).position offset =
        ⟨(source.take (min offset source.length)).count 0x0A,
          min offset source.length - start⟩ := by
  obtain ⟨start, hstart, hbegins⟩ := lineBegins_start source offset
  refine ⟨start, hbegins, ?_⟩
  rw [position_eq, hstart, linesUpTo_eq]
  rfl

theorem position_of_length_le (h : source.length ≤ offset) :
    (ofSource source).position offset = (ofSource source).position source.length := by
  have hmin : min offset (ofSource source).length =
      min source.length (ofSource source).length := by
    rw [show (ofSource source).length = source.length from rfl]
    omega
  simp only [position, hmin]

/-- Positions are told apart up to the end of the source. -/
theorem before_position_of_lt (h : offset < other) (hle : other ≤ source.length) :
    ((ofSource source).position offset).before ((ofSource source).position other) = true := by
  have hmono := linesUpTo_mono source (Nat.le_of_lt h)
  have hpos := linesUpTo_pos source offset
  obtain ⟨start, hstart, hbegins⟩ := lineBegins_start source offset
  have hin := hbegins.le
  rw [position_eq, position_eq]
  rcases Nat.lt_or_eq_of_le hmono with hlt | heq
  · simp only [Position.before, Bool.or_eq_true, decide_eq_true_eq]
    omega
  · have hlen : (ofSource source).length = source.length := rfl
    simp only [Position.before, ← heq, hstart, hlen, Option.getD_some, Nat.lt_irrefl, decide_false,
      Bool.false_or, decide_true, Bool.true_and, decide_eq_true_eq]
    omega

/-- Up to the end of the source, positions are ordered as the offsets are. -/
theorem before_position_iff (hle : other ≤ source.length) :
    ((ofSource source).position offset).before ((ofSource source).position other) = true ↔
      offset < other := by
  refine ⟨fun h => Nat.lt_of_not_le fun hge => ?_, fun h => before_position_of_lt h hle⟩
  rw [position_mono source hge] at h
  cases h

/-- A span holds the position of an offset exactly if its range holds the offset. -/
theorem contains_position {r : ByteRange} (hstop : r.stop ≤ source.length)
    (hle : offset ≤ source.length) :
    ((ofSource source).span r).contains ((ofSource source).position offset) =
      r.contains offset := by
  rw [Bool.eq_iff_iff, ByteRange.contains_iff]
  simp only [Span.contains, span, Bool.and_eq_true, Bool.not_eq_true', ← Bool.not_eq_true,
    before_position_iff hstop]
  rcases Nat.lt_or_ge source.length r.start with hlong | hstart
  · -- the range begins behind the end of the source, so it holds no offset of it
    rw [position_of_length_le (Nat.le_of_lt hlong), before_position_iff (Nat.le_refl _)]
    omega
  · rw [before_position_iff hstart, Nat.not_lt]

/-- The line of an offset is the number of line feeds before it and the column its distance from
where that line begins; an offset behind the end counts as the end. Positions rise strictly up to
the end and stay there, every line is one of the table, and a span that does not end behind the
source holds the position of an offset exactly if its range holds the offset. The search passes the
first line at least, so that there is one to answer. -/
theorem position_exact (source : List UInt8) :
    (∀ offset, ∃ start, LineBegins source (min offset source.length) start ∧
      (ofSource source).position offset =
        ⟨(source.take (min offset source.length)).count 0x0A,
          min offset source.length - start⟩) ∧
    (∀ offset other, offset < other → other ≤ source.length →
      ((ofSource source).position offset).before ((ofSource source).position other) = true) ∧
    (∀ offset, source.length ≤ offset →
      (ofSource source).position offset = (ofSource source).position source.length) ∧
    (∀ offset, ((ofSource source).position offset).line < (ofSource source).lineCount) ∧
    (∀ r offset, r.stop ≤ source.length → offset ≤ source.length →
      (((ofSource source).span r).contains ((ofSource source).position offset) = true ↔
        r.start ≤ offset ∧ offset < r.stop)) ∧
    ∀ offset, 0 < countUpTo (ofSource source).starts (min offset source.length) 0
      (ofSource source).starts.size := by
  refine ⟨exists_position_eq source, fun _ _ => before_position_of_lt,
    fun _ => position_of_length_le, fun offset => ?_, fun r offset hstop hle => ?_,
    linesUpTo_pos source⟩
  · have hsize := (linesUpTo_spec source offset).1
    have hpos := linesUpTo_pos source offset
    show (ofSource source).linesUpTo offset - 1 < (ofSource source).starts.size
    omega
  · rw [contains_position hstop hle, ByteRange.contains_iff]

/-- The bytes of `a`, two line feeds, `b` and a line feed: an empty line in the middle and one at
the end. -/
def brokenLines : List UInt8 := [97, 10, 10, 98, 10]

theorem position_exact_brokenLines :
    brokenLines.length = 5 ∧ (ofSource brokenLines).position 5 = ⟨3, 0⟩ ∧
    ((ofSource brokenLines).position 1).before ((ofSource brokenLines).position 2) = true ∧
    (ofSource brokenLines).position 9 = (ofSource brokenLines).position brokenLines.length ∧
    ((ofSource brokenLines).position 9).line < (ofSource brokenLines).lineCount ∧
    ((ofSource brokenLines).span ⟨1, 4⟩).contains ((ofSource brokenLines).position 2) = true ∧
    ¬ ((ofSource brokenLines).span ⟨4, 1⟩).contains ((ofSource brokenLines).position 2) = true := by
  obtain ⟨-, rises, ends, lines, holds, -⟩ := position_exact brokenLines
  exact ⟨rfl, by decide +kernel, rises 1 2 (by decide) (by decide), ends 9 (by decide), lines 9,
    (holds ⟨1, 4⟩ 2 (by decide) (by decide)).2 (by decide),
    mt (holds ⟨4, 1⟩ 2 (by decide) (by decide)).1 (by decide)⟩

end LineTable
end RouteScript
