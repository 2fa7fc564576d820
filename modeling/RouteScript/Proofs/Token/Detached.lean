import RouteScript.Proofs.Token.Passed
import RouteScript.Proofs.Token.Taken
/-!
# Reading apart from what comes after

Where a head ends depends on what comes after it: a word may go on, two operators may be one, a
comment may be closed further on. Bytes that are cut off, or moved away by blanks, do none of this:
`Detached` says what has to hold of `other` so that a walk passes the same bytes with the same
tokens whether `ahead` or `other` stands behind them.
-/
namespace RouteScript.Scan

/-- What is read before `ahead` is read the same before `other`: there it ends or comes to a blank,
and no quote and no end of a comment stands there unless there was one before. -/
structure Detached (ahead other : List UInt8) : Prop where
  solid : ∃ b ∈ ahead.head?, isBlank b = false
  blank : ∀ b ∈ other.head?, isBlank b = true
  quote : byte '"' ∈ other → byte '"' ∈ ahead
  comment : commentLength? ahead = none → commentLength? other = none

variable {options : ScanOptions} {joined : Bool} {b c : UInt8}
  {bs xs ys name piece more blanks ahead other : List UInt8} {n position : Nat}

/-! ## Blanks -/

/-- The bytes that are blank. -/
def blankBytes : List UInt8 := [byte ' ', byte '\t', byte '\r', byte '\n', 0x0B, 0x0C]

theorem mem_blankBytes (h : isBlank b = true) : b ∈ blankBytes := by
  simpa [isBlank, blankBytes, or_assoc] using h

/-- A class that holds of no blank. -/
theorem not_of_isBlank {p : UInt8 → Bool} (hp : blankBytes.any p = false)
    (h : isBlank b = true) : p b = false := by
  simpa using List.any_eq_false.1 hp b (mem_blankBytes h)

theorem ne_of_isBlank (h : isBlank b = true) (hc : isBlank c = false) : b ≠ c := by
  rintro rfl
  rw [h] at hc
  cases hc

theorem head_blanks (h : ∀ b ∈ blanks, isBlank b = true) : ∀ b ∈ blanks.head?, isBlank b = true :=
  fun b hb => h b (List.mem_of_mem_head? hb)

theorem commentLength?_blanks (h : ∀ b ∈ blanks, isBlank b = true)
    (hbs : commentLength? bs = none) : commentLength? (blanks ++ bs) = none := by
  induction blanks with
  | nil => exact hbs
  | cons b blanks ih =>
    obtain ⟨hb, hblanks⟩ := List.forall_mem_cons.1 h
    have hstar : b ≠ byte '*' := ne_of_isBlank hb (by decide)
    simp [commentLength?, hstar, ih hblanks]

/-- Bytes that start with no blank are detached by blanks before them. -/
theorem detached_blanks (hsolid : ∃ b ∈ bs.head?, isBlank b = false) (hne : blanks ≠ [])
    (h : ∀ b ∈ blanks, isBlank b = true) : Detached bs (blanks ++ bs) where
  solid := hsolid
  blank := by
    rw [List.head?_append_of_ne_nil _ hne]
    exact head_blanks h
  quote hquote := by
    refine (List.mem_append.1 hquote).resolve_left fun hmem => ?_
    exact ne_of_isBlank (h _ hmem) (by decide : isBlank (byte '"') = false) rfl
  comment := commentLength?_blanks h

/-- Bytes that start with no blank are detached by cutting them off. -/
theorem detached_nil (hsolid : ∃ b ∈ bs.head?, isBlank b = false) : Detached bs [] :=
  ⟨hsolid, by simp, by simp, fun _ => rfl⟩

/-- A run of blanks is skipped whichever part of a gap it is. -/
theorem walk_skip (bs : List UInt8) (position : Nat) :
    walk options joined position 0 bs =
      walk options joined (position + (bs.takeWhile isBlank).length) 0 (bs.dropWhile isBlank) := by
  cases bs with
  | nil => rfl
  | cons b bs =>
    by_cases hb : isBlank b = true
    · have hgap : gapLength (b :: bs) = (bs.takeWhile isBlank).length + 1 := by
        simp [gapLength, hb, Nat.add_comm]
      have hquote : (joined && decide (b = byte '"')) = false := by
        simp [ne_of_isBlank hb (by decide : isBlank (byte '"') = false)]
      have hhead : head options joined b (bs.takeWhile isBlank ++ bs.dropWhile isBlank) =
          .gap ((bs.takeWhile isBlank).length + 1) := by
        rw [List.takeWhile_append_dropWhile]
        simp [head, hgap, hquote]
      have hwalk := walk_gap hhead position
      rw [List.takeWhile_append_dropWhile] at hwalk
      simpa [hb] using hwalk
    · simp [hb]

theorem walk_blanks (h : ∀ b ∈ blanks, isBlank b = true) (bs : List UInt8) (position : Nat) :
    walk options joined position 0 (blanks ++ bs) =
      walk options joined (position + blanks.length) 0 bs := by
  rw [walk_skip (blanks ++ bs), walk_skip bs, List.takeWhile_append_of_pos h,
    List.dropWhile_append_of_pos h, List.length_append, Nat.add_assoc]

/-! ## Runs of bytes -/

namespace Detached

/-- A class without blanks that does not go on with `ahead` does not go on with `other`. -/
theorem stops {p : UInt8 → Bool} (h : Detached ahead other) (hp : blankBytes.any p = false)
    (hstop : ∀ b ∈ (more ++ ahead).head?, p b = false) :
    ∀ b ∈ (more ++ other).head?, p b = false := by
  cases more with
  | nil => exact fun b hb => not_of_isBlank hp (h.blank b hb)
  | cons d more => exact hstop

theorem takeWhile {p : UInt8 → Bool} (h : Detached ahead other)
    (hp : blankBytes.any p = false) (hrun : (xs ++ (more ++ ahead)).takeWhile p = xs) :
    (xs ++ (more ++ other)).takeWhile p = xs := by
  obtain ⟨hall, hstop⟩ := stop_of_takeWhile hrun
  exact takeWhile_append_of_stop hall (h.stops hp hstop)

theorem word (h : Detached ahead other) (hword : Scan.word (name ++ (more ++ ahead)) = name) :
    Scan.word (name ++ (more ++ other)) = name := by
  have hname : Scan.word name = name := by
    rw [← hword, word_word]
  cases name with
  | nil =>
    have hstop : ∀ b ∈ (more ++ other).head?, startsWord b = false := by
      refine h.stops (by decide) fun b hb => ?_
      obtain ⟨rest, hrest⟩ := List.head?_eq_some_iff.1 (Option.mem_def.1 hb)
      rw [List.nil_append, hrest] at hword
      by_contra hstart
      simp [Scan.word, hstart] at hword
    rw [List.nil_append]
    cases hbs : more ++ other with
    | nil => rfl
    | cons b bs => simp [Scan.word, hstop b (by simp [hbs])]
  | cons b name =>
    rw [List.cons_append, Scan.word, if_pos (startsWord_of_word hname)] at hword
    exact word_append hname (h.stops (by decide) (stop_of_takeWhile (List.cons.inj hword).2).2)

theorem lineLength (h : Detached ahead other)
    (hline : Scan.lineLength (xs ++ (more ++ ahead)) = xs.length) :
    Scan.lineLength (xs ++ (more ++ other)) = xs.length := by
  obtain ⟨hall, hstop⟩ :=
    stop_of_takeWhile (eq_of_prefix_append (List.takeWhile_prefix _) hline)
  cases more with
  | nil =>
    -- the line would end at a byte that is no blank
    obtain ⟨b, hb, hsolid⟩ := h.solid
    have hfeed : b = byte '\n' := by simpa using hstop b hb
    rw [hfeed] at hsolid
    cases hsolid
  | cons d more =>
    have hline : (xs ++ (d :: more ++ other)).takeWhile (· ≠ byte '\n') = xs :=
      takeWhile_append_of_stop hall hstop
    rw [Scan.lineLength, hline]

end Detached

/-! ## Comments -/

theorem two_le_of_commentLength? (h : commentLength? bs = some n) : 2 ≤ n := by
  obtain ⟨body, rest, -, rfl, -⟩ := exists_comment h
  omega

/-- A comment ends where it ends, whatever comes after it. -/
theorem commentLength?_append : ∀ {xs ys : List UInt8},
    commentLength? (xs ++ ys) = some xs.length → ∀ zs, commentLength? (xs ++ zs) = some xs.length
  | [], ys, h, _ => absurd (two_le_of_commentLength? h) (by simp)
  | b :: xs, ys, h, zs => by
    rw [List.cons_append, commentLength?] at h
    split at h
    · rename_i hclose
      obtain ⟨c, rfl⟩ : ∃ c, xs = [c] := List.length_eq_one_iff.1 (by simpa using h.symm)
      simp_all [commentLength?]
    · rename_i hopen
      obtain ⟨m, hm, hlength⟩ := Option.map_eq_some_iff.1 h
      obtain rfl : m = xs.length := by simpa using hlength
      have hlong := two_le_of_commentLength? hm
      obtain ⟨d, xs, rfl⟩ := List.exists_cons_of_length_pos (by omega : 0 < xs.length)
      have hopen' : ¬(b = byte '*' ∧ (d :: xs ++ zs).head? = some (byte '/')) := hopen
      rw [List.cons_append, commentLength?, if_neg hopen', commentLength?_append hm zs]
      rfl

theorem Detached.commentLength? (h : Detached ahead other) :
    ∀ {xs : List UInt8}, Scan.commentLength? (xs ++ ahead) = none →
      Scan.commentLength? (xs ++ other) = none
  | [], hopen => h.comment hopen
  | b :: xs, hopen => by
    rw [List.cons_append, Scan.commentLength?] at hopen ⊢
    split at hopen
    · cases hopen
    · rename_i hclose
      have hopen' : ¬(b = byte '*' ∧ (xs ++ other).head? = some (byte '/')) := by
        rintro ⟨hstar, hslash⟩
        cases xs with
        | nil => exact ne_of_isBlank (h.blank _ hslash) (by decide : isBlank (byte '/') = false) rfl
        | cons d xs => exact hclose ⟨hstar, hslash⟩
      rw [if_neg hopen', h.commentLength? (by simpa using hopen)]
      rfl

/-! ## Gaps -/

namespace Detached

theorem ahead_ne_nil (h : Detached ahead other) : ahead ≠ [] := by
  rintro rfl
  obtain ⟨b, hb, -⟩ := h.solid
  cases hb

/-- A gap that is no run of blanks stays as it is. -/
theorem gapLength_eq (h : Detached ahead other) (hb : isBlank b = false)
    (hgap : gapLength (b :: (piece ++ (more ++ ahead))) = piece.length + 1) :
    gapLength (b :: (piece ++ (more ++ other))) = piece.length + 1 := by
  cases piece with
  | nil => exact absurd hgap (gapLength_ne_one hb (by simp [h.ahead_ne_nil]))
  | cons c piece =>
    simp only [List.cons_append, List.length_cons] at hgap ⊢
    by_cases hslash : b = byte '/'
    · subst hslash
      by_cases hstar : c = byte '*'
      · subst hstar
        rw [gapLength_comment] at hgap ⊢
        have hread : Scan.commentLength? (piece ++ (more ++ ahead)) = some piece.length := by
          cases hcomment : Scan.commentLength? (piece ++ (more ++ ahead)) with
          | none => simp [hcomment] at hgap
          | some m => simpa [hcomment] using hgap
        rw [commentLength?_append hread]
        rfl
      by_cases hline : c = byte '/'
      · subst hline
        rw [gapLength_line] at hgap ⊢
        rw [h.lineLength (by omega)]
        omega
      · rw [gapLength_slash hstar hline] at hgap
        omega
    by_cases hhash : b = byte '#'
    · subst hhash
      by_cases hfeed : c = byte '\n'
      · subst hfeed
        exact hgap
      by_cases hmark : c = byte '!'
      · subst hmark
        exact hgap
      · rw [gapLength_hash hfeed hmark] at hgap ⊢
        rw [h.lineLength (by omega)]
        omega
    · rw [gapLength_of_solid ⟨hb, hslash, hhash⟩] at hgap
      omega

/-- Where no gap starts before `ahead`, none does before `other`. A hash sign is left out that would
be cut off from the mark of a directive. -/
theorem gapLength_zero (h : Detached ahead other) (hgap : gapLength (b :: (more ++ ahead)) = 0)
    (hhash : b = byte '#' → more ≠ []) : gapLength (b :: (more ++ other)) = 0 := by
  have hb := isBlank_of_gapLength hgap
  by_cases hmark : b = byte '#'
  · subst hmark
    obtain ⟨c, more, rfl⟩ := List.exists_cons_of_ne_nil (hhash rfl)
    obtain rfl := eq_mark_of_gapLength hgap
    exact gapLength_mark _
  by_cases hslash : b = byte '/'
  · subst hslash
    cases more with
    | nil =>
      cases other with
      | nil => rfl
      | cons c other =>
        have hc := h.blank c rfl
        exact gapLength_slash (ne_of_isBlank hc (by decide)) (ne_of_isBlank hc (by decide)) other
    | cons c more =>
      by_cases hstar : c = byte '*'
      · subst hstar
        have hread : Scan.commentLength? (more ++ ahead) = none := by
          cases hcomment : Scan.commentLength? (more ++ ahead) with
          | none => rfl
          | some m => simp [gapLength_comment, hcomment] at hgap
        simp [gapLength_comment, h.commentLength? hread]
      by_cases hline : c = byte '/'
      · subst hline
        rw [List.cons_append, gapLength_line] at hgap
        omega
      · exact gapLength_slash hstar hline _
  · exact gapLength_of_solid ⟨hb, hslash, hmark⟩ _

end Detached

end RouteScript.Scan
