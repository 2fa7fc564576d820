import Mathlib.Data.List.Infix
import Mathlib.Data.List.TakeWhile
import RouteScript.Token.Scan
/-!
# Gaps

What a scan skips between tokens carries no meaning: white space, closed block comments, and the
rest of a line after two slashes or after a hash sign that starts no directive. `Ignorable` says so
of bytes without regard to how they are read, and the gap at the head of any bytes is ignorable.
-/
namespace RouteScript.Scan

/-- The bytes are all up to the end of their line, where `rest` goes on. -/
def EndsLine (body rest : List UInt8) : Prop :=
  byte '\n' ∉ body ∧ ∀ b ∈ rest.head?, b = byte '\n'

/-- One thing that is skipped, before `rest`. -/
inductive Skipped : List UInt8 → List UInt8 → Prop
  | blanks {bs rest : List UInt8} : bs ≠ [] → (∀ b ∈ bs, isBlank b = true) → Skipped bs rest
  /-- A comment is closed by the first star and slash that follow on what opens it. -/
  | block {body rest : List UInt8} : ¬ [byte '*', byte '/'] <:+: body ++ [byte '*'] →
      Skipped (byte '/' :: byte '*' :: (body ++ [byte '*', byte '/'])) rest
  | line {body rest : List UInt8} : EndsLine body rest →
      Skipped (byte '/' :: byte '/' :: body) rest
  | hash {body rest : List UInt8} : EndsLine body rest → body.head? ≠ some (byte '!') →
      Skipped (byte '#' :: body) rest

/-- Bytes before `rest` that are skipped, one thing after the other. -/
inductive Ignorable : List UInt8 → List UInt8 → Prop
  | nil {rest : List UInt8} : Ignorable [] rest
  | cons {piece gap rest : List UInt8} : Skipped piece (gap ++ rest) → Ignorable gap rest →
      Ignorable (piece ++ gap) rest

variable {bs gap more rest : List UInt8} {b : UInt8} {n : Nat}

theorem Skipped.ignorable (h : Skipped gap rest) : Ignorable gap rest := by
  have : Ignorable (gap ++ []) rest := .cons h .nil
  rwa [List.append_nil] at this

theorem Ignorable.append (h : Ignorable gap (more ++ rest)) (hmore : Ignorable more rest) :
    Ignorable (gap ++ more) rest := by
  generalize hq : more ++ rest = q at h
  induction h with
  | nil => exact hmore
  | cons hpiece _ ih =>
    subst hq
    rw [List.append_assoc]
    refine .cons ?_ (ih rfl)
    rwa [List.append_assoc]

/-! ## Lines and comments -/

theorem endsLine_takeWhile (bs : List UInt8) :
    EndsLine (bs.takeWhile (· ≠ byte '\n')) (bs.dropWhile (· ≠ byte '\n')) := by
  refine ⟨fun h => ?_, fun b hb => ?_⟩
  · simpa using List.mem_takeWhile_imp h
  · have := List.head?_dropWhile_not (· ≠ byte '\n') bs
    rw [Option.mem_def.1 hb] at this
    simpa using this

/-- The rest of a line, and what comes after it. -/
theorem exists_line (bs : List UInt8) :
    ∃ body rest, bs = body ++ rest ∧ lineLength bs = body.length ∧ EndsLine body rest :=
  ⟨_, _, List.takeWhile_append_dropWhile.symm, rfl, endsLine_takeWhile bs⟩

/-- A comment is read up to the first star and slash. -/
theorem exists_comment : ∀ {bs : List UInt8} {n : Nat}, commentLength? bs = some n →
    ∃ body rest, bs = body ++ byte '*' :: byte '/' :: rest ∧ n = body.length + 2 ∧
      ¬ [byte '*', byte '/'] <:+: body ++ [byte '*']
  | [], n, h => by cases h
  | b :: bs, n, h => by
    rw [commentLength?] at h
    split at h
    · rename_i hclose
      obtain ⟨rfl, hslash⟩ := hclose
      obtain ⟨rest, rfl⟩ : ∃ rest, bs = byte '/' :: rest := by
        cases bs with
        | nil => cases hslash
        | cons d rest => exact ⟨rest, by rw [Option.some.inj hslash]⟩
      cases h
      exact ⟨[], rest, rfl, rfl, by decide⟩
    · rename_i hopen
      obtain ⟨m, hm, rfl⟩ := Option.map_eq_some_iff.1 h
      obtain ⟨body, rest, rfl, rfl, hfirst⟩ := exists_comment hm
      refine ⟨b :: body, rest, rfl, rfl, fun hinfix => ?_⟩
      -- two bytes that close the comment stand at its start or further on
      rcases List.infix_cons_iff.1 hinfix with hprefix | hinfix
      · obtain ⟨hstar, hprefix⟩ := List.cons_prefix_cons.1 hprefix
        refine hopen ⟨hstar.symm, ?_⟩
        cases body with
        | nil => exact absurd (List.cons_prefix_cons.1 hprefix).1 (by decide)
        | cons d body => exact congrArg some (List.cons_prefix_cons.1 hprefix).1.symm
      · exact hfirst hinfix

/-! ## The gap at the head -/

/-- The gap at the head of the bytes is ignorable before what comes after it. -/
def Gapped (bs : List UInt8) : Prop :=
  ∃ gap rest, bs = gap ++ rest ∧ gapLength bs = gap.length ∧ Ignorable gap rest

theorem gapped_of_zero (h : gapLength bs = 0) : Gapped bs := ⟨[], bs, rfl, h, .nil⟩

theorem gapped_blank (hb : isBlank b = true) (bs : List UInt8) : Gapped (b :: bs) := by
  refine ⟨b :: bs.takeWhile isBlank, bs.dropWhile isBlank, ?_, ?_, ?_⟩
  · rw [List.cons_append, List.takeWhile_append_dropWhile]
  · simp [gapLength, hb, Nat.add_comm]
  · refine (Skipped.blanks (by simp) ?_).ignorable
    exact List.forall_mem_cons.2 ⟨hb, fun _ => List.mem_takeWhile_imp⟩

theorem gapped_slash (bs : List UInt8) : Gapped (byte '/' :: bs) := by
  have hblank : isBlank (byte '/') = false := by decide
  cases bs with
  | nil => exact gapped_of_zero (by simp [gapLength, hblank])
  | cons d bs =>
    by_cases hstar : d = byte '*'
    · subst hstar
      cases hcomment : commentLength? bs with
      | none => exact gapped_of_zero (by simp [gapLength, hblank, hcomment])
      | some m =>
        obtain ⟨body, rest, rfl, rfl, hfirst⟩ := exists_comment hcomment
        refine ⟨_, rest, ?_, ?_, (Skipped.block hfirst).ignorable⟩
        · simp
        · simp [gapLength, hblank, hcomment]
    by_cases hslash : d = byte '/'
    · subst hslash
      obtain ⟨body, rest, rfl, hlength, hline⟩ := exists_line bs
      refine ⟨_, rest, rfl, ?_, (Skipped.line hline).ignorable⟩
      have hgap : gapLength (byte '/' :: byte '/' :: (body ++ rest)) =
          2 + lineLength (body ++ rest) := by simp [gapLength, hblank, hstar]
      simp only [hgap, hlength, List.length_cons]
      omega
    · exact gapped_of_zero (by simp [gapLength, hblank, hstar, hslash])

theorem gapped_hash (bs : List UInt8) : Gapped (byte '#' :: bs) := by
  have hblank : isBlank (byte '#') = false := by decide
  have hslash : byte '#' ≠ byte '/' := by decide
  cases bs with
  | nil =>
    refine ⟨[byte '#'], [], rfl, ?_, (Skipped.hash ⟨by simp, by simp⟩ (by simp)).ignorable⟩
    simp [gapLength, hblank, hslash]
  | cons d bs =>
    by_cases hfeed : d = byte '\n'
    · -- the line ends right after the hash sign, and the line feed is a blank
      subst hfeed
      have hhash : Skipped [byte '#'] ([byte '\n'] ++ bs) := .hash ⟨by simp, by simp⟩ (by simp)
      have hblanks : ∀ b ∈ [byte '\n'], isBlank b = true := by simp [isBlank]
      have hline : Skipped [byte '\n'] bs := .blanks (by simp) hblanks
      exact ⟨[byte '#'] ++ [byte '\n'], bs, rfl, by simp [gapLength, hblank, hslash],
        .cons hhash hline.ignorable⟩
    by_cases hbang : d = byte '!'
    · subst hbang
      exact gapped_of_zero (by simp [gapLength, hblank, hslash, hfeed])
    · obtain ⟨body, rest, rfl, hlength, hbody, hrest⟩ := exists_line bs
      have hline : EndsLine (d :: body) rest :=
        ⟨by simp [Ne.symm hfeed, hbody], hrest⟩
      refine ⟨byte '#' :: d :: body, rest, rfl, ?_, (Skipped.hash hline ?_).ignorable⟩
      · have hgap : gapLength (byte '#' :: d :: (body ++ rest)) =
            2 + lineLength (body ++ rest) := by
          simp [gapLength, hblank, hslash, hfeed, hbang]
        simp only [hgap, hlength, List.length_cons]
        omega
      · simpa using hbang

theorem gapped (bs : List UInt8) : Gapped bs := by
  cases bs with
  | nil => exact gapped_of_zero rfl
  | cons b bs =>
    by_cases hblank : isBlank b = true
    · exact gapped_blank hblank bs
    by_cases hslash : b = byte '/'
    · exact hslash ▸ gapped_slash bs
    by_cases hhash : b = byte '#'
    · exact hhash ▸ gapped_hash bs
    · exact gapped_of_zero (by simp [gapLength, hblank, hslash, hhash])

end RouteScript.Scan
