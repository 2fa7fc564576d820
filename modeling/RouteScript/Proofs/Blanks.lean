import RouteScript.Proofs.Token.Laid
import RouteScript.Proofs.Token.Unmoved
/-!
# Blanks between tokens

Blanks in front of a token carry no meaning. What was read before them does not hang on what comes
after, the blanks are a gap or part of one, and the token and all after it are read as before, only
further on in the source.
-/
namespace RouteScript

/-- The range moved on by a distance. -/
def ByteRange.shift (r : ByteRange) (distance : Nat) : ByteRange :=
  ⟨r.start + distance, r.stop + distance⟩

/-- The token where it stands once bytes of that length are put in at `place`. -/
def LocatedToken.makeRoom (place length : Nat) (t : LocatedToken) : LocatedToken :=
  if t.range.start < place then t else { t with range := t.range.shift length }

namespace LocatedToken

variable {place length : Nat} {tokens : List LocatedToken}

theorem map_makeRoom_before (h : ∀ t ∈ tokens, t.range.start < place) :
    tokens.map (makeRoom place length) = tokens :=
  (List.map_congr_left fun t ht => if_pos (h t ht)).trans (List.map_id tokens)

theorem map_makeRoom_after (h : ∀ t ∈ tokens, place ≤ t.range.start) :
    tokens.map (makeRoom place length) =
      tokens.map fun t => { t with range := t.range.shift length } :=
  List.map_congr_left fun t ht => if_neg (Nat.not_lt.2 (h t ht))

end LocatedToken

namespace Scan

variable {options : ScanOptions} {joined joins : Bool} {b : UInt8} {bs blanks : List UInt8}
  {t : Token} {n position : Nat} {tokens : List LocatedToken}

/-- The same bytes are the same tokens wherever they stand. -/
theorem Walked.shift (h : Walked options joined position bs tokens) (distance : Nat) :
    Walked options joined (position + distance) bs
      (tokens.map fun t => { t with range := t.range.shift distance }) := by
  induction h with
  | done => exact .done
  | gap hhead _ ih =>
    rw [Nat.add_right_comm] at ih
    exact .gap hhead ih
  | @token _ _ position n _ _ _ _ hhead _ ih =>
    rw [Nat.add_right_comm] at ih
    rw [List.map_cons, ByteRange.shift, Nat.add_right_comm position n distance]
    exact .token hhead ih

/-- A walk that comes to a token takes blanks in front of it for a gap. -/
theorem Passed.walk_insert {passed ahead : List UInt8} {before : List LocatedToken}
    (h : Passed options ahead joined position passed before joins)
    (hsolid : ∃ b ∈ ahead.head?, isBlank b = false)
    (hblanks : ∀ b ∈ blanks, isBlank b = true) :
    walk options joined position 0 (passed ++ (blanks ++ ahead)) =
      (walk options joins (position + passed.length + blanks.length) 0 ahead).map
        (before ++ ·) := by
  by_cases hne : blanks = []
  · subst hne
    exact h.walk_eq
  · rw [h.walk_detached (detached_blanks hsolid hne hblanks), walk_blanks hblanks]

end Scan

open Scan

variable {options : ScanOptions} {source blanks : List UInt8} {tokens : List LocatedToken}
  {t : LocatedToken}

/-- Blanks put in front of any token of a source leave all tokens what they are: those before stay
where they stand, and that one and those after it move on by the length of the blanks. -/
theorem scan_insert_blanks (hscan : scan options source = .ok tokens) (ht : t ∈ tokens)
    (hblanks : ∀ b ∈ blanks, isBlank b = true) :
    scan options (source.take t.range.start ++ blanks ++ source.drop t.range.start) =
      .ok (tokens.map (·.makeRoom t.range.start blanks.length)) := by
  obtain ⟨before, after, rfl⟩ := List.append_of_mem ht
  obtain ⟨passed, b, ahead, joins, n, next, rfl, hpassed, hhead, hstart, hwalked⟩ :=
    (scan_eq_ok_iff.1 hscan).exists_passed
  have hsolid : ∃ c ∈ (b :: ahead).head?, isBlank c = false := 
    ⟨b, rfl, isBlank_of_head hhead (by simp)⟩
  have hbefore : ∀ u ∈ before, u.range.start < t.range.start := hstart ▸ hpassed.start_lt
  have hafter : ∀ u ∈ t :: after, t.range.start ≤ u.range.start := fun u hu => by
    rw [hstart]
    exact ((laid_of_walked hwalked).inOrder.bounds _ (List.mem_map_of_mem hu)).1
  rw [List.map_append, LocatedToken.map_makeRoom_before hbefore,
    LocatedToken.map_makeRoom_after hafter, hstart, Nat.zero_add, List.take_left, List.drop_left,
    List.append_assoc]
  have hrest := (hwalked.shift blanks.length).walk_eq
  exact (hpassed.walk_insert hsolid hblanks).trans (congrArg (Except.map (before ++ ·)) hrest)

/-- A space and a vertical tab between a slash and a star, before a string that goes on to the
end. -/
theorem scan_insert_blanks_strings :
    let source : List UInt8 := [47, 42, 34, 97, 34, 34, 98]
    let star : LocatedToken := ⟨.ofText .times "*", 1, 2⟩
    let tokens : List LocatedToken := [⟨.ofText .divide "/", 0, 1⟩, star,
      ⟨.ofText .string "a", 2, 5⟩, ⟨.ofText .string "b", 5, 7⟩]
    scan .default source = .ok tokens ∧
      scan .default [47, 32, 11, 42, 34, 97, 34, 34, 98] = .ok [⟨.ofText .divide "/", 0, 1⟩,
        ⟨.ofText .times "*", 3, 4⟩, ⟨.ofText .string "a", 4, 7⟩, ⟨.ofText .string "b", 7, 9⟩] := by
  intro source star tokens
  have hscan : scan .default source = .ok tokens := by decide +kernel
  have hstar : star ∈ tokens := by decide +kernel
  have hblanks : ∀ b ∈ ([32, 11] : List UInt8), isBlank b = true :=
    List.all_eq_true.1 rfl
  exact ⟨hscan, scan_insert_blanks hscan hstar hblanks⟩

end RouteScript
