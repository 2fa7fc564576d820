import RouteScript.Proofs.Token.Answered
import RouteScript.Proofs.Token.Unmoved
/-!
# Going on at illegal bytes

A scan that keeps illegal bytes reads what a strict scan reads, and breaks off where that breaks off
for another reason. Where a strict scan ends at an illegal byte it has made the same tokens so far,
makes an illegal token of the byte, and goes on.
-/
namespace RouteScript

namespace Scan

variable {joined joins next : Bool} {b : UInt8} {bs passed ahead : List UInt8} {t : Token}
  {position : Nat} {tokens : List LocatedToken} {options : ScanOptions} {e : ScanError}

/-! ## Heads and walks in step -/

/-- A head that a strict scan can read is the same where illegal bytes are kept. -/
theorem head_keep {h : Head} (hhead : head ⟨false⟩ joined b bs = h)
    (hread : ∀ cause, h ≠ .fault cause) : head ⟨true⟩ joined b bs = h := by
  cases head_eq_iff.1 hhead with
  | goesOn hjoined hquote => exact (HeadIs.goesOn hjoined hquote).eq
  | gap hfresh hgap => exact (HeadIs.gap hfresh hgap).eq
  | lexeme hfresh hgap hlexeme => exact (HeadIs.lexeme hfresh hgap hlexeme).eq
  | kept _ _ _ hkeep => cases hkeep
  | broken _ _ _ | illegal _ _ _ _ => exact absurd rfl (hread _)

theorem Passed.keep (h : Passed ⟨false⟩ ahead joined position passed tokens joins) :
    Passed ⟨true⟩ ahead joined position passed tokens joins := by
  induction h with
  | start => exact .start
  | gap hhead _ ih => exact .gap (head_keep hhead (by simp)) ih
  | token hhead _ ih => exact .token (head_keep hhead (by simp)) ih

theorem Walked.keep (h : Walked ⟨false⟩ joined position bs tokens) :
    Walked ⟨true⟩ joined position bs tokens := by
  induction h with
  | done => exact .done
  | gap hhead _ ih => exact .gap (head_keep hhead (by simp)) ih
  | token hhead _ ih => exact .token (head_keep hhead (by simp)) ih

/-- A token of one byte, and what is made of the rest. -/
theorem walk_byte (h : head options joined b bs = .token t 1 next) (position : Nat) :
    walk options joined position 0 (b :: bs) =
      (walk options next (position + 1) 0 bs).map (⟨t, position, position + 1⟩ :: ·) := by
  simp only [walk, h]

/-- A walk that keeps illegal bytes fails at a lexeme that breaks off. -/
theorem isIllegal_of_walk (h : walk ⟨true⟩ joined position 0 bs = .error e) :
    e.cause.isIllegal = false ∧ position ≤ e.position := by
  obtain ⟨passed, b, ahead, tokens, joins, -, -, hfault, hplace⟩ := exists_passed_of_error h
  refine ⟨?_, by omega⟩
  rcases fault_cases hfault with ⟨hcause, -⟩ | ⟨hkeep, -⟩
  · exact hcause
  · cases hkeep

end Scan

open Scan

/-- What a scan that keeps illegal bytes makes of a source, next to what a strict one does. -/
inductive Recovers (source : List UInt8) :
    Except ScanError (List LocatedToken) → Except ScanError (List LocatedToken) → Prop
  | read {tokens : List LocatedToken} : Recovers source (.ok tokens) (.ok tokens)
  | broken {e : ScanError} : e.cause.isIllegal = false → Recovers source (.error e) (.error e)
  /-- The tokens made before the byte, the byte, and what is made of all after it. -/
  | illegal {b : UInt8} {context : String} {before after : List UInt8} {joins : Bool}
      {read later : List LocatedToken} : source = before ++ b :: after →
      Passed ⟨false⟩ (b :: after) false 0 before read joins → scan ⟨false⟩ before = .ok read →
      Recovers source (.error ⟨.illegalByte b context, before.length⟩)
        (.ok (read ++ ⟨.ofText .illegal (Text.decode [b]), before.length, before.length + 1⟩ ::
          later))
  | brokenLater {b : UInt8} {context : String} {position : Nat} {e : ScanError} :
      e.cause.isIllegal = false → position < e.position →
      Recovers source (.error ⟨.illegalByte b context, position⟩) (.error e)

/-- Where a strict scan faults, one that keeps illegal bytes faults as well, or goes on. -/
theorem recovers_of_error {source : List UInt8} {e : ScanError}
    (hstrict : scan ⟨false⟩ source = .error e) :
    Recovers source (.error e) (scan ⟨true⟩ source) := by
  obtain ⟨before, b, after, read, joins, rfl, hpassed, hfault, hplace⟩ :=
    exists_passed_of_error hstrict
  obtain ⟨cause, position⟩ := e
  obtain rfl : position = before.length := hplace.trans (Nat.zero_add _)
  have hscan : scan ⟨true⟩ (before ++ b :: after) =
      (walk ⟨true⟩ joins before.length 0 (b :: after)).map (read ++ ·) := by
    rw [scan, hpassed.keep.walk_eq, Nat.zero_add]
  rcases fault_cases hfault with ⟨hcause, -, hsame⟩ | ⟨-, -, rfl, hkept⟩
  · rw [hscan, walk_fault (hsame ⟨true⟩)]
    exact .broken hcause
  -- the byte is a token, and what comes after it is read on its own
  rw [hscan, walk_byte hkept]
  cases hlater : walk ⟨true⟩ false (before.length + 1) 0 after with
  | error e =>
    obtain ⟨hcause, hposition⟩ := isIllegal_of_walk hlater
    exact .brokenLater hcause hposition
  | ok later =>
    have hsolid : isBlank b = false := isBlank_of_head hfault (by simp)
    exact .illegal rfl hpassed (hpassed.scan_eq hsolid)

/-- Keeping illegal bytes changes nothing before the first of them, where it goes on, and leaves no
illegal byte as an error. -/
theorem scan_recovers (source : List UInt8) :
    Recovers source (scan ⟨false⟩ source) (scan ⟨true⟩ source) ∧
      ∀ e, scan ⟨true⟩ source = .error e → e.cause.isIllegal = false := by
  refine ⟨?_, fun _ h => (isIllegal_of_walk h).1⟩
  cases hstrict : scan ⟨false⟩ source with
  | ok tokens =>
    rw [scan_eq_ok_iff.2 (scan_eq_ok_iff.1 hstrict).keep]
    exact .read
  | error e => exact recovers_of_error hstrict

/-- A string goes on behind a comment but not behind an illegal byte. -/
example :
    let source : List UInt8 := [34, 97, 34, 47, 42, 42, 47, 34, 98, 34, 64, 34, 99, 34]
    scan ⟨false⟩ source = .error ⟨.illegalByte 64 "@\"c\"", 10⟩ ∧
      scan ⟨true⟩ source = .ok [⟨.ofText .string "a", 0, 3⟩, ⟨.ofText .string "b", 7, 10⟩,
        ⟨.ofText .illegal "@", 10, 11⟩, ⟨.ofText .string "c", 11, 14⟩] := by
  decide +kernel

end RouteScript
