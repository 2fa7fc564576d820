import RouteScript.Proofs.Token.Answered
import RouteScript.Proofs.Token.Unmoved
/-!
# Where a scan fails

The error of a scan points at the first byte that cannot be read: all before it is read without it,
and what stands there is what the error says. An integer that fits is never the reason.
-/
namespace RouteScript

open Scan

variable {options : ScanOptions} {source before rest : List UInt8} {digits : String}
  {e : ScanError} {joined joins : Bool} {position : Nat} {tokens : List LocatedToken}

/-- The error lies at a byte of the source that cannot be read for its cause, and all bytes before
it can. -/
structure ScanError.PointsInto (options : ScanOptions) (source : List UInt8) (e : ScanError) :
    Prop where
  inside : e.position < source.length
  readable : ∃ tokens, scan options (source.take e.position) = .ok tokens
  cause : e.cause.At (source.drop e.position)

theorem pointsInto_of_scan (h : scan options source = .error e) : e.PointsInto options source := by
  obtain ⟨before, b, ahead, tokens, joins, rfl, hpassed, hfault, hplace⟩ := exists_passed_of_error h
  rw [Nat.zero_add] at hplace
  have hsolid : isBlank b = false := isBlank_of_head hfault (by simp)
  refine ⟨?_, ⟨tokens, ?_⟩, ?_⟩
  · simp [hplace]
  · rw [hplace, List.take_left]
    exact hpassed.scan_eq hsolid
  · rw [hplace, List.drop_left]
    exact at_of_fault hfault

/-- A numeral that fits is a head of its own. -/
theorem Scan.Numeral.passed (h : Numeral digits rest)
    (hfits : decimalValue digits ≤ Word64.signedMax) :
    Passed options rest joined position (Text.encode digits)
      [⟨⟨.integer, .integer (decimalValue digits)⟩, position,
        position + (Text.encode digits).length⟩] false := by
  obtain ⟨b, piece, hbytes⟩ := List.exists_cons_of_ne_nil h.encode_ne_nil
  have hb : isDigit b = true := h.isDigit_encode b (by simp [hbytes])
  have hread := h.integer?_eq
  rw [if_pos hfits, hbytes, List.cons_append] at hread
  have hhead : HeadIs options joined b (piece ++ rest)
      (.token ⟨.integer, .integer (decimalValue digits)⟩ (piece.length + 1) false) :=
    .lexeme (fun _ => ne_quote_of_isDigit hb) (gapLength_of_solid (solid_of_isDigit hb) _)
      (by rw [lexeme?, hread]; rfl)
  rw [hbytes]
  exact passed_token hhead.eq position

/-- Every error of a scan points at the first byte that cannot be read. A numeral where the scan
comes to stand makes the integer of its value if that fits, and the scan goes on behind it. -/
theorem scan_errors_point (options : ScanOptions) (source : List UInt8) :
    (∀ e, scan options source = .error e → e.PointsInto options source) ∧
    ∀ before digits rest tokens joins, source = before ++ (Text.encode digits ++ rest) →
      Passed options (Text.encode digits ++ rest) false 0 before tokens joins →
      Numeral digits rest → decimalValue digits ≤ Word64.signedMax →
      scan options source =
        (walk options false (before.length + (Text.encode digits).length) 0 rest).map
          (tokens ++ ⟨⟨.integer, .integer (decimalValue digits)⟩, before.length,
            before.length + (Text.encode digits).length⟩ :: ·) := by
  refine ⟨fun e => pointsInto_of_scan, fun before digits rest tokens joins hsource hpassed hnumeral
    hfits => ?_⟩
  have hread := (hpassed.trans (hnumeral.passed hfits)).walk_eq
  rw [hsource, ← List.append_assoc, scan, hread]
  simp

/-- Zeros in front do not count, and a core variable is not closed. -/
theorem scan_errors_point_zeros :
    let source : List UInt8 := [48, 48, 55, 36, 97, 40]
    let e : ScanError := ⟨.unterminatedVariable, 3⟩
    scan .default source = .error e ∧ e.PointsInto .default source ∧
      scan .default source =
        (walk .default false 3 0 [36, 97, 40]).map (⟨⟨.integer, .integer 7⟩, 0, 3⟩ :: ·) := by
  intro source e
  have hscan : scan .default source = .error e := by decide +kernel
  have hdigits : ∀ c ∈ "007".toList, c.isDigit = true := List.all_eq_true.1 (by decide +kernel)
  have hnumeral : Numeral "007" [36, 97, 40] :=
    ⟨by decide, hdigits, fun b hb => by cases hb; rfl⟩
  obtain ⟨herrors, hnumerals⟩ := scan_errors_point .default source
  exact ⟨hscan, herrors e hscan,
    hnumerals [] "007" [36, 97, 40] [] false (by decide +kernel) .start hnumeral
      (by decide +kernel)⟩

end RouteScript
