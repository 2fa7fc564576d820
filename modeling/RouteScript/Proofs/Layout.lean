import RouteScript.Proofs.Token.Scanned
import RouteScript.Proofs.Token.Settled
/-!
# Where tokens lie

The scanned tokens of a source are parts of it, one after the other, and all the rest of it is
ignorable. The stream that is made of them keeps their order, and is closed where the source ends.
-/
namespace RouteScript

/-- Ranges in a source of that length, each of them before the next. -/
structure ByteRange.Separate (length : Nat) (ranges : List ByteRange) : Prop where
  bounded : ∀ r ∈ ranges, r.start ≤ r.stop ∧ r.stop ≤ length
  ordered : ranges.Pairwise fun r s => r.stop ≤ s.start

theorem ByteRange.InOrder.separate {low length : Nat} {ranges : List ByteRange}
    (h : InOrder low ranges length) : Separate length ranges :=
  ⟨fun r hr => (h.bounds r hr).2, h.pairwise⟩

/-- How the scanned tokens of a source lie in it, and the stream they become. -/
structure Layout (options : ScanOptions) (source : List UInt8) (scanned : List LocatedToken) :
    Prop where
  nonempty : ∀ t ∈ scanned, t.range.start < t.range.stop
  separate : ByteRange.Separate source.length (scanned.map (·.range))
  /-- What is in no token is in a gap before, between or after them. -/
  covered : ∀ offset < source.length, (∃ t ∈ scanned, t.range.contains offset = true) ∨
    ∃ g ∈ ByteRange.gaps 0 (scanned.map (·.range)) source.length, g.contains offset = true
  ignorable : ∀ g ∈ ByteRange.gaps 0 (scanned.map (·.range)) source.length,
    Scan.Ignorable (source.extract g.start g.stop) (source.drop g.stop)
  stream : ∃ body, tokenStream options source = .ok (body ++ [.endAt source.length]) ∧
    (∀ t ∈ body, t.isEnd = false) ∧
    ByteRange.Separate source.length ((body ++ [.endAt source.length]).map (·.range)) ∧
    ∃ runs : List (List LocatedToken), runs.flatten = scanned ∧
      List.Forall₂ SettlesTo runs body

variable {options : ScanOptions} {source : List UInt8} {scanned : List LocatedToken}

theorem laid_of_scan (h : scan options source = .ok scanned) : Scan.Laid 0 source scanned :=
  Scan.laid_of_walked (scan_eq_ok_iff.1 h)

theorem inOrder_of_scan (h : scan options source = .ok scanned) :
    ByteRange.InOrder 0 (scanned.map (·.range)) source.length := by
  simpa using (laid_of_scan h).inOrder

theorem stream_of_scan (h : scan options source = .ok scanned) :
    ∃ body, tokenStream options source = .ok (body ++ [.endAt source.length]) ∧
      (∀ t ∈ body, t.isEnd = false) ∧
      ByteRange.Separate source.length ((body ++ [.endAt source.length]).map (·.range)) ∧
      ∃ runs : List (List LocatedToken), runs.flatten = scanned ∧
        List.Forall₂ SettlesTo runs body := by
  have hlexeme := (scan_eq_ok_iff.1 h).lexeme
  refine ⟨settle scanned, ?_, ?_, ?_, exists_runs fun t ht => (hlexeme t ht).kind_ne_lineBreak⟩
  · rw [tokenStream, h]
    rfl
  · exact fun t ht => (scanned_settle (fun u hu => (hlexeme u hu).scanned) t ht).isEnd
  · rw [List.map_append]
    exact (inOrder_settle (inOrder_of_scan h)).append_empty.separate

/-- A scan that succeeds accounts for every byte of its source: tokens in order, of one byte at
least, and ignorable gaps. The stream is the settled runs of the tokens and its end. -/
theorem scan_layout (h : scan options source = .ok scanned) : Layout options source scanned where
  nonempty := (laid_of_scan h).nonempty
  separate := (inOrder_of_scan h).separate
  covered offset hoffset := by
    rcases ByteRange.contains_or_gap 0 (scanned.map (·.range)) (Nat.zero_le offset) hoffset with
      ⟨r, hr, hin⟩ | hgap
    · obtain ⟨t, ht, rfl⟩ := List.mem_map.1 hr
      exact .inl ⟨t, ht, hin⟩
    · exact .inr hgap
  ignorable := by
    simpa using (laid_of_scan h).ignorable [] rfl
  stream := stream_of_scan h

/-- Two strings around a comment, then a blank and a hash sign. -/
theorem scan_layout_strings :
    let source : List UInt8 := [34, 97, 34, 47, 42, 42, 47, 34, 98, 34, 32, 35]
    let scanned : List LocatedToken := [⟨.ofText .string "a", 0, 3⟩, ⟨.ofText .string "b", 7, 10⟩]
    scan .default source = .ok scanned ∧ Layout .default source scanned ∧
      tokenStream .default source = .ok [⟨.ofText .string "ab", 0, 10⟩, .endAt 12] :=
  ⟨by decide +kernel, scan_layout (by decide +kernel), by decide +kernel⟩

end RouteScript
