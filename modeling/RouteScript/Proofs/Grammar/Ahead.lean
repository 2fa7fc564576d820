import RouteScript.Proofs.Grammar.Sound
import RouteScript.Proofs.Layout
import RouteScript.Proofs.Parsed
/-!
# What is ahead of a parse

A source leaves its parse scanned tokens, one after the other, and the token that closes them. Every
rule goes on at the same tokens or further down, so this stays true of what is still ahead, from the
end of what was read last on.
-/
namespace RouteScript

namespace ByteRange

variable {r s q p : ByteRange} {rs : List ByteRange}

/-- The range is well formed and lies in the other one. -/
structure Inside (r q : ByteRange) : Prop where
  start_le : q.start ≤ r.start
  valid : r.start ≤ r.stop
  le_stop : r.stop ≤ q.stop

theorem Inside.refl (h : r.start ≤ r.stop) : r.Inside r := ⟨Nat.le_refl _, h, Nat.le_refl _⟩

theorem Inside.trans (h : r.Inside q) (k : q.Inside p) : r.Inside p :=
  ⟨Nat.le_trans k.start_le h.start_le, h.valid, Nat.le_trans h.le_stop k.le_stop⟩

theorem inside_join_left (h : r.start ≤ r.stop) : r.Inside (r.join s) :=
  ⟨Nat.min_le_left .., h, Nat.le_max_left ..⟩

theorem inside_join_right (h : s.start ≤ s.stop) : s.Inside (r.join s) :=
  ⟨Nat.min_le_right .., h, Nat.le_max_right ..⟩

theorem Inside.join (h : r.Inside q) (k : s.Inside q) : (r.join s).Inside q where
  start_le := Nat.le_min.2 ⟨h.start_le, k.start_le⟩
  valid := Nat.le_trans (Nat.min_le_left ..) (Nat.le_trans h.valid (Nat.le_max_left ..))
  le_stop := Nat.max_le.2 ⟨h.le_stop, k.le_stop⟩

/-- The range around several ranges lies where all of them lie, and each of them lies in it. -/
theorem inside_foldl_join : ∀ {rs : List ByteRange} {r : ByteRange},
    (∀ s ∈ r :: rs, s.Inside q) → (rs.foldl ByteRange.join r).Inside q ∧
      ∀ s ∈ r :: rs, s.Inside (rs.foldl ByteRange.join r)
  | [], r, h => by
    have hr := h r (by simp)
    exact ⟨hr, List.forall_mem_singleton.2 (.refl hr.valid)⟩
  | t :: rs, r, h => by
    obtain ⟨hr, hrest⟩ := List.forall_mem_cons.1 h
    obtain ⟨ht, hrs⟩ := List.forall_mem_cons.1 hrest
    have hjoined : ∀ s ∈ r.join t :: rs, s.Inside q := List.forall_mem_cons.2 ⟨hr.join ht, hrs⟩
    obtain ⟨hall, hmem⟩ := inside_foldl_join hjoined
    obtain ⟨hjoin, hrs⟩ := List.forall_mem_cons.1 hmem
    refine ⟨hall, List.forall_mem_cons.2 ⟨?_, List.forall_mem_cons.2 ⟨?_, hrs⟩⟩⟩
    · exact (inside_join_left hr.valid).trans hjoin
    · exact (inside_join_right ht.valid).trans hjoin

end ByteRange

namespace Grammar

variable {c : Context} {s : Stand} {low high : Nat} {pending q : List LocatedToken}

/-- The tokens still to read are as a scan makes them, and with the one that closes the stream they
lie one after the other, from `low` to `high`. -/
structure Ahead (c : Context) (low : Nat) (pending : List LocatedToken) (high : Nat) : Prop where
  inOrder : ByteRange.InOrder low ((pending ++ [c.closing]).map (·.range)) high
  scanned : ∀ t ∈ pending, t.token.Scanned
  nonempty : ∀ t ∈ pending, t.range.start < t.range.stop

namespace Ahead

theorem mono {less : Nat} (h : Ahead c low pending high) (hle : less ≤ low) :
    Ahead c less pending high :=
  ⟨h.inOrder.mono hle, h.scanned, h.nonempty⟩

theorem le (h : Ahead c low pending high) : low ≤ high := h.inOrder.le

theorem suffix (h : Ahead c low pending high) (hq : q <:+ pending) : Ahead c low q high := by
  obtain ⟨before, rfl⟩ := hq
  have hinOrder := h.inOrder
  rw [List.append_assoc, List.map_append] at hinOrder
  exact ⟨hinOrder.of_append, fun t ht => h.scanned t (List.mem_append_right before ht),
    fun t ht => h.nonempty t (List.mem_append_right before ht)⟩

/-- The next token, or the one that closes the stream, lies between the bounds. -/
theorem head_inside (h : Ahead c low pending high) :
    (pending.headD c.closing).range.Inside ⟨low, high⟩ := by
  have hmem : (pending.headD c.closing).range ∈ (pending ++ [c.closing]).map (·.range) := by
    cases pending <;> simp
  obtain ⟨hlow, hvalid, hhigh⟩ := h.inOrder.bounds _ hmem
  exact ⟨hlow, hvalid, hhigh⟩

/-- All that is ahead lies behind the start of the next token. -/
theorem from_head (h : Ahead c low pending high) :
    Ahead c (pending.headD c.closing).range.start pending high := by
  refine ⟨?_, h.scanned, h.nonempty⟩
  have hinOrder := h.inOrder
  cases pending with
  | nil => exact ⟨Nat.le_refl _, hinOrder.2⟩
  | cons t rest => exact ⟨Nat.le_refl _, hinOrder.2⟩

theorem current_inside (h : Ahead c low s.pending high) :
    (s.current c).range.Inside ⟨low, high⟩ :=
  h.head_inside

theorem tail {t : LocatedToken} {rest : List LocatedToken} (h : Ahead c low (t :: rest) high) :
    Ahead c t.range.stop rest high :=
  ⟨h.inOrder.2.2, fun u hu => h.scanned u (List.mem_cons_of_mem t hu),
    fun u hu => h.nonempty u (List.mem_cons_of_mem t hu)⟩

/-- What is ahead once the current token is read lies behind its end. -/
theorem advance (hc : c.Closed) (hend : (s.current c).isEnd = false)
    (h : Ahead c low s.pending high) :
    Ahead c (s.current c).range.stop (s.advance c).pending high := by
  rw [(Stand.passes_advance hc hend).pending] at h
  exact h.tail

/-- What comes behind the next token starts behind its start. -/
theorem head_lt {t : LocatedToken} {rest : List LocatedToken} (h : Ahead c low (t :: rest) high)
    (hq : q <:+ rest) : t.range.start < (q.headD c.closing).range.start :=
  Nat.lt_of_lt_of_le (h.nonempty t List.mem_cons_self) (h.tail.suffix hq).head_inside.start_le

end Ahead

/-- All of a source is ahead of its parse. -/
theorem ahead_of_tokenStream {scanOptions : ScanOptions} {source : List UInt8}
    {tokens : List LocatedToken} (h : tokenStream scanOptions source = .ok tokens)
    (options : ParseOptions) :
    Ahead (.ofTokens options tokens) 0 (Stand.ofTokens tokens).pending source.length := by
  obtain ⟨scanned, hscan, rfl⟩ := tokenStream_eq_ok_iff.1 h
  have hlexeme := (scan_eq_ok_iff.1 hscan).lexeme
  have hsplit := splitClosing_endAt (settle scanned) source.length
  refine ⟨?_, ?_, ?_⟩
  · rw [Context.ofTokens, Stand.ofTokens, hsplit, List.map_append]
    exact (inOrder_settle (inOrder_of_scan hscan)).append_empty
  · rw [Stand.ofTokens, hsplit]
    exact scanned_settle fun t ht => (hlexeme t ht).scanned
  · rw [Stand.ofTokens, hsplit]
    exact nonempty_settle (inOrder_of_scan hscan) (laid_of_scan hscan).nonempty

end Grammar
end RouteScript
