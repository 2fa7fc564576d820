import RouteScript.Proofs.Tree.Edits
/-!
# Depths

A depth is a counter of 32 bits, and nothing keeps it from its end for good: a child that is
replaced keeps the depth it had, so what is hung below it later counts on from there. By how much a
node lies further down than another, so much further does it count (`Counted.of_within`), and that
is less than the size of the store. So an edit that hangs nodes below another takes no depth further
than the store is large beyond that of the other.
-/
namespace RouteScript
namespace Tree

variable {t : Tree} {level : NodeId → Nat} {count : NodeId → UInt32} {base : UInt32}
  {c p x : NodeId} {name : String} {d most : Nat}

/-- Within a node, a counter has gone on by one for each link on the way down. -/
theorem Counted.of_within (hc : t.Counted count) (hl : t.Linked level) (h : t.Within c x) :
    count x = count c + .ofNat (level x - level c) := by
  induction h with
  | here => simp
  | @under x q hq hw ih =>
    have hle := (hw.level_le hl).1
    rw [hc x q hq, ih, hl.rises x q hq, Nat.sub_add_comm hle, UInt32.ofNat_add, UInt32.add_assoc]
    rfl

/-- A counter that is rebased within a node stays below what the new base and the size of the store
come to. -/
theorem Counted.rebased_le (hcount : t.Counted count) (hl : t.Linked level) (hc : c < t.size)
    (hbase : base.toNat + t.size ≤ most + 1) (hx : (count x).toNat ≤ most) :
    (t.rebased count c base x).toNat ≤ most := by
  by_cases hw : t.Within c x
  · have hle := (hw.level_le hl).1
    have hlt := hw.level_lt hl hc
    have hsum : (base + .ofNat (level x - level c)).toNat ≤ base.toNat + (level x - level c) := by
      rw [UInt32.toNat_add, UInt32.toNat_ofNat']
      omega
    rw [rebased_of_within hw, hcount.of_within hl hw, show count c + .ofNat (level x - level c) -
      count c = .ofNat (level x - level c) by grind]
    omega
  · rwa [rebased_of_not_within hw]

/-- Counting on from a depth, and along the longest way down that the store has room for. -/
theorem toNat_succ_add_size_le (hd : (t.depth p).toNat ≤ d) :
    (t.depth p + 1).toNat + t.size ≤ d + t.size + 1 := by
  have hone : (1 : UInt32).toNat = 1 := rfl
  rw [UInt32.toNat_add, hone]
  omega

theorem depth_hangLast_le (hs : t.Sound) (hc : c < t.size) (hp : p < t.size)
    (hok : t.refusalAs? .children p c = none) (hd : (t.depth p).toNat ≤ d)
    (hx : (t.depth x).toNat ≤ d + t.size) : ((t.hangLast p c).depth x).toNat ≤ d + t.size := by
  rw [depth, (hangLast_spec hs hc hp hok).2 x]
  exact hs.counted.rebased_le hs.links hc (toNat_succ_add_size_le hd) hx

theorem depth_hangNamed_le (hs : t.Sound) (hc : c < t.size) (hp : p < t.size)
    (hok : t.refusalAs? .named p c = none) (hd : (t.depth p).toNat ≤ d)
    (hx : (t.depth x).toNat ≤ d + t.size) :
    ((t.hangNamed p name c).depth x).toNat ≤ d + t.size := by
  have hnode : (t.hangNamed p name c).node x = _ := (hangNamed_spec hs hc hp hok).2 x
  rw [depth, hnode]
  exact hs.counted.rebased_le hs.links hc (toNat_succ_add_size_le hd) hx

theorem depth_setRoot_le (hs : t.Sound) (hc : c < t.size) (hx : (t.depth x).toNat ≤ d) :
    ((t.setRoot c).depth x).toNat ≤ d + t.size := by
  rw [depth, (setRoot_spec hs hc).2.2.2 x]
  have hzero : (0 : UInt32).toNat = 0 := rfl
  exact hs.counted.rebased_le hs.links hc (by rw [hzero]; omega) (by omega)

/-- However many nodes are hung below one, its own depth is what they all count on from. -/
theorem depth_attachAll_le : ∀ {ids : List NodeId} {t : Tree}, t.Sound → p < t.size →
    (∀ c ∈ ids, c < t.size) → (t.depth p).toNat ≤ d → (∀ x, (t.depth x).toNat ≤ d + t.size) →
      ∀ x, ((t.attachAll p ids).1.depth x).toNat ≤ d + t.size
  | [], _, _, _, _, _, h => h
  | c :: ids, t, hs, hp, hids, hd, h => by
    rw [Tree.attachAll]
    split
    · exact h
    · rename_i hok
      have hc := hids c (by simp)
      have hspec := hangLast_spec hs hc hp hok
      have hcyc := ((refusalAs?_eq_none hs.links).1 hok).2.2
      have hkeep : (t.hangLast p c).depth p = t.depth p := by
        rw [depth, hspec.2 p, rebased_of_not_within hcyc]
      have hrest : ∀ b ∈ ids, b < (t.hangLast p c).size := fun b hb => by
        rw [size_hangLast]
        exact hids b (List.mem_cons_of_mem _ hb)
      have hnext := depth_attachAll_le hspec.1 (by rwa [size_hangLast]) hrest (by rwa [hkeep])
        fun x => by
          rw [size_hangLast]
          exact depth_hangLast_le hs hc hp hok hd (h x)
      rwa [size_hangLast] at hnext

end Tree
end RouteScript
