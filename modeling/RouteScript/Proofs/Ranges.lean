import RouteScript.Proofs.Grammar.Nested
/-!
# The ranges of a parsed tree

Every node of the tree of a source says where in the source it was read. The ranges are nested as
the nodes are, on whatever path a mistake was met and kept.
-/
namespace RouteScript

open Grammar

namespace Tree

variable {t : Tree} {q : ByteRange} {root id child : NodeId}

/-- What lies in a range as a tree of items does so node by node. -/
theorem range_of_within (hs : t.Sound) (hroot : Item.Lies q (t.item root)) (h : t.Within root id) :
    ∃ r, (t.node id).range = some r ∧ r.Inside q ∧
      ∀ child ∈ t.childIds id, Item.Lies r (t.item child) := by
  have hself : ∀ {id : NodeId} {p : ByteRange}, Item.Lies p (t.item id) →
      ∃ r, (t.node id).range = some r ∧ r.Inside p ∧
        ∀ child ∈ t.childIds id, Item.Lies r (t.item child) := by
    intro id p hlies
    obtain ⟨hrange, hin, hbelow⟩ := hlies
    rw [label_item hs] at hrange
    rw [item_eq hs, Item.children_build] at hbelow
    exact ⟨_, hrange, hin, List.forall_mem_map.1 hbelow⟩
  induction h with
  | here => exact hself hroot
  | @under child parent hparent _ ih =>
    obtain ⟨p, -, hp, hbelow⟩ := ih
    obtain ⟨r, hrange, hin, hchildren⟩ := hself (hbelow child ((hs.linked parent child).2 hparent))
    exact ⟨r, hrange, hin.trans hp, hchildren⟩

/-- Below the root, the range of a node lies in that of its parent. -/
theorem range_in_parent (hs : t.Sound) (hroot : Item.Lies q (t.item root)) (h : t.Within root id)
    (hne : root ≠ id) : ∃ parent r p, (t.node id).parent = some parent ∧
      (t.node id).range = some r ∧ (t.node parent).range = some p ∧ r.Inside p := by
  cases h with
  | here => exact absurd rfl hne
  | @under _ parent hparent hwithin =>
    obtain ⟨p, hp, -, hbelow⟩ := range_of_within hs hroot hwithin
    obtain ⟨r, hrange, hin, -⟩ := (hbelow id ((hs.linked parent id).2 hparent)).self
    rw [label_item hs] at hrange
    exact ⟨parent, r, p, hparent, hrange, hp, hin⟩

end Tree

variable {settings : Settings} {source : List UInt8} {t : Tree}

/-- The tree of a source is a sound tree whose root lies in the source. -/
theorem exists_root_of_parse (h : parse settings source = .ok t) :
    ∃ root, t.Sound ∧ t.root = some root ∧ root < t.size ∧
      Item.Lies ⟨0, source.length⟩ (t.item root) := by
  obtain ⟨tokens, htokens, rfl⟩ := parse_eq_ok_iff.1 h
  obtain ⟨root, hsound, hroot, hlt, hitem, -⟩ := parseTokens_spec settings.parse tokens
  refine ⟨root, hsound, hroot, hlt, ?_⟩
  rw [hitem]
  exact Reading.lies_script (closed_ofTokens settings.parse tokens)
    (ahead_of_tokenStream htokens settings.parse)

/-- Whatever the source and the settings, every node of the tree has a range in the source, and each
but the root lies inside the range of its parent. -/
theorem ranges_nested (h : parse settings source = .ok t) :
    (∃ root, t.root = some root ∧ root ∈ t.reachable) ∧
    ∀ id ∈ t.reachable, ∃ r, (t.node id).range = some r ∧
      r.start ≤ r.stop ∧ r.stop ≤ source.length ∧
      (t.root ≠ some id → ∃ parent p, (t.node id).parent = some parent ∧
        (t.node parent).range = some p ∧ p.start ≤ r.start ∧ r.stop ≤ p.stop) := by
  obtain ⟨root, hs, hroot, hlt, hlies⟩ := exists_root_of_parse h
  refine ⟨⟨root, hroot, (Tree.mem_reachable hs hroot hlt).2 .here⟩, fun id hid => ?_⟩
  have hwithin := (Tree.mem_reachable hs hroot hlt).1 hid
  obtain ⟨r, hrange, hin, -⟩ := Tree.range_of_within hs hlies hwithin
  refine ⟨r, hrange, hin.valid, hin.le_stop, fun hne => ?_⟩
  have hne : root ≠ id := fun e => hne (e ▸ hroot)
  obtain ⟨parent, r', p, hparent, hrange', hp, hin'⟩ := Tree.range_in_parent hs hlies hwithin hne
  obtain rfl := Option.some.inj (hrange'.symm.trans hrange)
  exact ⟨parent, p, hparent, hp, hin'.start_le, hin'.le_stop⟩

/-- The bytes of `route[a]`, a brace and `b=1;c`: the block is not closed, and a statement in it
breaks off. -/
def cutShort : List UInt8 := [114, 111, 117, 116, 101, 91, 97, 93, 123, 98, 61, 49, 59, 99]

/-- The tokens of `cutShort`. -/
def cutShortTokens : List LocatedToken :=
  [⟨.ofText .route "route", 0, 5⟩, ⟨.ofText .leftBracket "[", 5, 6⟩,
   ⟨.ofText .identifier "a", 6, 7⟩, ⟨.ofText .rightBracket "]", 7, 8⟩,
   ⟨.ofText .leftBrace "\x7b", 8, 9⟩, ⟨.ofText .identifier "b", 9, 10⟩,
   ⟨.ofText .assign "=", 10, 11⟩, ⟨⟨.integer, .integer 1⟩, 11, 12⟩,
   ⟨.ofText .semicolon ";", 12, 13⟩, ⟨.ofText .identifier "c", 13, 14⟩, .endAt 14]

theorem ranges_nested_cutShort :
    let t := parseTokens .default cutShortTokens
    parse .default cutShort = .ok t ∧ t.errors.length = 2 ∧
      ∀ id ∈ t.reachable, ∃ r, (t.node id).range = some r ∧ r.stop ≤ 14 := by
  have htokens : tokenStream .default cutShort = .ok cutShortTokens := by decide +kernel
  have hparse : parse .default cutShort = .ok (parseTokens .default cutShortTokens) :=
    parse_eq_ok_iff.2 ⟨cutShortTokens, htokens, rfl⟩
  refine ⟨hparse, by decide +kernel, fun id hid => ?_⟩
  obtain ⟨r, hrange, -, hstop, -⟩ := (ranges_nested hparse).2 id hid
  exact ⟨r, hrange, hstop⟩

end RouteScript
