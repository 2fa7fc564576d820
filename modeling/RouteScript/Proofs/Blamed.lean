import RouteScript.Proofs.Budget
import RouteScript.Proofs.Grammar.Blame
/-!
# Every mistake is told once, of a token

A parse makes a mistake for each way in which a rule might have gone on, and keeps only some. Those
that it has counted are the ones in its tree, each of them once, and each blames a token of the
stream.
-/
namespace RouteScript

open Grammar

variable {t : Tree} {id : NodeId} {e : Fault}

/-- The tokens of a stream, the one that closes it among them, even if it was not given. -/
def Grammar.closedStream (tokens : List LocatedToken) : List LocatedToken :=
  (splitClosing tokens).1 ++ [(splitClosing tokens).2]

/-- The node of a mistake has its message and its range. -/
theorem Tree.node_of_item_fault (hs : t.Sound) (h : t.item id = e.item) :
    (t.node id).range = some e.range ∧ (t.node id).message? = some e.message := by
  have hlabel : (t.node id).label = e.item.label := by rw [← h, Tree.label_item hs]
  have hkind : (t.node id).kind = .error := congrArg Label.kind hlabel
  have hrange : (t.node id).range = some e.range := congrArg Label.range hlabel
  refine ⟨hrange, ?_⟩
  have hitem : Item.build (t.node id).label t.item (t.node id).payload =
      .leaf ⟨.error, none, some e.range⟩ (.text e.message) := (Tree.item_eq hs id).symm.trans h
  rw [Node.message?, if_pos hkind, Node.text?]
  cases hp : (t.node id).payload with
  | scalar v =>
    rw [hp] at hitem
    obtain ⟨-, rfl⟩ := Item.leaf.inj hitem
    rfl
  | nothing | children | named => rw [hp] at hitem; cases hitem

/-- A parse counts the mistakes in its tree, a walk of the tree meets each of them once, and each
lies at a token of the stream. It says that a name is required, or what was expected in the place of
the token. -/
theorem mistakes_counted_and_blamed (options : ParseOptions) (tokens : List LocatedToken) :
    let t := parseTokens options tokens
    (script (.ofTokens options tokens) (.ofTokens tokens)).2.mistakes = t.errors.length ∧
      t.reachable.Nodup ∧
      ∀ id ∈ t.reachable, t.kind id = .error → ∃ k ∈ closedStream tokens,
        (t.node id).range = some k.range ∧
          ((t.node id).message? = some nameRequired ∨
            ∃ what, (t.node id).message? = some (missingMessage what k.token)) := by
  intro t
  obtain ⟨root, hsound, hroot, hlt, -, hstand⟩ := parseTokens_spec options tokens
  refine ⟨?_, ?_, fun id hid hkind => ?_⟩
  · have hcount := length_reports_parseTokens options tokens
    rw [← hstand] at hcount
    exact hcount.symm.trans (List.length_map ..)
  · rw [Tree.reachable, hroot]
    simp only
    rw [Tree.subtree_eq_preorder hsound hlt]
    exact Tree.nodup_preorder hsound hlt
  · have hblamed : (readTokens options tokens).1.Blamed (.ofTokens options tokens)
        (.ofTokens tokens) :=
      Reading.blamed_script (closed_ofTokens options tokens) (.ofTokens tokens)
    have hpart : t.item id ∈ (readTokens options tokens).1.parts := by
      rw [← map_item_reachable]
      exact List.mem_map_of_mem hid
    obtain ⟨e, hitem, k, hk, hblames⟩ := hblamed _ hpart ((Tree.kind_item hsound id).trans hkind)
    obtain ⟨hrange, hmessage⟩ := Tree.node_of_item_fault hsound hitem
    refine ⟨k, hk, by rw [hrange, hblames.range], ?_⟩
    rcases hblames.message with hname | ⟨what, hwhat⟩
    · exact .inl (by rw [hmessage, hname])
    · exact .inr ⟨what, by rw [hmessage, hwhat]⟩

end RouteScript
