import RouteScript.Parse
import RouteScript.Proofs.Grammar.Agree
import RouteScript.Proofs.Tree.Rooted
/-!
# The parsed tree

The item of a parsed tree is what the reading of its tokens says, so what holds of every node of
the tree is what holds of every part of that item.
-/
namespace RouteScript

variable (options : ParseOptions) (tokens : List LocatedToken)

namespace Grammar

/-- Where the parse of the tokens begins. -/
def Stand.ofTokens : Stand := ⟨(splitClosing tokens).1, 0, false⟩

/-- The stream of a source is split before the token that closes it. -/
theorem splitClosing_endAt (body : List LocatedToken) (offset : Nat) :
    splitClosing (body ++ [.endAt offset]) = (body, .endAt offset) := by
  rw [splitClosing, List.getLast?_concat]
  simp only [List.dropLast_concat]
  exact if_pos rfl

theorem pending_ofTokens {body : List LocatedToken} {offset : Nat} :
    (Stand.ofTokens (body ++ [.endAt offset])).pending = body :=
  congrArg Prod.fst (splitClosing_endAt body offset)

/-- What the reading of the tokens comes to. -/
def readTokens : Item × Stand := Reading.script (.ofTokens options tokens) (.ofTokens tokens)

end Grammar

open Grammar

/-- A source has a tree exactly if it can be scanned, the tree of its tokens. -/
theorem parse_eq_ok_iff {settings : Settings} {source : List UInt8} {t : Tree} :
    parse settings source = .ok t ↔ ∃ tokens, tokenStream settings.scan source = .ok tokens ∧
      parseTokens settings.parse tokens = t := by
  rw [parse]
  cases tokenStream settings.scan source with
  | error e =>
    constructor
    · intro h
      cases h
    · rintro ⟨_, h, -⟩
      cases h
  | ok tokens =>
    constructor
    · exact fun h => ⟨tokens, rfl, Except.ok.inj h⟩
    · rintro ⟨_, h, rfl⟩
      rw [Except.ok.inj h]
      rfl

/-- A parse ends where its reading does, in a sound tree with the item of the reading. -/
theorem parseTokens_spec : ∃ root, (parseTokens options tokens).Sound ∧
    (parseTokens options tokens).root = some root ∧ root < (parseTokens options tokens).size ∧
    (parseTokens options tokens).item root = (readTokens options tokens).1 ∧
    (script (.ofTokens options tokens) (.ofTokens tokens)).2.stand =
      (readTokens options tokens).2 := by
  obtain ⟨hb, hst⟩ := script_run (closed_ofTokens options tokens) (ready_ofTokens tokens)
  obtain ⟨hsound, hroot, hsize, -⟩ := Tree.setRoot_spec hb.sound hb.top.lt_size
  exact ⟨_, hsound, hroot, Nat.lt_of_lt_of_eq hb.top.lt_size hsize.symm,
    Tree.item_setRoot hb.sound hb.top, hst⟩

theorem onTop_parseTokens {root : NodeId} (h : (parseTokens options tokens).root = some root) :
    (parseTokens options tokens).OnTop root := by
  obtain ⟨hb, -⟩ := script_run (closed_ofTokens options tokens) (ready_ofTokens tokens)
  obtain ⟨-, hroot, -, -⟩ := Tree.setRoot_spec hb.sound hb.top.lt_size
  obtain rfl := Option.some.inj (h.symm.trans hroot)
  exact Tree.onTop_setRoot hb.sound hb.top.lt_size

/-- Whether a parse of the tokens stops at a mistake. -/
def parseStops : Bool := (script (.ofTokens options tokens) (.ofTokens tokens)).2.stopped

theorem parseStops_eq : parseStops options tokens = (readTokens options tokens).2.stopped := by
  obtain ⟨_, -, -, -, -, hst⟩ := parseTokens_spec options tokens
  exact congrArg Stand.stopped hst

/-- The items of the nodes of a parsed tree are the parts of the item that is read. -/
theorem map_item_reachable :
    (parseTokens options tokens).reachable.map (parseTokens options tokens).item =
      (readTokens options tokens).1.parts := by
  obtain ⟨root, hsound, hroot, hlt, hitem, -⟩ := parseTokens_spec options tokens
  rw [Tree.reachable, hroot]
  simp only
  rw [Tree.subtree_eq_preorder hsound hlt, Tree.map_item_preorder hsound hlt, hitem]

theorem rootItem?_parseTokens :
    (parseTokens options tokens).rootItem? = some (readTokens options tokens).1 := by
  obtain ⟨root, -, hroot, -, hitem, -⟩ := parseTokens_spec options tokens
  rw [Tree.rootItem?, hroot, Option.map_some, hitem]

/-- A parsed tree has no mistake exactly if no part of the item that is read is one. -/
theorem hasErrors_eq_false : (parseTokens options tokens).hasErrors = false ↔
    ∀ x ∈ (readTokens options tokens).1.parts, x.label.kind ≠ .error := by
  obtain ⟨root, hsound, -⟩ := parseTokens_spec options tokens
  rw [← map_item_reachable, List.forall_mem_map]
  generalize parseTokens options tokens = t at hsound
  rw [Tree.hasErrors, Tree.errors]
  simp only [Bool.not_eq_eq_eq_not, Bool.not_false, List.isEmpty_iff, List.filter_eq_nil_iff,
    Node.isError, decide_eq_true_eq, Tree.label_item hsound]
  rfl

end RouteScript
