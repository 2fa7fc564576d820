import RouteScript.Proofs.Ranges
import RouteScript.Syntax.Lookup
/-!
# What stands at an offset

The lookup goes down from the root and never back: at each node it takes the first child that leads
to the offset. Where the ranges of children lie in that of their parent and apart from each other,
no other child leads there, and the way down meets all that the walk of the whole tree meets.
-/
namespace RouteScript

open Grammar

/-- Of several lists of which one at most has members, it is enough to find that one. -/
theorem flatMap_eq_of_find? {α β : Type} {p : α → Bool} {f : α → List β} : ∀ {xs : List α},
    (∀ x ∈ xs, p x = false → f x = []) → xs.Pairwise (fun x y => p x = true → p y = false) →
      xs.flatMap f = (xs.find? p).toList.flatMap f
  | [], _, _ => rfl
  | x :: xs, hempty, honce => by
    obtain ⟨hx, hxs⟩ := List.forall_mem_cons.1 hempty
    obtain ⟨hfirst, hrest⟩ := List.pairwise_cons.1 honce
    rw [List.flatMap_cons]
    cases hp : p x with
    | true =>
      have hnone : xs.flatMap f = [] :=
        List.flatMap_eq_nil_iff.2 fun y hy => hxs y hy (hfirst y hy hp)
      rw [List.find?_cons_of_pos hp, hnone, List.append_nil, Option.toList_some,
        List.flatMap_singleton]
    | false =>
      rw [List.find?_cons_of_neg (by simp [hp]), hx hp, List.nil_append]
      exact flatMap_eq_of_find? hxs hrest

namespace Tree

variable {t : Tree} {root id c d : NodeId} {q : ByteRange} {offset bound : Nat}

/-- What a node whose item lies in a range says of itself and its children. -/
theorem children_of_lies (hs : t.Sound) (h : Item.Lies q (t.item id)) :
    ∃ r, (t.node id).range = some r ∧ ∀ c ∈ t.childIds id, Item.Lies r (t.item c) := by
  obtain ⟨r, hrange, -, hchildren⟩ := range_of_within hs h .here
  exact ⟨r, hrange, hchildren⟩

/-- A node in order has all its children in a list, each before the next and in order itself. -/
theorem children_of_ordered (hs : t.Sound) (h : (t.item id).Ordered) :
    t.children id = t.childIds id ∧
      ((t.childIds id).Pairwise fun c d => (t.item c).Before (t.item d)) ∧
      ∀ c ∈ t.childIds id, (t.item c).Ordered := by
  rw [item_eq hs] at h
  rw [children, childIds]
  cases hp : (t.node id).payload with
  | nothing | scalar _ => simp [Payload.ordered, Payload.ids]
  | children ids =>
    rw [hp] at h
    cases h with
    | list hbefore hordered =>
      exact ⟨rfl, List.pairwise_map.1 hbefore, List.forall_mem_map.1 hordered⟩
  | named ids =>
    rw [hp] at h
    cases h

theorem covers_iff {r : ByteRange} (hrange : (t.node id).range = some r) :
    t.covers id offset = true ↔ r.start ≤ offset ∧ offset < r.stop := by
  rw [covers, hrange, Option.any_some, ByteRange.contains_iff]

/-- Where every node has a range, the way goes through a node if that holds the offset. -/
theorem leadsTo_eq_covers (hs : t.Sound) (h : Item.Lies q (t.item id)) :
    t.leadsTo offset id = t.covers id offset := by
  obtain ⟨r, hrange, -⟩ := children_of_lies hs h
  rw [leadsTo, covers, hrange, Option.any_some]

/-- Below a node that does not hold the offset no node does. -/
theorem not_covers_below (hs : t.Sound) (hid : id < t.size) (hlies : Item.Lies q (t.item id))
    (hout : t.covers id offset = false) : ∀ x ∈ t.preorder id, t.covers x offset = false := by
  intro x hx
  obtain ⟨r, hrange, -, hself⟩ := hlies.self
  rw [label_item hs] at hrange
  obtain ⟨r', hrange', hin, -⟩ := range_of_within hs hself ((mem_preorder hs hid).1 hx)
  refine Bool.eq_false_iff.2 fun hx => Bool.eq_false_iff.1 hout ?_
  obtain ⟨hstart, hstop⟩ := (covers_iff hrange').1 hx
  exact (covers_iff hrange).2
    ⟨Nat.le_trans hin.start_le hstart, Nat.lt_of_lt_of_le hstop hin.le_stop⟩

/-- Of two nodes one before the other, only one holds the offset. -/
theorem not_covers_of_before (hs : t.Sound) (hc : Item.Lies q (t.item c))
    (hd : Item.Lies q (t.item d)) (hbefore : (t.item c).Before (t.item d))
    (hcovers : t.covers c offset = true) : t.covers d offset = false := by
  obtain ⟨r, hr, -⟩ := hc.self
  obtain ⟨r', hr', -⟩ := hd.self
  have hle := hbefore r r' hr hr'
  rw [label_item hs] at hr hr'
  obtain ⟨-, hstop⟩ := (covers_iff hr).1 hcovers
  refine Bool.eq_false_iff.2 fun hd => ?_
  obtain ⟨hstart, -⟩ := (covers_iff hr').1 hd
  omega

/-- The way down from a node in order meets what the walk of the node meets at the offset. -/
theorem filter_pathWithin (hs : t.Sound) : ∀ {bound : Nat} {id : NodeId} {q : ByteRange},
    t.Fits bound id → id < t.size → Item.Lies q (t.item id) → (t.item id).Ordered →
      (t.pathWithin offset bound id).filter (t.covers · offset) =
        (t.preorder id).filter (t.covers · offset)
  | 0, _, _, hfits, _, _, _ => absurd hfits.pos (by omega)
  | bound + 1, id, q, hfits, hid, hlies, hordered => by
    obtain ⟨r, -, hchildren⟩ := children_of_lies hs hlies
    obtain ⟨hlist, hbefore, hbelow⟩ := children_of_ordered hs hordered
    have hchild : ∀ c ∈ t.childIds id, (t.pathWithin offset bound c).filter (t.covers · offset) =
        (t.preorder c).filter (t.covers · offset) := fun c hc =>
      filter_pathWithin hs (hfits.child hs hc) (hs.child_lt_size hc) (hchildren c hc) (hbelow c hc)
    have hleads : ∀ c ∈ t.childIds id, t.leadsTo offset c = t.covers c offset := fun c hc =>
      leadsTo_eq_covers hs (hchildren c hc)
    have hwalk : (t.childIds id).flatMap (fun c => (t.preorder c).filter (t.covers · offset)) =
        ((t.childIds id).find? (t.leadsTo offset)).toList.flatMap fun c =>
          (t.preorder c).filter (t.covers · offset) := by
      refine flatMap_eq_of_find? (fun c hc hout => ?_) (hbefore.imp_of_mem ?_)
      · rw [hleads c hc] at hout
        have hnone := not_covers_below hs (hs.child_lt_size hc) (hchildren c hc) hout
        exact List.filter_eq_nil_iff.2 fun x hx => by simp [hnone x hx]
      · intro c d hc hd hbefore hcovers
        rw [hleads c hc] at hcovers
        rw [hleads d hd]
        exact not_covers_of_before hs (hchildren c hc) (hchildren d hd) hbefore hcovers
    rw [pathWithin, preorder_eq hs hid, hlist, List.filter_cons, List.filter_cons,
      List.filter_flatMap, hwalk]
    cases hfind : (t.childIds id).find? (t.leadsTo offset) with
    | none => rfl
    | some c =>
      simp only [Option.toList_some, List.flatMap_singleton,
        hchild c (List.mem_of_find?_eq_some hfind)]

theorem head?_pathWithin : ∀ x ∈ (t.pathWithin offset bound id).head?, x = id := by
  cases bound with
  | zero => simp [pathWithin]
  | succ bound => simp [pathWithin, eq_comm]

/-- Each node on the way down is a child of the one before. -/
theorem isChain_pathWithin (t : Tree) (offset : Nat) : ∀ (bound : Nat) (id : NodeId),
    (t.pathWithin offset bound id).IsChain fun parent child => child ∈ t.children parent
  | 0, _ => .nil
  | bound + 1, id => by
    rw [pathWithin]
    cases hfind : (t.children id).find? (t.leadsTo offset) with
    | none => exact .singleton id
    | some c =>
      refine List.isChain_cons.2 ⟨fun x hx => ?_, isChain_pathWithin t offset bound c⟩
      rw [head?_pathWithin x hx]
      exact List.mem_of_find?_eq_some hfind

/-- From a node that holds the offset on, all nodes on the way down hold it. -/
theorem covers_of_mem_pathWithin (hs : t.Sound) : ∀ {bound : Nat} {id : NodeId} {q : ByteRange},
    Item.Lies q (t.item id) → t.covers id offset = true →
      ∀ x ∈ t.pathWithin offset bound id, t.covers x offset = true
  | 0, _, _, _, _ => by simp [pathWithin]
  | bound + 1, id, q, hlies, hcovers => by
    rw [pathWithin]
    refine List.forall_mem_cons.2 ⟨hcovers, ?_⟩
    cases hfind : (t.children id).find? (t.leadsTo offset) with
    | none => simp
    | some c =>
      obtain ⟨r, -, hchildren⟩ := children_of_lies hs hlies
      have hc := hchildren c (children_subset t id (List.mem_of_find?_eq_some hfind))
      refine covers_of_mem_pathWithin hs hc ?_
      rw [← leadsTo_eq_covers hs hc]
      exact List.find?_some hfind

/-- The lookup answers the way down from the root, or nothing. -/
theorem nodesAt_spec (hs : t.Sound) (hroot : t.root = some root) (hlt : root < t.size)
    (hlies : Item.Lies q (t.item root)) (hordered : (t.item root).Ordered) (offset : Nat) :
    t.nodesAt offset = t.reachable.filter (t.covers · offset) ∧
      (t.nodesAt offset).IsChain fun parent child => child ∈ t.children parent := by
  have hnodes : t.nodesAt offset =
      (t.pathWithin offset t.size root).filter (t.covers · offset) := by
    rw [nodesAt, hroot]
  have hwalk : t.reachable = t.preorder root := by
    rw [reachable, hroot]
    exact subtree_eq_preorder hs hlt
  have hfilter : (t.pathWithin offset t.size root).filter (t.covers · offset) =
      (t.preorder root).filter (t.covers · offset) :=
    filter_pathWithin hs (fits_size hs hlt) hlt hlies hordered
  refine ⟨by rw [hnodes, hwalk, hfilter], ?_⟩
  rw [hnodes]
  cases hcovers : t.covers root offset with
  | true =>
    rw [List.filter_eq_self.2 (covers_of_mem_pathWithin hs hlies hcovers)]
    exact isChain_pathWithin t offset t.size root
  | false =>
    have hnone := not_covers_below hs hlt hlies hcovers
    rw [hfilter, List.filter_eq_nil_iff.2 fun x hx => by simp [hnone x hx]]
    exact .nil

end Tree

variable {settings : Settings} {source : List UInt8} {t : Tree}

/-- Where a source is parsed without a mistake, the lookup answers the nodes whose range holds the
offset, all of them and in the order of the walk, each a child of the one before. -/
theorem nodesAt_exact (h : parse settings source = .ok t) (hclean : t.hasErrors = false)
    (offset : Nat) :
    t.nodesAt offset =
      t.reachable.filter (fun id => (t.node id).range.any (·.contains offset)) ∧
    ((t.nodesAt offset).IsChain fun parent child => child ∈ t.children parent) ∧
    (t.nodesAt offset = [] ↔ ∀ id ∈ t.reachable, ∀ r, (t.node id).range = some r →
      ¬ (r.start ≤ offset ∧ offset < r.stop)) := by
  obtain ⟨tokens, htokens, rfl⟩ := parse_eq_ok_iff.1 h
  obtain ⟨root, hs, hroot, hlt, hitem, -⟩ := parseTokens_spec settings.parse tokens
  have hstands : Item.Stands 0 (readTokens settings.parse tokens).1 source.length :=
    Reading.stands_script (closed_ofTokens settings.parse tokens)
      (ahead_of_tokenStream htokens settings.parse) ((hasErrors_eq_false _ _).1 hclean)
  rw [← hitem] at hstands
  obtain ⟨hnodes, hchain⟩ := Tree.nodesAt_spec hs hroot hlt hstands.lies hstands.ordered offset
  refine ⟨hnodes, hchain, ?_⟩
  rw [hnodes, List.filter_eq_nil_iff]
  constructor
  · exact fun hnone id hid r hrange hin => hnone id hid ((Tree.covers_iff hrange).2 hin)
  · intro hnone id hid hcovers
    obtain ⟨r, hrange, hin⟩ := (Option.any_eq_true _ _).1 hcovers
    exact hnone id hid r hrange (ByteRange.contains_iff.1 hin)

/-- The source `route[1]{$var(a)=2;}`, byte by byte. -/
def variableSource : List UInt8 :=
  [114, 111, 117, 116, 101, 91, 49, 93, 123, 36, 118, 97, 114, 40, 97, 41, 61, 50, 59, 125]

/-- Its tokens, the variable one of them. -/
def variableTokens : List LocatedToken :=
  [⟨.ofText .route "route", 0, 5⟩, ⟨.ofText .leftBracket "[", 5, 6⟩,
   ⟨⟨.integer, .integer 1⟩, 6, 7⟩, ⟨.ofText .rightBracket "]", 7, 8⟩,
   ⟨.ofText .leftBrace "\x7b", 8, 9⟩, ⟨⟨.coreVariable, .coreVariable "var" "a"⟩, 9, 16⟩,
   ⟨.ofText .assign "=", 16, 17⟩, ⟨⟨.integer, .integer 2⟩, 17, 18⟩,
   ⟨.ofText .semicolon ";", 18, 19⟩, ⟨.ofText .rightBrace "\x7d", 19, 20⟩, .endAt 20]

/-- A variable and its name have one range, and the end of the source has one that holds nothing. -/
theorem nodesAt_exact_variable :
    let t := parseTokens .default variableTokens
    parse .default variableSource = .ok t ∧ t.hasErrors = false ∧
      (t.reachable.filter fun id => (t.node id).range.any (·.contains 12)).map t.kind =
        [.root, .topLevel, .route, .block, .statement, .assignment, .scriptVariable,
          .identifier] ∧
      t.nodesAt 12 = t.reachable.filter (fun id => (t.node id).range.any (·.contains 12)) ∧
      t.nodesAt 20 = [] := by
  have htokens : tokenStream .default variableSource = .ok variableTokens := by decide +kernel
  have hparse : parse .default variableSource = .ok (parseTokens .default variableTokens) :=
    parse_eq_ok_iff.2 ⟨variableTokens, htokens, rfl⟩
  have hclean : (parseTokens .default variableTokens).hasErrors = false := by decide +kernel
  exact ⟨hparse, hclean, by decide +kernel, (nodesAt_exact hparse hclean 12).1,
    (nodesAt_exact hparse hclean 20).2.2.2 (by decide +kernel)⟩

/-- With a mistake the lookup may miss nodes: in `route` and a pair of braces, the first brace is
the mistake that there is no name, and begins the block. -/
example :
    let t := parseTokens .default [⟨.ofText .route "route", 0, 5⟩,
      ⟨.ofText .leftBrace "\x7b", 5, 6⟩, ⟨.ofText .rightBrace "\x7d", 6, 7⟩, .endAt 7]
    (t.nodesAt 5).map t.kind = [.root, .topLevel, .route, .error] ∧
      (t.reachable.filter (t.covers · 5)).map t.kind =
        [.root, .topLevel, .route, .error, .block] := by
  decide +kernel

end RouteScript
