import RouteScript.Proofs.Parsed
import RouteScript.Render.Outline
/-!
# What an outline shows

The outline of a parsed tree is the entries of its nodes in the order of a walk, each with a line
break behind it, and an entry begins with the columns and the branch of its node: `entry` says them
by the place of the node alone, by its parents and where it stands among their children
(`entries_eq`). What comes behind the branch is shown as it is. A string or the name of a route may
hold a line feed, and so may a mistake that quotes such a string; then the rest of its entry starts
a line of its own, and the lines below it are not those of the nodes any more. A line stands for
each node exactly if nothing that is shown holds a line feed (`drawn_by_lines_iff`).
-/
namespace RouteScript

/-! ## Lines of a text -/

/-- The line feeds of lines are those behind them and those in them. -/
theorem count_join_lines (es : List String) :
    (String.join (es.map (· ++ "\n"))).toList.count '\n' =
      es.length + (String.join es).toList.count '\n' := by
  induction es with
  | nil => rfl
  | cons e es ih =>
    have hbreak : "\n".toList.count '\n' = 1 := by decide
    rw [List.map_cons, String.join_cons, String.join_cons, String.toList_append,
      String.toList_append, String.toList_append, List.count_append, List.count_append,
      List.count_append, ih, hbreak, List.length_cons]
    omega

theorem feed_mem_join {es : List String} :
    '\n' ∈ (String.join es).toList ↔ ∃ e ∈ es, '\n' ∈ e.toList := by
  rw [String.toList_join, List.mem_flatMap]

theorem splitOn_join_lines {es : List String} (h : ∀ e ∈ es, '\n' ∉ e.toList) :
    (String.join (es.map (· ++ "\n"))).toList.splitOn '\n' = es.map String.toList ++ [[]] := by
  induction es with
  | nil => rfl
  | cons e es ih =>
    obtain ⟨he, hes⟩ := List.forall_mem_cons.1 h
    have hbreak : "\n".toList = ['\n'] := by decide
    rw [List.map_cons, String.join_cons, String.toList_append, String.toList_append, hbreak,
      List.append_assoc, List.singleton_append, List.splitOn,
      List.splitOnP_append_cons_of_forall_mem
        (fun c hc => beq_false_of_ne (ne_of_mem_of_not_mem hc he)) _ (beq_self_eq_true _),
      ← List.splitOn, ih hes]
    rfl

/-! ## Children in their order -/

namespace Payload

/-- The children of a payload in its order, each with its name if it is a field. -/
def fields : Payload → List (Option String × NodeId)
  | .children ids => ids.map fun c => (none, c)
  | .named m => m.entries.map fun e => (some e.1, e.2)
  | _ => []

variable {p : Payload} {e : Option String × NodeId}

theorem map_snd_fields (p : Payload) : p.fields.map (·.2) = p.ids := by
  cases p <;> simp [fields, ids, NameMap.values, Function.comp_def]

theorem mem_ids_of_mem_fields (h : e ∈ p.fields) : e.2 ∈ p.ids := by
  rw [← map_snd_fields]
  exact List.mem_map_of_mem h

/-- Where no child stands twice, a child tells which field it is. -/
theorem find?_fields (hp : p.ids.Nodup) (h : e ∈ p.fields) :
    p.fields.find? (·.2 = e.2) = some e := by
  rw [← map_snd_fields] at hp
  have hfound : (p.fields.find? (·.2 = e.2)).isSome :=
    List.find?_isSome.2 ⟨e, h, decide_eq_true rfl⟩
  obtain ⟨d, hd⟩ := Option.isSome_iff_exists.1 hfound
  have hsnd : d.2 = e.2 := by simpa using List.find?_some hd
  rw [hd, List.inj_on_of_nodup_map hp (List.mem_of_find?_eq_some hd) h hsnd]

end Payload

namespace Item

variable {lead : String} {last : Bool} {name : Option String} {x : Item}

/-- The entries of children below the columns `lead`. -/
def rows (lead : String) (f : NodeId → Item) : List (Option String × NodeId) → List String
  | [] => []
  | (name, c) :: cs => (f c).entries lead cs.isEmpty name ++ rows lead f cs

theorem listEntries_map (f : NodeId → Item) : ∀ ids : List NodeId,
    listEntries lead (ids.map f) = rows lead f (ids.map fun c => (none, c))
  | [] => rfl
  | c :: ids => by
    rw [List.map_cons, listEntries, listEntries_map f ids, List.map_cons, rows, List.isEmpty_map,
      List.isEmpty_map]

theorem recordEntries_map (f : NodeId → Item) : ∀ es : List (String × NodeId),
    recordEntries lead (es.map fun e => (e.1, f e.2)) =
      rows lead f (es.map fun e => (some e.1, e.2))
  | [] => rfl
  | e :: es => by
    rw [List.map_cons, recordEntries, recordEntries_map f es, List.map_cons, rows, List.isEmpty_map,
      List.isEmpty_map]

theorem entries_build (l : Label) (f : NodeId → Item) (p : Payload) :
    (build l f p).entries lead last name =
      (build l f p).entry lead last name :: rows (leadBelow lead last) f p.fields := by
  cases p with
  | nothing => rfl
  | scalar _ => rfl
  | children ids => rw [build, entries, listEntries_map]; rfl
  | named m => rw [build, entries, recordEntries_map]; rfl

/-- The last of different children is the one with nothing behind it. -/
theorem rows_eq_flatMap (f : NodeId → Item) : ∀ {cs : List (Option String × NodeId)},
    (cs.map (·.2)).Nodup → rows lead f cs = cs.flatMap fun e =>
      (f e.2).entries lead (decide ((cs.map (·.2)).getLast? = some e.2)) e.1
  | [], _ => rfl
  | [(name, c)], _ => by simp [rows]
  | (name, c) :: d :: cs, h => by
    obtain ⟨hc, hcs⟩ := List.nodup_cons.1 h
    have hlast : (((name, c) :: d :: cs).map (·.2)).getLast? = ((d :: cs).map (·.2)).getLast? :=
      List.getLast?_cons_cons
    have hfirst : ((d :: cs).map (·.2)).getLast? ≠ some c := fun hm => hc (List.mem_of_getLast? hm)
    rw [rows, List.flatMap_cons, rows_eq_flatMap f hcs]
    simp only [hlast, decide_eq_false hfirst, List.isEmpty_cons]

/-! ## Entries -/

/-- The texts that an entry shows beside the kind, its value cut to the width. -/
def shown (name : Option String) (x : Item) : List String :=
  name.toList ++ x.label.role.toList ++
    (x.scalar?.map fun value => truncated outlineWidth value.display).toList

/-- The branch that an entry hangs on. -/
def branch (last : Bool) : String := if last then "└─" else "├─"

/-- What an entry says behind its branch. -/
def caption (name : Option String) (x : Item) : String :=
  (match name with
    | some s => s ++ " = "
    | none => "") ++
  x.label.kind.name ++
  (match x.label.role with
    | some s => " [" ++ s ++ "]"
    | none => "") ++
  (match x.scalar? with
    | some value => ": " ++ truncated outlineWidth value.display
    | none => "")

theorem entry_eq_branch (lead : String) (last : Bool) (name : Option String) (x : Item) :
    x.entry lead last name = lead ++ branch last ++ " " ++ x.caption name := by
  have hbranch : (if last then "└─ " else "├─ ") = branch last ++ " " := by cases last <;> decide
  unfold entry caption
  cases name <;> cases x.label.role <;> cases x.scalar? <;>
    simp only [hbranch, String.append_assoc]

theorem feedless_branch (last : Bool) : '\n' ∉ (branch last).toList := by
  cases last <;> decide

theorem feedless_kindName (kind : NodeKind) : '\n' ∉ kind.name.toList := by
  cases kind <;> decide

/-- A line feed in a caption is one in what it shows. -/
theorem feed_mem_caption :
    '\n' ∈ (x.caption name).toList ↔ ∃ s ∈ x.shown name, '\n' ∈ s.toList := by
  have hkind := feedless_kindName x.label.kind
  unfold caption shown
  cases name <;> cases x.label.role <;> cases x.scalar? <;>
    simp [String.toList_append, hkind]

end Item

namespace Tree

variable {t : Tree} {c id p root : NodeId}

/-! ## The place of an entry -/

/-- Whether the node is the last child of its parent. What hangs nowhere is. -/
def isLast (t : Tree) (id : NodeId) : Bool :=
  match (t.node id).parent with
  | none => true
  | some p => (t.childIds p).getLast? = some id

/-- The name that the node has as a field of its parent. -/
def fieldName? (t : Tree) (id : NodeId) : Option String :=
  (t.node id).parent.bind fun p => ((t.node p).payload.fields.find? (·.2 = id)).bind (·.1)

/-- The two columns that stand below a node. -/
def column (t : Tree) (id : NodeId) : String := if t.isLast id then "  " else "│ "

/-- The columns that an entry starts with: those of the ancestors of its node, from the top. -/
def columns (t : Tree) (id : NodeId) : String :=
  String.join ((t.lineage id).tail.reverse.map t.column)

/-- The branch that the entry of a node hangs on. -/
def branch (t : Tree) (id : NodeId) : String := Item.branch (t.isLast id)

/-- The entry of a node. -/
def entry (t : Tree) (id : NodeId) : String :=
  (t.item id).entry (t.columns id) (t.isLast id) (t.fieldName? id)

/-- What the entry of a node says behind its branch. -/
def caption (t : Tree) (id : NodeId) : String := (t.item id).caption (t.fieldName? id)

/-- The texts that the entry of a node shows beside its kind. -/
def shown (t : Tree) (id : NodeId) : List String := (t.item id).shown (t.fieldName? id)

theorem leadBelow_columns (t : Tree) (id : NodeId) :
    leadBelow (t.columns id) (t.isLast id) = String.join ((t.lineage id).reverse.map t.column) := by
  conv => rhs; rw [lineage_eq_cons]
  rw [List.reverse_cons, List.map_append, String.join_append, List.map_singleton,
    String.join_cons, String.join_nil, String.append_empty]
  rfl

theorem columns_of_parent (hs : t.Sound) (hp : (t.node c).parent = some p) :
    t.columns c = leadBelow (t.columns p) (t.isLast p) := by
  rw [leadBelow_columns, columns, hs.lineage_of_parent hp, List.tail_cons]

theorem length_column (t : Tree) (id : NodeId) : (t.column id).length = 2 := by
  unfold column
  split <;> decide

theorem feedless_column (t : Tree) (id : NodeId) : '\n' ∉ (t.column id).toList := by
  unfold column
  split <;> decide

/-- Two columns for each node above. -/
theorem length_columns (t : Tree) (id : NodeId) : (t.columns id).length = 2 * t.rank id := by
  have hsum : ∀ ps : List NodeId, (String.join (ps.map t.column)).length = 2 * ps.length := by
    intro ps
    induction ps with
    | nil => rfl
    | cons p ps ih =>
      rw [List.map_cons, String.join_cons, String.length_append, length_column, ih,
        List.length_cons]
      omega
  rw [columns, hsum, List.length_reverse, rank]

theorem feedless_columns (t : Tree) (id : NodeId) : '\n' ∉ (t.columns id).toList := by
  rw [columns, feed_mem_join]
  rintro ⟨_, hcolumn, hfeed⟩
  obtain ⟨p, -, rfl⟩ := List.mem_map.1 hcolumn
  exact t.feedless_column p hfeed

/-! ## Entries of a walk -/

theorem fieldName?_of_mem_fields (hs : t.Sound) {e : Option String × NodeId}
    (he : e ∈ (t.node p).payload.fields) : t.fieldName? e.2 = e.1 := by
  have hparent := (hs.linked p e.2).1 (Payload.mem_ids_of_mem_fields he)
  rw [fieldName?, hparent, Option.bind_some, Payload.find?_fields (hs.once p) he, Option.bind_some]

theorem isLast_of_parent (hp : (t.node c).parent = some p) :
    t.isLast c = decide ((t.childIds p).getLast? = some c) := by
  rw [isLast, hp]

/-- The entries of an item are those of the nodes that a walk of its node meets. -/
theorem entries_eq (hs : t.Sound) (htop : t.OnTop root) (h : t.Within root id) :
    (t.item id).entries (t.columns id) (t.isLast id) (t.fieldName? id) =
      (t.preorder id).map t.entry := by
  refine hs.induction (motive := fun x => t.Within root x →
    (t.item x).entries (t.columns x) (t.isLast x) (t.fieldName? x) = (t.preorder x).map t.entry)
    (fun x hlt ih hx => ?_) (h.lt_size htop.stored) h
  have hids : (t.node x).payload.fields.map (·.2) = t.childIds x := Payload.map_snd_fields _
  rw [preorder_eq hs hlt, List.map_cons, List.map_flatMap, item_eq hs, Item.entries_build,
    ← item_eq hs, Item.rows_eq_flatMap t.item (hids ▸ hs.once x), hids]
  conv => rhs; rw [← hids, List.flatMap_map]
  refine congrArg _ (List.flatMap_congr fun e he => ?_)
  have hmem : e.2 ∈ t.childIds x := Payload.mem_ids_of_mem_fields he
  have hparent := (hs.linked x e.2).1 hmem
  have hwithin : t.Within root e.2 := .under hparent hx
  rw [← ih e.2 hmem hwithin, columns_of_parent hs hparent, isLast_of_parent hparent,
     fieldName?_of_mem_fields hs he]

theorem OnTop.columns_eq (h : t.OnTop root) : t.columns root = "" := by
  rw [columns, lineage, lineageWithin_of_free h.free]
  rfl

theorem OnTop.isLast_eq (h : t.OnTop root) : t.isLast root = true := by
  rw [isLast, h.free]

theorem OnTop.fieldName?_eq (h : t.OnTop root) : t.fieldName? root = none := by
  rw [fieldName?, h.free]
  rfl

/-- The outline is the entries of the nodes, a line break behind each. -/
theorem outline_eq (hs : t.Sound) (hroot : t.root = some root) (htop : t.OnTop root) :
    t.outline = String.join ((t.reachable.map t.entry).map (· ++ "\n")) := by
  have hentries := entries_eq hs htop .here
  rw [htop.columns_eq, htop.isLast_eq, htop.fieldName?_eq] at hentries
  rw [outline, rootItem?, reachable, hroot, Option.map_some]
  simp only
  rw [subtree_eq_preorder hs htop.stored, Item.outline, hentries]

theorem entry_eq (t : Tree) (id : NodeId) :
    t.entry id = t.columns id ++ t.branch id ++ " " ++ t.caption id :=
  Item.entry_eq_branch ..

theorem feed_mem_entry :
    '\n' ∈ (t.entry id).toList ↔ ∃ s ∈ t.shown id, '\n' ∈ s.toList := by
  have hbranch : '\n' ∉ (t.branch id).toList := Item.feedless_branch _
  rw [entry_eq, shown, ← Item.feed_mem_caption, ← caption]
  simp [String.toList_append, t.feedless_columns id, hbranch]

theorem prefix_entry (t : Tree) (id : NodeId) :
    (t.columns id ++ t.branch id).toList <+: (t.entry id).toList := by
  rw [entry_eq, String.append_assoc, String.toList_append (t := " " ++ t.caption id)]
  exact List.prefix_append ..

/-! ## A line for each node -/

/-- The outline has a line for each node: as many line feeds as a walk meets nodes, and the line of
a node starts with its columns, two for each node above it, and then its branch. -/
structure DrawnByLines (t : Tree) : Prop where
  feeds : t.outline.toList.count '\n' = t.reachable.length
  begins : ∀ (i : Nat) (id : NodeId), t.reachable[i]? = some id →
    (t.columns id).length = 2 * t.rank id ∧
      ∃ line, (t.outline.toList.splitOn '\n')[i]? = some line ∧
        (t.columns id ++ t.branch id).toList <+: line

/-- Below a root on top, each node has its line exactly if no entry shows a line feed. -/
theorem drawnByLines_iff (hs : t.Sound) (hroot : t.root = some root) (htop : t.OnTop root) :
    t.DrawnByLines ↔ ∀ id ∈ t.reachable, ∀ s ∈ t.shown id, '\n' ∉ s.toList := by
  have hentry : (∀ id ∈ t.reachable, ∀ s ∈ t.shown id, '\n' ∉ s.toList) ↔
      ∀ e ∈ t.reachable.map t.entry, '\n' ∉ e.toList := by
    rw [List.forall_mem_map]
    exact forall₂_congr fun id _ => by rw [feed_mem_entry]; simp
  have hcount := count_join_lines (t.reachable.map t.entry)
  rw [← outline_eq hs hroot htop, List.length_map] at hcount
  rw [hentry]
  constructor
  · intro hdrawn e he hfeed
    have hnone : (String.join (t.reachable.map t.entry)).toList.count '\n' = 0 := by
      have := hdrawn.feeds
      omega
    exact List.count_eq_zero.1 hnone (feed_mem_join.2 ⟨e, he, hfeed⟩)
  · intro hfeedless
    refine ⟨?_, fun i id hid =>
      ⟨t.length_columns id, (t.entry id).toList, ?_, t.prefix_entry id⟩⟩
    · have hnone : '\n' ∉ (String.join (t.reachable.map t.entry)).toList := fun hfeed =>
        let ⟨e, he, hmem⟩ := feed_mem_join.1 hfeed
        hfeedless e he hmem
      rw [hcount, List.count_eq_zero.2 hnone, Nat.add_zero]
    · rw [outline_eq hs hroot htop, splitOn_join_lines hfeedless, List.map_map,
        List.getElem?_append_left (by simpa using (List.getElem?_eq_some_iff.1 hid).1),
        List.getElem?_map, hid]
      rfl

end Tree

variable {settings : Settings} {source : List UInt8} {t : Tree}

/-- The outline of a parsed tree is a row of entries in the order of a walk, each with its columns,
two for each level, its branch and a caption. The levels are those that the depth of a node counts.
Each node has a line of its own exactly if no text in a caption holds a line feed. -/
theorem drawn_by_lines_iff (h : parse settings source = .ok t) :
    t.outline = String.join (t.reachable.map fun id =>
        t.columns id ++ t.branch id ++ " " ++ t.caption id ++ "\n") ∧
      (∀ id ∈ t.reachable, (t.columns id).length = 2 * t.rank id ∧
        t.depth id = .ofNat (t.rank id) ∧
        (t.size ≤ UInt32.size → (t.columns id).length = 2 * (t.depth id : Nat))) ∧
      (t.DrawnByLines ↔ ∀ id ∈ t.reachable, ∀ s ∈ t.shown id, '\n' ∉ s.toList) := by
  obtain ⟨tokens, -, rfl⟩ := parse_eq_ok_iff.1 h
  obtain ⟨root, hs, hroot, -⟩ := parseTokens_spec settings.parse tokens
  have htop := onTop_parseTokens _ _ hroot
  refine ⟨?_, fun id hid => ?_, Tree.drawnByLines_iff hs hroot htop⟩
  · rw [Tree.outline_eq hs hroot htop, List.map_map]
    simp only [Function.comp_def, Tree.entry_eq]
  · have hlength := (parseTokens settings.parse tokens).length_columns id
    have hwithin := (Tree.mem_reachable hs hroot htop.stored).1 hid
    exact ⟨hlength, htop.depth_eq hs hwithin, fun hsize =>
      hlength.trans (by rw [htop.toNat_depth hs hsize hwithin])⟩

/-- The bytes of `x="aaa…"`, with a line feed behind as many letters as are shown. -/
def longString : List UInt8 := [120, 61, 34] ++ List.replicate 30 97 ++ [10, 34]

/-- The tokens of `longString`. -/
def longStringTokens : List LocatedToken :=
  [⟨.ofText .identifier "x", 0, 1⟩, ⟨.ofText .assign "=", 1, 2⟩,
   ⟨.ofText .string "aaaaaaaaaaaaaaaaaaaaaaaaaaaaaa\n", 2, 35⟩, .endAt 35]

theorem drawn_by_lines_iff_longString :
    parse .default longString = .ok (parseTokens .default longStringTokens) ∧
    (parseTokens .default longStringTokens).DrawnByLines := by
  have htokens : tokenStream .default longString = .ok longStringTokens := by decide +kernel
  have hparse : parse .default longString = .ok (parseTokens .default longStringTokens) :=
    parse_eq_ok_iff.2 ⟨longStringTokens, htokens, rfl⟩
  exact ⟨hparse, (drawn_by_lines_iff hparse).2.2.2 (by decide +kernel)⟩

/-- The bytes of `x="a`, a line feed and `b"`. -/
def brokenString : List UInt8 := [120, 61, 34, 97, 10, 98, 34]

/-- The tokens of `brokenString`. -/
def brokenStringTokens : List LocatedToken :=
  [⟨.ofText .identifier "x", 0, 1⟩, ⟨.ofText .assign "=", 1, 2⟩,
   ⟨.ofText .string "a\nb", 2, 7⟩, .endAt 7]

/-- The string is shown with its line feed, so there is a line more than there are nodes. -/
theorem brokenString_not_drawn_by_lines :
    parse .default brokenString = .ok (parseTokens .default brokenStringTokens) ∧
    (parseTokens .default brokenStringTokens).outline.toList.count '\n' = 8 ∧
    (parseTokens .default brokenStringTokens).reachable.length = 7 ∧
    ¬ (parseTokens .default brokenStringTokens).DrawnByLines := by
  have htokens : tokenStream .default brokenString = .ok brokenStringTokens := by decide +kernel
  have hfeeds : (parseTokens .default brokenStringTokens).outline.toList.count '\n' = 8 := by
    decide +kernel
  have hnodes : (parseTokens .default brokenStringTokens).reachable.length = 7 := by decide +kernel
  refine ⟨parse_eq_ok_iff.2 ⟨brokenStringTokens, htokens, rfl⟩, hfeeds, hnodes, fun hdrawn => ?_⟩
  have hsame := hdrawn.feeds
  rw [hfeeds, hnodes] at hsame
  exact absurd hsame (by decide)

end RouteScript
