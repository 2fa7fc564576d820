import RouteScript.Proofs.Grammar.Ahead
/-!
# Where items lie

What is read of a source lies inside the range of the node that it hangs below, down to the tokens.
Where an item is read to the end of what it lies in, as all below the level of blocks are, the next
one begins after it: such items stand in a row, and what hangs below one of them is in order.
-/
namespace RouteScript

namespace Item

variable {x y : Item} {xs ys : List Item} {l : Label} {q r p : ByteRange} {kind : NodeKind}
  {low mid high : Nat}

/-- What stands directly below an item. -/
def children : Item → List Item
  | .bare _ | .leaf _ _ => []
  | .list _ xs => xs
  | .record _ fields => fields.map (·.2)

@[simp] theorem children_bundle (l : Label) (xs : List Item) : (bundle l xs).children = xs := by
  cases xs <;> rfl

@[simp] theorem children_withLabel (l : Label) (x : Item) :
    (x.withLabel l).children = x.children := by
  cases x <;> rfl

theorem children_build (l : Label) (f : NodeId → Item) (p : Payload) :
    (build l f p).children = p.ids.map f := by
  cases p with
  | nothing | scalar _ => rfl
  | children ids => rfl
  | named m => simp [build, children, Payload.ids, NameMap.values, Function.comp_def]

/-- The item has a range inside the given one, and whatever is below it lies so in its own. -/
inductive Lies : ByteRange → Item → Prop
  | intro {q r : ByteRange} {x : Item} : x.label.range = some r → r.Inside q →
      (∀ y ∈ x.children, Lies r y) → Lies q x

theorem Lies.mono (h : Lies q x) (hstart : p.start ≤ q.start) (hstop : q.stop ≤ p.stop) :
    Lies p x := by
  obtain ⟨hrange, hin, hbelow⟩ := h
  exact .intro hrange ⟨Nat.le_trans hstart hin.start_le, hin.valid, Nat.le_trans hin.le_stop hstop⟩
    hbelow

theorem Lies.inside (h : Lies q x) (hq : q.Inside p) : Lies p x := h.mono hq.start_le hq.le_stop

/-- What lies in a range lies in its own. -/
theorem Lies.self (h : Lies q x) : ∃ r, x.label.range = some r ∧ r.Inside q ∧ Lies r x := by
  obtain ⟨hrange, hin, hbelow⟩ := h
  exact ⟨_, hrange, hin, .intro hrange (.refl hin.valid) hbelow⟩

theorem Lies.le (h : Lies q x) : q.start ≤ q.stop := by
  obtain ⟨-, hin, -⟩ := h
  exact Nat.le_trans hin.start_le (Nat.le_trans hin.valid hin.le_stop)

theorem Lies.withRole (h : Lies q x) (role : String) : Lies q (x.withRole role) := by
  obtain ⟨hrange, hin, hbelow⟩ := h
  exact .intro (by rw [Item.withRole, label_withLabel]; exact hrange) hin
    (by rwa [Item.withRole, children_withLabel])

/-- An item with nothing below it. -/
theorem lies_alone (hrange : x.label.range = some r) (hvalid : r.start ≤ r.stop)
    (hbelow : x.children = []) : Lies r x :=
  .intro hrange (.refl hvalid) (by simp [hbelow])

theorem rangeAround_of_filterMap {rest : List ByteRange}
    (h : xs.filterMap (·.label.range) = r :: rest) :
    rangeAround xs = some (rest.foldl ByteRange.join r) := by
  rw [rangeAround, h]

/-- The range around items that lie in a range holds each of them. -/
theorem lies_covered (hne : xs ≠ []) (h : ∀ x ∈ xs, Lies q x) : Lies q (covered kind xs) := by
  have hranges : ∀ r ∈ xs.filterMap (·.label.range), r.Inside q := by
    intro r hr
    obtain ⟨x, hx, hrange⟩ := List.mem_filterMap.1 hr
    obtain ⟨r', hrange', hin, -⟩ := (h x hx).self
    rwa [Option.some.inj (hrange.symm.trans hrange')]
  have hmem : ∀ x ∈ xs, ∃ r ∈ xs.filterMap (·.label.range), Lies r x := by
    intro x hx
    obtain ⟨r, hrange, -, hself⟩ := (h x hx).self
    exact ⟨r, List.mem_filterMap.2 ⟨x, hx, hrange⟩, hself⟩
  cases hall : xs.filterMap (·.label.range) with
  | nil =>
    obtain ⟨x, hx⟩ := List.exists_mem_of_ne_nil xs hne
    obtain ⟨r, hr, -⟩ := hmem x hx
    rw [hall] at hr
    cases hr
  | cons r rest =>
    rw [hall] at hranges hmem
    obtain ⟨hin, hparts⟩ := ByteRange.inside_foldl_join hranges
    refine .intro (by rw [covered, label_bundle, rangeAround_of_filterMap hall]) hin fun x hx => ?_
    rw [covered, children_bundle] at hx
    obtain ⟨r', hr', hself⟩ := hmem x hx
    exact hself.inside (hparts r' hr')

/-- A range that is widened over another item still holds what it held. -/
theorem Lies.over (h : Lies q x) (hy : Lies q y) :
    ∃ r, (x.label.over y.label.range).range = some r ∧
      r.Inside q ∧ (∀ z ∈ x.children, Lies r z) ∧ Lies r y := by
  obtain ⟨hrange, hin, hbelow⟩ := h
  obtain ⟨r', hrange', hin', hself⟩ := hy.self
  rename_i r
  refine ⟨r.join r', ?_, hin.join hin', fun z hz => ?_, ?_⟩
  · rw [hrange', Label.over, Label.widen, hrange]
    rfl
  · exact (hbelow z hz).inside (ByteRange.inside_join_left hin.valid)
  · exact hself.inside (ByteRange.inside_join_right hin'.valid)

theorem Lies.widenOver (h : Lies q x) (hy : Lies q y) : Lies q (x.widenOver y) := by
  obtain ⟨r, hrange, hin, hbelow, -⟩ := h.over hy
  exact .intro (by rw [label_widenOver]; exact hrange) hin
    (by rwa [Item.widenOver, children_withLabel])

/-- One more item below, and the range widened over it. -/
theorem Lies.push (h : Lies q (bundle l xs)) (hy : Lies q y) :
    Lies q (bundle (l.over y.label.range) (xs ++ [y])) := by
  obtain ⟨r, hrange, hin, hbelow, hlast⟩ := h.over hy
  rw [label_bundle] at hrange
  rw [children_bundle] at hbelow
  refine .intro (by rw [label_bundle]; exact hrange) hin ?_
  rw [children_bundle]
  exact List.forall_mem_append.2 ⟨hbelow, List.forall_mem_singleton.2 hlast⟩

/-- A range ends where it is said to, whatever it was known to lie in. -/
theorem Lies.narrow (h : Lies ⟨low, high⟩ x) (hrange : x.label.range = some r)
    (hstop : r.stop ≤ mid) : Lies ⟨low, mid⟩ x := by
  obtain ⟨r', hrange', hin, hself⟩ := h.self
  obtain rfl := Option.some.inj (hrange.symm.trans hrange')
  exact hself.inside ⟨hin.start_le, hin.valid, hstop⟩

/-! ## Items in a row -/

/-- The one item ends before the other begins. -/
def Before (x y : Item) : Prop :=
  ∀ r s, x.label.range = some r → y.label.range = some s → r.stop ≤ s.start

/-- Whatever is below the item stands in lists, and in each of them one item before the next. -/
inductive Ordered : Item → Prop
  | bare {l : Label} : Ordered (.bare l)
  | leaf {l : Label} {v : Scalar} : Ordered (.leaf l v)
  | list {l : Label} {xs : List Item} : xs.Pairwise Before → (∀ x ∈ xs, Ordered x) →
      Ordered (.list l xs)

theorem Ordered.withLabel (h : x.Ordered) (l : Label) : (x.withLabel l).Ordered := by
  cases h with
  | bare => exact .bare
  | leaf => exact .leaf
  | list hbefore hxs => exact .list hbefore hxs

/-- The item lies between the bounds, with everything below it in order. -/
structure Stands (low : Nat) (x : Item) (high : Nat) : Prop where
  lies : Lies ⟨low, high⟩ x
  ordered : x.Ordered

theorem Stands.le (h : Stands low x high) : low ≤ high := h.lies.le

theorem Stands.mono {less more : Nat} (h : Stands low x high) (hlow : less ≤ low)
    (hhigh : high ≤ more) : Stands less x more :=
  ⟨h.lies.mono hlow hhigh, h.ordered⟩

theorem Stands.withRole (h : Stands low x high) (role : String) :
    Stands low (x.withRole role) high :=
  ⟨h.lies.withRole role, h.ordered.withLabel _⟩

theorem Stands.widenOver (h : Stands low x mid) (hy : Stands mid y high) :
    Stands low (x.widenOver y) high :=
  ⟨(h.mono (Nat.le_refl _) hy.le).lies.widenOver (hy.mono h.le (Nat.le_refl _)).lies,
    h.ordered.withLabel _⟩

/-- The items stand between the bounds, each of them before the next. -/
def InRow : Nat → List Item → Nat → Prop
  | low, [], high => low ≤ high
  | low, x :: xs, high => ∃ mid, Stands low x mid ∧ InRow mid xs high

theorem Stands.inRow (h : Stands low x high) : InRow low [x] high := ⟨high, h, Nat.le_refl _⟩

theorem InRow.le : ∀ {low : Nat} {xs : List Item}, InRow low xs high → low ≤ high
  | _, [], h => h
  | _, _ :: _, ⟨_, hx, h⟩ => Nat.le_trans hx.le h.le

theorem InRow.stands : ∀ {low : Nat} {xs : List Item}, InRow low xs high →
    ∀ x ∈ xs, Stands low x high
  | _, [], _ => by simp
  | _, _ :: _, ⟨_, hx, h⟩ => List.forall_mem_cons.2
    ⟨hx.mono (Nat.le_refl _) h.le, fun y hy => (h.stands y hy).mono hx.le (Nat.le_refl _)⟩

theorem InRow.append : ∀ {low : Nat} {xs : List Item}, InRow low xs mid → InRow mid ys high →
    InRow low (xs ++ ys) high
  | _, [], hle, h => by
    cases ys with
    | nil => exact Nat.le_trans hle h
    | cons y ys =>
      obtain ⟨last, hy, h⟩ := h
      exact ⟨last, hy.mono hle (Nat.le_refl _), h⟩
  | _, _ :: _, ⟨last, hx, hxs⟩, h => ⟨last, hx, hxs.append h⟩

/-- Between what lies before a bound and what lies after it. -/
theorem before_of_lies (hx : Lies p x) (hy : Lies q y) (h : p.stop ≤ q.start) :
    x.Before y := by
  intro r s hr hs
  obtain ⟨r', hr', hin, -⟩ := hx.self
  obtain ⟨s', hs', hin', -⟩ := hy.self
  obtain rfl := Option.some.inj (hr.symm.trans hr')
  obtain rfl := Option.some.inj (hs.symm.trans hs')
  exact Nat.le_trans hin.le_stop (Nat.le_trans h hin'.start_le)

theorem InRow.pairwise : ∀ {low : Nat} {xs : List Item}, InRow low xs high → xs.Pairwise Before
  | _, [], _ => .nil
  | _, _ :: _, ⟨_, hx, h⟩ =>
    .cons (fun y hy => before_of_lies hx.lies (h.stands y hy).lies (Nat.le_refl _)) h.pairwise

/-- What has a row of items below it is in order. -/
theorem InRow.ordered (h : InRow low xs high) (l : Label) : (bundle l xs).Ordered := by
  cases xs with
  | nil => exact .bare
  | cons x xs => exact .list h.pairwise fun y hy => (h.stands y hy).ordered

theorem InRow.covered (h : InRow low xs high) (hne : xs ≠ []) (kind : NodeKind) :
    Stands low (covered kind xs) high :=
  ⟨lies_covered hne fun x hx => (h.stands x hx).lies, h.ordered _⟩

end Item

namespace Grammar

open Item

variable {c : Context} {s u after : Stand} {x : Item} {xs : List Item} {f : Reading}
  {t : LocatedToken} {r : ByteRange} {low mid high : Nat}

namespace Reading

/-! ## Single tokens -/

/-- A node that carries a value at most. -/
theorem stands_alone {n : Node} (hr : r.start ≤ r.stop)
    (hn : n.payload = .nothing ∨ ∃ value, n.payload = .scalar value) :
    Stands r.start (n.withRange r).alone r.stop := by
  rcases hn with hn | ⟨value, hn⟩ <;> rw [Node.alone, show (n.withRange r).payload = _ from hn]
  · exact ⟨lies_alone rfl hr rfl, .bare⟩
  · exact ⟨lies_alone rfl hr rfl, .leaf⟩

theorem stands_oneItem? {tokenKind : TokenKind} {node : Token → Node}
    (hnode : ∀ t, (node t).payload = .nothing ∨ ∃ value, (node t).payload = .scalar value)
    (ht : t.range.start ≤ t.range.stop) (hx : oneItem? tokenKind node t = some x) :
    Stands t.range.start x t.range.stop := by
  obtain ⟨-, rfl⟩ := oneItem?_eq_some.1 hx
  exact stands_alone ht (hnode t.token)

theorem stands_numberItem? (ht : t.range.start ≤ t.range.stop) (hx : numberItem? t = some x) :
    Stands t.range.start x t.range.stop := by
  obtain ⟨n, -, -, rfl⟩ := numberItem?_eq_some.1 hx
  exact stands_alone ht (.inr ⟨_, rfl⟩)

theorem stands_fileStarterItem? (ht : t.range.start ≤ t.range.stop)
    (hx : fileStarterItem? t = some x) : Stands t.range.start x t.range.stop := by
  obtain ⟨name, -, -, -, rfl⟩ := fileStarterItem?_eq_some.1 hx
  exact stands_alone ht (.inr ⟨_, rfl⟩)

/-- A variable has the range of its name. -/
theorem stands_coreVariableItem? (ht : t.range.start ≤ t.range.stop)
    (hx : coreVariableItem? t = some x) : Stands t.range.start x t.range.stop := by
  obtain ⟨-, family, name, kind, -, -, rfl⟩ := coreVariableItem?_eq_some.1 hx
  have hname := stands_alone (n := .leaf .identifier (.text name)) ht (.inr ⟨_, rfl⟩)
  exact ⟨.intro rfl (.refl ht) (List.forall_mem_singleton.2 hname.lies), hname.inRow.ordered _⟩

theorem stands_targetItem? (ht : t.range.start ≤ t.range.stop) (hx : targetItem? t = some x) :
    Stands t.range.start x t.range.stop := by
  rcases targetItem?_eq_some.1 hx with hx | ⟨-, hx⟩
  · exact stands_oneItem? (fun _ => .inr ⟨_, rfl⟩) ht hx
  · exact stands_coreVariableItem? ht hx

theorem stands_valueItem? (ht : t.range.start ≤ t.range.stop) (hx : valueItem? t = some x) :
    Stands t.range.start x t.range.stop := by
  rcases valueItem?_eq_some.1 hx with hx | ⟨-, hx | ⟨-, hx⟩⟩
  · exact stands_numberItem? ht hx
  · exact stands_oneItem? (fun _ => .inr ⟨_, rfl⟩) ht hx
  · exact stands_coreVariableItem? ht hx

/-! ## Readings that end where they have read -/

/-- The item stands between `low` and all that is ahead after it. -/
def Placed (c : Context) (low : Nat) (x : Item) (after : Stand) (high : Nat) : Prop :=
  ∃ mid, Stands low x mid ∧ Ahead c mid after.pending high

/-- What is placed lies before the end of all that was ahead. -/
theorem Placed.lies (h : Placed c low x after high) : Lies ⟨low, high⟩ x := by
  obtain ⟨mid, hstands, ha⟩ := h
  exact hstands.lies.mono (Nat.le_refl _) ha.le

/-- The item of a token stands before all that is ahead once the token is read. -/
theorem TakesOne.placed {item? : LocatedToken → Option Item} (hf : TakesOne f item?)
    (hitem : ∀ {t x}, t.range.start ≤ t.range.stop → item? t = some x →
      Stands t.range.start x t.range.stop)
    (hc : c.Closed) (ha : Ahead c low s.pending high) (hx : item? (s.current c) = some x) :
    Placed c low x (s.advance c) high := by
  have hin := ha.current_inside
  refine ⟨(s.current c).range.stop, ?_, ha.advance hc (hf.notEnd _ _ hx)⟩
  exact (hitem hin.valid hx).mono hin.start_le (Nat.le_refl _)

theorem placed_terminator (hc : c.Closed) (ha : Ahead c low s.pending high)
    (hx : terminatorItem? (s.current c) = some x) : Placed c low x (s.advance c) high :=
  takesOne_terminator.placed (stands_oneItem? fun _ => .inl rfl) hc ha hx

theorem placed_fileStarter (hc : c.Closed) (ha : Ahead c low s.pending high)
    (h : fileStarter c s = .found x after) : Placed c low x after high := by
  obtain ⟨hx, rfl⟩ := (takesOne_fileStarter.found ..).1 h
  exact takesOne_fileStarter.placed stands_fileStarterItem? hc ha hx

/-- The roles of the sides are set afterwards, and leave the ranges alone. -/
theorem assigned_eq_covered (left op right : Item) : assigned left op right =
    .covered .assignment [left.withRole "left", op, right.withRole "right"] := by
  simp [assigned, covered, bundle, rangeAround, withRole, List.filterMap_cons]

theorem placed_assignment (hc : c.Closed) (ha : Ahead c low s.pending high)
    (h : assignment c s = .found x after) : Placed c low x after high := by
  obtain ⟨left, op, right, hleft, hop, hright, rfl, rfl⟩ := assignment_eq_found.1 h
  obtain ⟨first, hl, ha⟩ := takesOne_target.placed stands_targetItem? hc ha hleft
  obtain ⟨second, ho, ha⟩ :=
    takesOne_assignOperator.placed (stands_oneItem? fun _ => .inr ⟨_, rfl⟩) hc ha hop
  obtain ⟨last, hr, ha⟩ := takesOne_value.placed stands_valueItem? hc ha hright
  have hrow : InRow low [left.withRole "left", op, right.withRole "right"] last :=
    ⟨_, hl.withRole _, _, ho, (hr.withRole _).inRow⟩
  rw [assigned_eq_covered]
  exact ⟨last, hrow.covered (by simp) _, ha⟩

theorem placed_statement (hc : c.Closed) (ha : Ahead c low s.pending high)
    (h : statement c s = .found x after) : Placed c low x after high := by
  obtain ⟨y, u, z, hy, hz, rfl, rfl⟩ := statement_eq_found.1 h
  obtain ⟨mid, hy, ha⟩ := placed_assignment hc ha hy
  obtain ⟨last, hz, ha⟩ := placed_terminator hc ha hz
  have hrow : InRow low [y, z] last := ⟨mid, hy, hz.inRow⟩
  exact ⟨last, hrow.covered (by simp) _, ha⟩

theorem placed_topLevelAssignment (hc : c.Closed) (ha : Ahead c low s.pending high)
    (h : topLevelAssignment c s = .found x after) : Placed c low x after high := by
  obtain ⟨y, u, hy, ⟨z, hz, rfl, rfl⟩ | ⟨-, rfl, rfl⟩⟩ := topLevelAssignment_eq_found.1 h
  · obtain ⟨mid, hy, ha⟩ := placed_assignment hc ha hy
    obtain ⟨last, hz, ha⟩ := placed_terminator hc ha hz
    exact ⟨last, hy.widenOver hz, ha⟩
  · exact placed_assignment hc ha hy

/-- What a repetition finds stands in a row, if each of its items stands where it is found. -/
theorem Gathered.inRow (h : Gathered f c s xs after)
    (hf : ∀ {low : Nat} {s u : Stand} {x : Item}, x ∈ xs → Ahead c low s.pending high →
      f c s = .found x u → Placed c low x u high) : ∀ {low : Nat}, Ahead c low s.pending high →
        ∃ mid, InRow low xs mid ∧ Ahead c mid after.pending high := by
  induction h with
  | stop => exact fun ha => ⟨_, Nat.le_refl _, ha⟩
  | more hx _ ih =>
    intro low ha
    obtain ⟨mid, hstands, ha⟩ := hf (by simp) ha hx
    obtain ⟨last, hrow, ha⟩ := ih (fun hmem => hf (List.mem_cons_of_mem _ hmem)) ha
    exact ⟨last, ⟨mid, hstands, hrow⟩, ha⟩

theorem Gathered.row_of_statements (h : Gathered statement c s xs after) (hc : c.Closed)
    (ha : Ahead c low s.pending high) : ∃ mid, InRow low xs mid ∧ Ahead c mid after.pending high :=
  h.inRow (fun _ => placed_statement hc) ha

end Reading
end Grammar
end RouteScript
