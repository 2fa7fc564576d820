import RouteScript.Proofs.Token.Walked
/-!
# The first part of a walk

A walk that stands between two heads has made tokens of the bytes that it passed. Where a head ends
may depend on the bytes after it, so `Passed` keeps those ahead in sight. What a walk makes of all
bytes is what it made of those it passed, and then what it makes of those ahead. A walk that fails
does so at a head, after the first part of a walk.
-/
namespace RouteScript.Scan

/-- A walk passes bytes, with those `ahead` behind them, and comes to stand between two heads. The
two flags say whether a string goes on at a quote where it started, and where it stands. -/
inductive Passed (options : ScanOptions) (ahead : List UInt8) :
    Bool → Nat → List UInt8 → List LocatedToken → Bool → Prop
  | start {joined : Bool} {position : Nat} : Passed options ahead joined position [] [] joined
  | gap {joined joins : Bool} {position : Nat} {b : UInt8} {gap passed : List UInt8}
      {tokens : List LocatedToken} :
      head options joined b (gap ++ (passed ++ ahead)) = .gap (gap.length + 1) →
      Passed options ahead joined (position + (gap.length + 1)) passed tokens joins →
      Passed options ahead joined position (b :: (gap ++ passed)) tokens joins
  | token {joined next joins : Bool} {position : Nat} {b : UInt8} {lexeme passed : List UInt8}
      {t : Token} {tokens : List LocatedToken} :
      head options joined b (lexeme ++ (passed ++ ahead)) = .token t (lexeme.length + 1) next →
      Passed options ahead next (position + (lexeme.length + 1)) passed tokens joins →
      Passed options ahead joined position (b :: (lexeme ++ passed))
        (⟨t, position, position + (lexeme.length + 1)⟩ :: tokens) joins

variable {options : ScanOptions} {joined joins next : Bool} {b : UInt8}
  {bs piece passed more ahead : List UInt8} {t : Token} {u : LocatedToken} {n position : Nat}
  {tokens before after others : List LocatedToken} {e : ScanError}

/-! ## One head -/

theorem walk_piece (piece bs : List UInt8) (position : Nat) :
    walk options joined (position + 1) (piece.length + 1 - 1) (piece ++ bs) =
      walk options joined (position + (piece.length + 1)) 0 bs := by
  rw [Nat.add_sub_cancel, walk_owed _ _ _ (by simp), List.drop_left, Nat.add_assoc,
    Nat.add_comm 1 piece.length]

theorem walk_gap (h : head options joined b (piece ++ bs) = .gap (piece.length + 1))
    (position : Nat) :
    walk options joined position 0 (b :: (piece ++ bs)) =
      walk options joined (position + (piece.length + 1)) 0 bs := by
  simp only [walk, h]
  exact walk_piece piece bs position

theorem walk_token (h : head options joined b (piece ++ bs) = .token t (piece.length + 1) next)
    (position : Nat) :
    walk options joined position 0 (b :: (piece ++ bs)) =
      (walk options next (position + (piece.length + 1)) 0 bs).map
        (⟨t, position, position + (piece.length + 1)⟩ :: ·) := by
  simp only [walk, h]
  rw [walk_piece piece bs position]

theorem walk_fault {cause : ScanError.Cause} (h : head options joined b bs = .fault cause)
    (position : Nat) :
    walk options joined position 0 (b :: bs) = .error ⟨cause, position⟩ := by
  simp only [walk, h]

/-- The bytes of a head, and those after it. -/
theorem exists_piece (hpos : 0 < n) (hle : n ≤ (b :: bs).length) :
    ∃ piece rest, bs = piece ++ rest ∧ n = piece.length + 1 ∧ (b :: bs).drop n = rest := by
  obtain ⟨m, rfl⟩ : ∃ m, n = m + 1 := ⟨n - 1, by omega⟩
  refine ⟨bs.take m, bs.drop m, List.take_append_drop m bs |>.symm, ?_, rfl⟩
  rw [List.length_take_of_le (Nat.le_of_succ_le_succ hle)]

/-- Where a walk stands after a head and the bytes that it passed from there on. -/
theorem add_length_piece (position : Nat) (b : UInt8) (piece passed : List UInt8) :
    position + (piece.length + 1) + passed.length = position + (b :: (piece ++ passed)).length := by
  simp only [List.length_cons, List.length_append]
  omega

/-! ## The tokens that were made -/

/-- A walk goes on from where it stands with what it makes of the bytes ahead. -/
theorem Passed.walk_eq (h : Passed options ahead joined position passed tokens joins) :
    walk options joined position 0 (passed ++ ahead) =
      (walk options joins (position + passed.length) 0 ahead).map (tokens ++ ·) := by
  induction h with
  | @start joined position =>
    rw [List.nil_append]
    cases walk options joined position 0 ahead <;> rfl
  | @gap _ _ position b gap passed tokens hhead _ ih =>
    rw [List.cons_append, List.append_assoc, walk_gap hhead, ih, add_length_piece]
  | @token _ _ _ position b lexeme passed t tokens hhead _ ih =>
    rw [List.cons_append, List.append_assoc, walk_token hhead, ih, add_length_piece]
    cases walk options _ _ 0 ahead <;> rfl

/-- A token by itself. -/
theorem passed_token (h : head options joined b (piece ++ ahead) = .token t (piece.length + 1) next)
    (position : Nat) : Passed options ahead joined position (b :: piece)
      [⟨t, position, position + (piece.length + 1)⟩] next := by
  have hpassed : Passed options ahead joined position (b :: (piece ++ [])) _ next :=
    .token h .start
  rwa [List.append_nil] at hpassed

theorem Passed.trans (h : Passed options (more ++ ahead) joined position passed tokens next)
    (hmore : Passed options ahead next (position + passed.length) more others joins) :
    Passed options ahead joined position (passed ++ more) (tokens ++ others) joins := by
  induction h with
  | start => exact hmore
  | @gap _ _ position b gap passed tokens hhead _ ih =>
    rw [List.cons_append, List.append_assoc]
    rw [← List.append_assoc passed] at hhead
    refine .gap hhead (ih ?_)
    rwa [add_length_piece]
  | @token _ _ _ position b lexeme passed t tokens hhead _ ih =>
    rw [List.cons_append, List.append_assoc]
    rw [← List.append_assoc passed] at hhead
    refine .token hhead (ih ?_)
    rwa [add_length_piece]

/-- The tokens that were made start before the place where the walk stands. -/
theorem Passed.start_lt (h : Passed options ahead joined position passed tokens joins) :
    ∀ t ∈ tokens, t.range.start < position + passed.length := by
  induction h with
  | start => simp
  | gap _ _ ih =>
    intro t ht
    have := ih t ht
    simp only [List.length_cons, List.length_append]
    omega
  | token _ _ ih =>
    refine List.forall_mem_cons.2 ⟨?_, fun t ht => ?_⟩
    · simp only [List.length_cons]
      omega
    · have := ih t ht
      simp only [List.length_cons, List.length_append]
      omega

/-! ## Where a walk comes to -/

/-- Each token of a walk is the head of the bytes at a place to which the walk comes. -/
theorem Walked.exists_passed (h : Walked options joined position bs (before ++ u :: after)) :
    ∃ passed b ahead joins n next, bs = passed ++ b :: ahead ∧
      Passed options (b :: ahead) joined position passed before joins ∧
      head options joins b ahead = .token u.token n next ∧
      u.range.start = position + passed.length ∧
      Walked options joins (position + passed.length) (b :: ahead) (u :: after) := by
  generalize htokens : before ++ u :: after = tokens at h
  induction h generalizing before with
  | done => simp at htokens
  | @gap joined position n b bs tokens hhead _ ih =>
    obtain ⟨-, hpos, hle⟩ := gapLength_of_head hhead
    obtain ⟨gap, rest, rfl, rfl, hrest⟩ := exists_piece hpos hle
    obtain ⟨passed, c, ahead, joins, m, next, hbs, hpassed, hu, hstart, hwalk⟩ := ih htokens
    rw [hrest] at hbs
    subst hbs
    rw [add_length_piece _ b] at hstart hwalk
    exact ⟨b :: (gap ++ passed), c, ahead, joins, m, next, by simp, .gap hhead hpassed, hu, hstart,
      hwalk⟩
  | @token joined next position n b bs t tokens hhead hnext ih =>
    cases before with
    | nil =>
      obtain ⟨rfl, rfl⟩ := List.cons.inj htokens
      exact ⟨[], b, bs, joined, n, next, rfl, .start, hhead, rfl, .token hhead hnext⟩
    | cons v before =>
      obtain ⟨rfl, hrest⟩ := List.cons.inj htokens
      obtain ⟨passed, c, ahead, joins, m, last, hbs, hpassed, hu, hstart, hwalk⟩ := ih hrest
      obtain ⟨-, hpos, hle⟩ := lexeme_of_head hhead
      obtain ⟨lexeme, rest, rfl, rfl, hrest⟩ := exists_piece hpos hle
      rw [hrest] at hbs
      subst hbs
      rw [add_length_piece _ b] at hstart hwalk
      exact ⟨b :: (lexeme ++ passed), c, ahead, joins, m, last, by simp, .token hhead hpassed, hu,
        hstart, hwalk⟩

/-- A walk that fails comes to a head that cannot be read. -/
theorem exists_passed_of_error : ∀ {bs : List UInt8} {joined : Bool} {position : Nat},
    walk options joined position 0 bs = .error e →
      ∃ passed b ahead tokens joins, bs = passed ++ b :: ahead ∧
        Passed options (b :: ahead) joined position passed tokens joins ∧
        head options joins b ahead = .fault e.cause ∧ e.position = position + passed.length
  | [], joined, position, h => by
    rw [walk] at h
    cases h
  | b :: bs, joined, position, h => by
    cases hhead : head options joined b bs with
    | fault cause =>
      rw [walk_fault hhead] at h
      cases h
      exact ⟨[], b, bs, [], joined, rfl, .start, hhead, rfl⟩
    | gap n =>
      obtain ⟨-, hpos, hle⟩ := gapLength_of_head hhead
      obtain ⟨gap, rest, hbs, rfl, -⟩ := exists_piece hpos hle
      have hshort : rest.length < (b :: bs).length := by
        simp only [hbs, List.length_cons, List.length_append]
        omega
      rw [hbs] at hhead h ⊢
      rw [walk_gap hhead] at h
      obtain ⟨passed, c, ahead, tokens, joins, rfl, hpassed, hfault, hplace⟩ :=
        exists_passed_of_error h
      rw [add_length_piece _ b] at hplace
      exact ⟨b :: (gap ++ passed), c, ahead, tokens, joins, by simp, .gap hhead hpassed, hfault,
        hplace⟩
    | token t n next =>
      obtain ⟨-, hpos, hle⟩ := lexeme_of_head hhead
      obtain ⟨lexeme, rest, hbs, rfl, -⟩ := exists_piece hpos hle
      have hshort : rest.length < (b :: bs).length := by
        simp only [hbs, List.length_cons, List.length_append]
        omega
      rw [hbs] at hhead h ⊢
      rw [walk_token hhead] at h
      cases hwalk : walk options next (position + (lexeme.length + 1)) 0 rest with
      | ok _ => rw [hwalk] at h; cases h
      | error _ =>
        rw [hwalk] at h
        cases h
        obtain ⟨passed, c, ahead, tokens, joins, rfl, hpassed, hfault, hplace⟩ :=
          exists_passed_of_error hwalk
        rw [add_length_piece _ b] at hplace
        exact ⟨b :: (lexeme ++ passed), c, ahead, _, joins, by simp, .token hhead hpassed, hfault,
          hplace⟩
termination_by bs => bs.length
decreasing_by all_goals exact hshort

end RouteScript.Scan
