import Mathlib.Order.Bounds.Defs
import RouteScript.Proofs.Blamed
/-!
# Where a restart lands

A restart goes through the tokens one by one and counts braces on its way. Said of the whole stream,
it moves the cursor to the first of the places where it may go on: at the end of the input, before
a word that opens something new or the brace that closes the block, or behind what closes something.
The token where the mistake was met is never the one it goes on before.
-/
namespace RouteScript.Grammar

variable {inBlock first : Bool} {depth start stop n : Nat} {t closing : LocatedToken}
  {rest pending stream : List LocatedToken}

/-! ## Braces on the way -/

/-- The braces that are open behind a token if `depth` are before it. A brace that closes none of
them makes no difference. -/
def depthBehind (depth : Nat) (t : LocatedToken) : Nat :=
  match t.kind with
  | .leftBrace => depth + 1
  | .rightBrace => depth - 1
  | _ => depth

/-- The braces that are opened from position `start` on and still open at position `stop`. -/
def depthBetween (stream : List LocatedToken) (start stop : Nat) : Nat :=
  ((stream.take stop).drop start).foldl depthBehind 0

/-- The places in a stream where a restart from position `start` may end. -/
inductive Landing (inBlock : Bool) (stream : List LocatedToken) (start : Nat) : Nat → Prop
  | atEnd {stop : Nat} {t : LocatedToken} : start ≤ stop → stream[stop]? = some t →
      t.kind = .endOfInput → Landing inBlock stream start stop
  | beforeWord {stop : Nat} {t : LocatedToken} : start < stop → stream[stop]? = some t →
      t.kind = .route ∨ t.kind = .directive → depthBetween stream start stop = 0 →
      Landing inBlock stream start stop
  | beforeBrace {stop : Nat} {t : LocatedToken} : inBlock = true → start < stop →
      stream[stop]? = some t → t.kind = .rightBrace → depthBetween stream start stop = 0 →
      Landing inBlock stream start stop
  | behindSemicolon {last : Nat} {t : LocatedToken} : start ≤ last → stream[last]? = some t →
      t.kind = .semicolon → depthBetween stream start last = 0 →
      Landing inBlock stream start (last + 1)
  | behindBrace {last : Nat} {t : LocatedToken} : inBlock = false → start ≤ last →
      stream[last]? = some t → t.kind = .rightBrace → depthBetween stream start last = 1 →
      Landing inBlock stream start (last + 1)

/-! ## One token -/

/-- A restart ends before the token. -/
def StopsBefore (inBlock : Bool) (depth : Nat) (first : Bool) (t : LocatedToken) : Prop :=
  t.kind = .endOfInput ∨ depth = 0 ∧ first = false ∧
    (t.kind = .route ∨ t.kind = .directive ∨ inBlock = true ∧ t.kind = .rightBrace)

/-- A restart ends behind the token. -/
def StopsBehind (inBlock : Bool) (depth : Nat) (t : LocatedToken) : Prop :=
  t.kind = .semicolon ∧ depth = 0 ∨ t.kind = .rightBrace ∧ depth = 1 ∧ inBlock = false

/-- What a restart does at a token: it ends before it or behind it, or it goes on with the braces
that are open then. -/
theorem restartFrom_cases (inBlock : Bool) (depth : Nat) (first : Bool) (t : LocatedToken)
    (rest : List LocatedToken) :
    (StopsBefore inBlock depth first t ∧
      restartFrom inBlock depth first (t :: rest) = t :: rest) ∨
    (¬StopsBefore inBlock depth first t ∧ StopsBehind inBlock depth t ∧
      restartFrom inBlock depth first (t :: rest) = rest) ∨
    (¬StopsBefore inBlock depth first t ∧ ¬StopsBehind inBlock depth t ∧
      restartFrom inBlock depth first (t :: rest) =
        restartFrom inBlock (depthBehind depth t) false rest) := by
  cases hkind : t.kind with
  | endOfInput => simp [restartFrom, StopsBefore, hkind]
  | route | directive =>
    by_cases hstop : depth = 0 ∧ first = false
    · simp [restartFrom, StopsBefore, hkind, hstop]
    · simp [restartFrom, StopsBefore, StopsBehind, depthBehind, hkind, hstop]
  | leftBrace => simp [restartFrom, StopsBefore, StopsBehind, depthBehind, hkind]
  | rightBrace =>
    cases depth with
    | zero =>
      by_cases hstop : inBlock = true ∧ first = false
      · simp [restartFrom, StopsBefore, hkind, hstop]
      · simp [restartFrom, StopsBefore, StopsBehind, depthBehind, hkind, hstop, and_comm]
    | succ depth =>
      by_cases hstop : depth = 0 ∧ inBlock = false
      · simp [restartFrom, StopsBefore, StopsBehind, hkind, hstop]
      · simp [restartFrom, StopsBefore, StopsBehind, depthBehind, hkind, hstop]
  | semicolon =>
    by_cases hstop : depth = 0
    · simp [restartFrom, StopsBefore, StopsBehind, hkind, hstop]
    · simp [restartFrom, StopsBefore, StopsBehind, depthBehind, hkind, hstop]
  | _ => simp [restartFrom, StopsBefore, StopsBehind, depthBehind, hkind]

/-! ## From where it begins -/

/-- A restart with `depth` braces open may end when it has skipped `n` tokens. -/
def LandsAfter (inBlock : Bool) (depth : Nat) (first : Bool) (stream : List LocatedToken)
    (n : Nat) : Prop :=
  (∃ t, stream[n]? = some t ∧
    StopsBefore inBlock ((stream.take n).foldl depthBehind depth) (first && n = 0) t) ∨
  ∃ last t, n = last + 1 ∧ stream[last]? = some t ∧
    StopsBehind inBlock ((stream.take last).foldl depthBehind depth) t

theorem landsAfter_zero : LandsAfter inBlock depth first (t :: rest) 0 ↔
    StopsBefore inBlock depth first t := by
  simp [LandsAfter]

theorem landsAfter_succ : LandsAfter inBlock depth first (t :: rest) (n + 1) ↔
    n = 0 ∧ StopsBehind inBlock depth t ∨
      LandsAfter inBlock (depthBehind depth t) false rest n := by
  cases n with
  | zero => simp [LandsAfter, or_comm]
  | succ n => simp [LandsAfter]

/-- A restart skips the least number of tokens after which it may end. -/
theorem restartFrom_eq_drop (inBlock : Bool) (hclosing : closing.kind = .endOfInput) :
    ∀ (pending : List LocatedToken) (depth : Nat) (first : Bool), ∃ n ≤ pending.length,
      IsLeast {n | LandsAfter inBlock depth first (pending ++ [closing]) n} n ∧
        restartFrom inBlock depth first pending = pending.drop n
  | [], depth, first =>
    ⟨0, Nat.le_refl _, ⟨landsAfter_zero.2 (.inl hclosing), fun _ _ => Nat.zero_le _⟩, rfl⟩
  | t :: rest, depth, first => by
    have pos : ¬StopsBefore inBlock depth first t → ∀ n,
        LandsAfter inBlock depth first (t :: (rest ++ [closing])) n → ∃ m, n = m + 1 := by
      intro hbefore n hn
      cases n with
      | zero => exact absurd (landsAfter_zero.1 hn) hbefore
      | succ m => exact ⟨m, rfl⟩
    rcases restartFrom_cases inBlock depth first t rest with
      ⟨hbefore, heq⟩ | ⟨hbefore, hbehind, heq⟩ | ⟨hbefore, hbehind, heq⟩
    · exact ⟨0, Nat.zero_le _, ⟨landsAfter_zero.2 hbefore, fun _ _ => Nat.zero_le _⟩, heq⟩
    · refine ⟨1, by simp, ⟨landsAfter_succ.2 (.inl ⟨rfl, hbehind⟩), fun n hn => ?_⟩, heq⟩
      obtain ⟨m, rfl⟩ := pos hbefore n hn
      exact Nat.succ_le_succ (Nat.zero_le m)
    · obtain ⟨n, hle, ⟨hlands, hleast⟩, hrest⟩ :=
        restartFrom_eq_drop inBlock hclosing rest (depthBehind depth t) false
      refine ⟨n + 1, Nat.succ_le_succ hle, ⟨landsAfter_succ.2 (.inr hlands), fun k hk => ?_⟩,
        heq.trans hrest⟩
      obtain ⟨m, rfl⟩ := pos hbefore k hk
      rcases landsAfter_succ.1 hk with ⟨-, h⟩ | h
      · exact absurd h hbehind
      · exact Nat.succ_le_succ (hleast h)

/-! ## In the whole stream -/

theorem Landing.start_le (h : Landing inBlock stream start stop) : start ≤ stop := by
  cases h <;> omega

theorem depthBetween_add (stream : List LocatedToken) (start n : Nat) :
    depthBetween stream start (start + n) =
      ((stream.drop start).take n).foldl depthBehind 0 := by
  rw [depthBetween, List.drop_take, Nat.add_sub_cancel_left]

/-- The places where a restart may end are those after so many tokens from where it begins. -/
theorem landing_add_iff : Landing inBlock stream start (start + n) ↔
    LandsAfter inBlock 0 true (stream.drop start) n := by
  generalize hstop : start + n = stop
  constructor
  · intro h
    cases h with
    | @atEnd _ t _ ht hkind =>
      subst hstop
      exact .inl ⟨t, List.getElem?_drop.trans ht, .inl hkind⟩
    | @beforeWord _ t hlt ht hkind hdepth =>
      subst hstop
      rw [depthBetween_add] at hdepth
      refine .inl ⟨t, List.getElem?_drop.trans ht, .inr ⟨hdepth, ?_, ?_⟩⟩
      · simp; omega
      · exact hkind.imp_right .inl
    | @beforeBrace _ t hblock hlt ht hkind hdepth =>
      subst hstop
      rw [depthBetween_add] at hdepth
      refine .inl ⟨t, List.getElem?_drop.trans ht, .inr ⟨hdepth, ?_, .inr (.inr ⟨hblock, hkind⟩)⟩⟩
      simp; omega
    | @behindSemicolon last t hle ht hkind hdepth =>
      obtain ⟨m, rfl⟩ := Nat.exists_eq_add_of_le hle
      rw [depthBetween_add] at hdepth
      exact .inr ⟨m, t, by omega, List.getElem?_drop.trans ht, .inl ⟨hkind, hdepth⟩⟩
    | @behindBrace last t hblock hle ht hkind hdepth =>
      obtain ⟨m, rfl⟩ := Nat.exists_eq_add_of_le hle
      rw [depthBetween_add] at hdepth
      exact .inr ⟨m, t, by omega, List.getElem?_drop.trans ht, .inr ⟨hkind, hdepth, hblock⟩⟩
  · rintro (⟨t, ht, hbefore⟩ | ⟨m, t, rfl, ht, hbehind⟩)
    · rw [List.getElem?_drop, hstop] at ht
      rw [← depthBetween_add, hstop] at hbefore
      rcases hbefore with hkind | ⟨hdepth, hfirst, hkind⟩
      · exact .atEnd (by omega) ht hkind
      · have hlt : start < stop := by
          have hn : n ≠ 0 := by simpa using hfirst
          omega
        rcases hkind with hkind | hkind | ⟨hblock, hkind⟩
        · exact .beforeWord hlt ht (.inl hkind) hdepth
        · exact .beforeWord hlt ht (.inr hkind) hdepth
        · exact .beforeBrace hblock hlt ht hkind hdepth
    · rw [List.getElem?_drop] at ht
      rw [← depthBetween_add] at hbehind
      obtain rfl : stop = start + m + 1 := by omega
      rcases hbehind with ⟨hkind, hdepth⟩ | ⟨hkind, hdepth, hblock⟩
      · exact .behindSemicolon (Nat.le_add_right _ _) ht hkind hdepth
      · exact .behindBrace hblock (Nat.le_add_right _ _) ht hkind hdepth

/-- Wherever the cursor stands in a stream, a restart moves it to the first of the places where it
may end, and changes nothing else. It skips a token, unless it stands at an end of input. -/
theorem restart_lands_first (options : ParseOptions) (tokens : List LocatedToken) (inBlock : Bool)
    {start : Nat} (hstart : start ≤ (splitClosing tokens).1.length) {s : State}
    (hs : s.pending = (splitClosing tokens).1.drop start) :
    ∃ stop ≤ (splitClosing tokens).1.length,
      IsLeast {stop | Landing inBlock (closedStream tokens) start stop} stop ∧
      restart inBlock (.ofTokens options tokens) s =
        ((), { s with pending := (splitClosing tokens).1.drop stop }) ∧
      (start < stop ∨ start = stop ∧
        ∃ t, (closedStream tokens)[start]? = some t ∧ t.kind = .endOfInput) := by
  have hclosing : (splitClosing tokens).2.kind = .endOfInput :=
    of_decide_eq_true (closed_ofTokens options tokens)
  obtain ⟨n, hn, ⟨hlands, hleast⟩, hdrop⟩ :=
    restartFrom_eq_drop inBlock hclosing s.pending 0 true
  rw [hs, List.length_drop] at hn
  have hahead : s.pending ++ [(splitClosing tokens).2] = (closedStream tokens).drop start := by
    rw [hs, closedStream, List.drop_append_of_le_length hstart]
  rw [hahead] at hlands hleast
  have hlanding := landing_add_iff.2 hlands
  refine ⟨start + n, by omega, ⟨hlanding, fun stop hstop => ?_⟩, ?_, ?_⟩
  · obtain ⟨m, rfl⟩ := Nat.exists_eq_add_of_le hstop.start_le
    exact Nat.add_le_add_left (hleast (landing_add_iff.1 hstop)) start
  · rw [hs, List.drop_drop, ← hs] at hdrop
    rw [restart, ← hdrop]
    rfl
  · cases n with
    | zero =>
      refine .inr ⟨rfl, ?_⟩
      cases hlanding with
      | atEnd _ ht hkind => exact ⟨_, ht, hkind⟩
      | beforeWord hlt | beforeBrace _ hlt => exact absurd hlt (Nat.lt_irrefl _)
      | behindSemicolon hle | behindBrace _ hle => exact absurd hle (Nat.not_succ_le_self _)
    | succ n => exact .inl (by omega)

/-- A name, braces around a semicolon, and the brace that closes the block. -/
def bracedSemicolon : List LocatedToken :=
  [⟨.ofText .identifier "a", 0, 1⟩, ⟨.ofText .leftBrace "\x7b", 1, 2⟩,
   ⟨.ofText .semicolon ";", 2, 3⟩, ⟨.ofText .rightBrace "\x7d", 3, 4⟩,
   ⟨.ofText .rightBrace "\x7d", 4, 5⟩, .endAt 5]

theorem restart_lands_first_bracedSemicolon :
    let s : State := { State.ofTokens bracedSemicolon with
      pending := (splitClosing bracedSemicolon).1.drop 1 }
    1 ≤ (splitClosing bracedSemicolon).1.length ∧
      IsLeast {stop | Landing true (closedStream bracedSemicolon) 1 stop} 4 ∧
      (restart true (.ofTokens .default bracedSemicolon) s).2 =
        { s with pending := [⟨.ofText .rightBrace "\x7d", 4, 5⟩] } := by
  intro s
  have hstart : 1 ≤ (splitClosing bracedSemicolon).1.length := by decide
  obtain ⟨stop, hle, hleast, hrun, -⟩ :=
    restart_lands_first .default bracedSemicolon true hstart (s := s) rfl
  have hpending : (restart true (.ofTokens .default bracedSemicolon) s).2.pending =
      [⟨.ofText .rightBrace "\x7d", 4, 5⟩] := by decide
  rw [hrun] at hpending
  have hlength := congrArg List.length hpending
  obtain rfl : stop = 4 := by
    rw [List.length_drop] at hlength
    have hfive : (splitClosing bracedSemicolon).1.length = 5 := by decide
    simp only [List.length_singleton] at hlength
    omega
  exact ⟨hstart, hleast, by rw [hrun]; rfl⟩

end RouteScript.Grammar
