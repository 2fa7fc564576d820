import RouteScript.Proofs.Token.Detached
/-!
# Heads apart from what comes after

Every reader takes the same bytes for the same token whether `ahead` stands behind them or something
that is detached from it. A gap stays as it is too, but for a run of blanks, which may grow. So a
walk passes the same bytes, and makes the same tokens of them.
-/
namespace RouteScript.Scan

variable {options : ScanOptions} {joined joins : Bool} {b c : UInt8}
  {bs ys family name body piece more rest ahead passed other : List UInt8} {t : Token}
  {n position : Nat} {tokens : List LocatedToken} {r q : List UInt8 → Option Reading}

/-! ## Readers -/

/-- What a reader takes before `ahead` it takes as well before `other`, and what it passes by there
it passes by here. -/
structure Unmoved (ahead other : List UInt8) (r : List UInt8 → Option Reading) : Prop where
  takes : ∀ {b piece more t},
    r (b :: (piece ++ (more ++ ahead))) = some (.ok (t, piece.length + 1)) →
    r (b :: (piece ++ (more ++ other))) = some (.ok (t, piece.length + 1))
  passes : ∀ {b more}, r (b :: (more ++ ahead)) = none → r (b :: (more ++ other)) = none

theorem Unmoved.orElse (hr : Unmoved ahead other r) (hq : Unmoved ahead other q) :
    Unmoved ahead other fun bs => r bs <|> q bs where
  takes {b piece more t} h := by
    cases hread : r (b :: (piece ++ (more ++ ahead))) with
    | some a =>
      rw [hread] at h
      rw [hr.takes (hread.trans h)]
      rfl
    | none =>
      rw [← List.append_assoc] at hread
      have hpass := hr.passes hread
      rw [List.append_assoc] at hread hpass
      rw [hread] at h
      rw [hpass]
      exact hq.takes h
  passes {b more} h := by
    cases hread : r (b :: (more ++ ahead)) with
    | some a =>
      rw [hread] at h
      cases h
    | none =>
      rw [hread] at h
      rw [hr.passes hread]
      exact hq.passes h

namespace Detached

theorem unmoved_string? (h : Detached ahead other) : Unmoved ahead other string? where
  takes {b piece more t} hread := by
    obtain ⟨rfl, body, rest, hbs, hbody, ha⟩ := string?_eq_some hread
    obtain ⟨rfl, hlength⟩ := Prod.mk.inj (Except.ok.inj ha)
    obtain rfl := eq_body_append hbs hlength
    rw [hlength, List.append_assoc, List.singleton_append]
    exact string?_closed hbody _
  passes {b more} hread := by
    by_cases hb : b = byte '"'
    · subst hb
      rw [string?_quote_eq_none_iff, List.mem_append, not_or] at hread ⊢
      exact hread.imp_right fun hquote => mt h.quote hquote
    · exact string?_eq_none hb _

theorem unmoved_integer? (h : Detached ahead other) : Unmoved ahead other integer? where
  takes {b piece more t} hread := by
    rw [← List.cons_append, ← List.length_cons (a := b)] at hread ⊢
    have hdigits := takeWhile_of_integer? hread
    simp only [integer?, hdigits] at hread
    simpa only [integer?, h.takeWhile (by decide) hdigits] using hread
  passes hread := integer?_eq_none_iff.2 (integer?_eq_none_iff.1 hread)

theorem unmoved_word? (h : Detached ahead other) : Unmoved ahead other word? where
  takes {b piece more t} hread := by
    rw [← List.cons_append, ← List.length_cons (a := b)] at hread ⊢
    have hword := word_of_word? hread
    simp only [word?, hword] at hread
    simpa only [word?, h.word hword] using hread
  passes hread := word?_eq_none_iff.2 (word?_eq_none_iff.1 hread)

end Detached

theorem unmoved_punctuation? : Unmoved ahead other punctuation? := ⟨id, id⟩

namespace Detached

theorem head?_ne (h : Detached ahead other) (hc : isBlank c = false)
    (hne : (more ++ ahead).head? ≠ some c) : (more ++ other).head? ≠ some c := by
  cases more with
  | nil => exact fun hother => ne_of_isBlank (h.blank c hother) hc rfl
  | cons d more => exact hne

theorem unmoved_coreVariable? (h : Detached ahead other) :
    Unmoved ahead other coreVariable? where
  takes {b piece more t} hread := by
    obtain ⟨rfl, family, rest, hbs, hword, hletter, hcases⟩ := coreVariable?_eq_some hread
    rcases hcases with ⟨hrest, hlength, rfl⟩ | ⟨name, tail, rfl, hname, hlength, rfl⟩
    · obtain ⟨rfl, rfl⟩ := List.append_inj hbs (by omega)
      exact coreVariable?_bare hletter (h.word hword) (h.head?_ne (by decide) hrest)
    · have hpiece : piece = family ++ byte '(' :: (name ++ [byte ')']) := by
        have hbs' : piece ++ (more ++ ahead) =
            (family ++ byte '(' :: (name ++ [byte ')'])) ++ tail := by simpa using hbs
        exact (List.append_inj hbs' (by simp; omega)).1
      have hfamily : Scan.word family = family := by
        rw [← hword, word_word]
      rw [hlength, hpiece, List.append_assoc, List.cons_append, List.append_assoc,
        List.singleton_append]
      exact coreVariable?_named hletter hfamily hname _
  passes {b more} hread := by
    rw [coreVariable?_eq_none_iff] at hread ⊢
    rintro ⟨rfl, hletter⟩
    cases more with
    | nil =>
      cases other with
      | nil => cases hletter
      | cons c other =>
        have hc : isLetter c = false := not_of_isBlank rfl (h.blank c rfl)
        rw [List.nil_append, List.head?_cons, Option.any_some, hc] at hletter
        cases hletter
    | cons d more => exact hread ⟨rfl, hletter⟩

end Detached

/-! ## Operators and directives -/

theorem longOperator?_blank (h : ∀ c ∈ bs.head?, isBlank c = true) :
    longOperator? (b :: bs) = none := by
  cases bs with
  | nil => rfl
  | cons c bs =>
    have htable : ∀ a ∈ longOperators, isBlank (byte a.2.1) = false := by decide
    rw [longOperator?, Option.map_eq_none_iff, List.find?_eq_none]
    intro a ha
    simp [Ne.symm (ne_of_isBlank (h c rfl) (htable a ha))]

theorem opensDirective_blank (h : ∀ c ∈ bs.head?, isBlank c = true) :
    opensDirective (b :: bs) = false := by
  cases bs with
  | nil => rfl
  | cons c bs =>
    have hmark : c ≠ byte '!' := ne_of_isBlank (h c rfl) (by decide)
    simp [opensDirective, hmark]

theorem operation?_blank (h : ∀ c ∈ bs.head?, isBlank c = true) :
    operation? (b :: bs) = shortOperator? (b :: bs) := by
  rw [operation?_of_not_opens (opensDirective_blank h), longOperator?_blank h]
  rfl

namespace Detached

/-- The mark and the name make up the bytes of a directive. -/
theorem takes_directive (h : Detached ahead other)
    (hopens : opensDirective (b :: (piece ++ (more ++ ahead))) = true)
    (hread : operation? (b :: (piece ++ (more ++ ahead))) = some (.ok (t, piece.length + 1))) :
    operation? (b :: (piece ++ (more ++ other))) = some (.ok (t, piece.length + 1)) := by
  obtain ⟨c, d, rest, hbs⟩ := exists_of_opensDirective hopens
  obtain ⟨rfl, hrest⟩ := List.cons.inj hbs
  rw [hrest] at hopens hread
  rw [operation?_of_opens hopens, directive?_of_opens hopens] at hread
  obtain ⟨rfl, hlength⟩ := Prod.mk.inj (Except.ok.inj (Option.some.inj hread))
  obtain ⟨e, name, rfl⟩ := List.exists_cons_of_length_pos (by omega : 0 < piece.length)
  rw [List.cons_append] at hrest
  obtain ⟨rfl, rfl⟩ := List.cons.inj hrest
  have hword : Scan.word (name ++ (more ++ ahead)) = name :=
    eq_of_prefix_append (prefix_word _) (by simpa using hlength)
  have hopens' : opensDirective (b :: e :: (name ++ (more ++ other))) = true := hopens
  rw [List.cons_append, operation?_of_opens hopens', directive?_of_opens hopens', h.word hword,
    hword]
  rfl

/-- An operator of one byte stays as it is where it would not be one of two. -/
theorem operation?_eq (h : Detached ahead other) (hopens : opensDirective (b :: ahead) = false)
    (hread : ∀ t, operation? (b :: ahead) ≠ some (.ok (t, 2))) :
    operation? (b :: other) = operation? (b :: ahead) := by
  rw [operation?_blank h.blank, operation?_of_not_opens hopens,
    longOperator?_eq_none hopens hread]
  rfl

theorem unmoved_operation? (h : Detached ahead other) : Unmoved ahead other operation? where
  takes {b piece more t} hread := by
    by_cases hopens : opensDirective (b :: (piece ++ (more ++ ahead))) = true
    · exact h.takes_directive hopens hread
    rw [Bool.not_eq_true] at hopens
    cases piece with
    | cons c piece => exact (operation?_congr hopens).trans hread
    | nil =>
      cases more with
      | cons c more => exact (operation?_congr hopens).trans hread
      | nil =>
        simp only [List.nil_append] at hopens hread ⊢
        exact (h.operation?_eq hopens (by simp [hread])).trans hread
  passes {b more} hread := by
    have hopens : opensDirective (b :: (more ++ ahead)) = false := by
      refine Bool.eq_false_iff.2 fun hopens => ?_
      rw [operation?_of_opens hopens, directive?, if_pos hopens] at hread
      cases hread
    cases more with
    | cons c more => exact (operation?_congr hopens).trans hread
    | nil =>
      simp only [List.nil_append] at hopens hread ⊢
      exact (h.operation?_eq hopens (by simp [hread])).trans hread

/-- Every reader takes the same before what is detached. -/
theorem unmoved_lexeme? (h : Detached ahead other) : Unmoved ahead other lexeme? :=
  h.unmoved_integer?.orElse (h.unmoved_word?.orElse (h.unmoved_string?.orElse
    (unmoved_punctuation?.orElse (h.unmoved_coreVariable?.orElse h.unmoved_operation?))))

end Detached

/-! ## Heads -/

/-- A hash sign that starts a token takes the mark of a directive along. -/
theorem ne_nil_of_hash (hgap : gapLength (byte '#' :: (piece ++ ys)) = 0) (hys : ys ≠ [])
    (hread : ∀ a ∈ lexeme? (byte '#' :: (piece ++ ys)), ∃ t, a = .ok (t, piece.length + 1)) :
    piece ≠ [] := by
  rintro rfl
  obtain ⟨c, ys, rfl⟩ := List.exists_cons_of_ne_nil hys
  obtain rfl := eq_mark_of_gapLength hgap
  have hopens : opensDirective (byte '#' :: byte '!' :: ys) = true := rfl
  have hdirective :
      lexeme? (byte '#' :: byte '!' :: ys) = directive? (byte '#' :: byte '!' :: ys) :=
    (lexeme?_of_startsOperator (by decide) _).trans (operation?_of_opens hopens)
  rw [List.nil_append, hdirective, directive?_of_opens hopens] at hread
  obtain ⟨t, ht⟩ := hread _ rfl
  simp at ht

namespace Detached

/-- Where a token starts before `ahead`, no gap starts before `other`. -/
theorem gapLength_token (h : Detached ahead other)
    (hgap : gapLength (b :: (piece ++ (more ++ ahead))) = 0)
    (hread : ∀ a ∈ lexeme? (b :: (piece ++ (more ++ ahead))), ∃ t, a = .ok (t, piece.length + 1)) :
    gapLength (b :: (piece ++ (more ++ other))) = 0 := by
  have hne : more ++ ahead ≠ [] := by simp [h.ahead_ne_nil]
  rw [← List.append_assoc]
  refine h.gapLength_zero (by rwa [List.append_assoc]) ?_
  rintro rfl
  exact List.append_ne_nil_of_left_ne_nil (ne_nil_of_hash hgap hne hread) more

/-- A string that goes on ends with the quote that closes it, if anything comes after it. -/
theorem continuation_eq (h : Detached ahead other)
    (hlength : (continuation (piece ++ (more ++ ahead))).2 = piece.length + 1) :
    continuation (piece ++ (more ++ other)) = continuation (piece ++ (more ++ ahead)) := by
  have hquote : byte '"' ∈ piece ++ (more ++ ahead) := by
    by_contra hopen
    have hpos := List.length_pos_iff.2 h.ahead_ne_nil
    rw [continuation_open hopen, List.length_append, List.length_append] at hlength
    omega
  obtain ⟨body, rest, hbs, hbody⟩ := List.eq_append_cons_of_mem hquote
  rw [hbs, continuation_closed hbody] at hlength ⊢
  obtain rfl := eq_body_append hbs hlength.symm
  rw [List.append_assoc, List.singleton_append, continuation_closed hbody]

/-- A token stays as it is. -/
theorem head_token (h : Detached ahead other)
    (hhead : head options joined b (piece ++ (more ++ ahead)) = .token t n joins)
    (hlength : n = piece.length + 1) :
    head options joined b (piece ++ (more ++ other)) = .token t n joins := by
  cases head_eq_iff.1 hhead with
  | goesOn hjoined hquote =>
    rw [← h.continuation_eq hlength]
    exact (HeadIs.goesOn hjoined hquote).eq
  | lexeme hfresh hgap hread =>
    subst hlength
    exact (HeadIs.lexeme hfresh (h.gapLength_token hgap (by rw [hread]; simp))
      (h.unmoved_lexeme?.takes hread)).eq
  | kept hfresh hgap hread hkeep =>
    obtain rfl : piece = [] := by simpa using hlength
    exact (HeadIs.kept hfresh (h.gapLength_token hgap (by rw [hread]; simp))
      (h.unmoved_lexeme?.passes hread) hkeep).eq

/-- A gap that is no run of blanks stays as it is. -/
theorem head_gap (h : Detached ahead other) (hb : isBlank b = false)
    (hhead : head options joined b (piece ++ (more ++ ahead)) = .gap n)
    (hlength : n = piece.length + 1) :
    head options joined b (piece ++ (more ++ other)) = .gap n := by
  cases head_eq_iff.1 hhead with
  | gap hfresh hgap =>
    have hother := h.gapLength_eq hb hlength
    rw [hlength, ← hother]
    exact (HeadIs.gap hfresh (by omega)).eq

end Detached

/-! ## The walk -/

/-- A gap that starts with a blank is a run of blanks. -/
theorem blanks_of_head (hb : isBlank b = true)
    (hhead : head options joined b (piece ++ ys) = .gap (piece.length + 1)) :
    ∀ c ∈ b :: piece, isBlank c = true := by
  obtain ⟨hlength, -, -⟩ := gapLength_of_head hhead
  have hrun : (piece ++ ys).takeWhile isBlank = piece := by
    refine eq_of_prefix_append (List.takeWhile_prefix _) ?_
    simp [gapLength, hb] at hlength
    omega
  exact List.forall_mem_cons.2 ⟨hb, (stop_of_takeWhile hrun).1⟩

/-- A walk passes the same bytes, and makes the same tokens of them, before what is detached from
the bytes that came after them. -/
theorem Passed.walk_detached (h : Passed options ahead joined position passed tokens joins)
    (hdetached : Detached ahead other) :
    walk options joined position 0 (passed ++ other) =
      (walk options joins (position + passed.length) 0 other).map (tokens ++ ·) := by
  induction h with
  | @start joined position =>
    rw [List.nil_append]
    cases walk options joined position 0 other <;> rfl
  | @gap joined _ position b gap passed tokens hhead _ ih =>
    rw [← add_length_piece, ← ih, List.cons_append, List.append_assoc]
    by_cases hb : isBlank b = true
    · have hblanks := blanks_of_head hb hhead
      exact walk_blanks hblanks (passed ++ other) position
    · exact walk_gap (hdetached.head_gap (by simpa using hb) hhead rfl) position
  | @token _ _ _ position b lexeme passed t tokens hhead _ ih =>
    rw [← add_length_piece, List.cons_append, List.append_assoc,
      walk_token (hdetached.head_token hhead rfl), ih]
    cases walk options _ _ 0 other <;> rfl

/-- What was read before a byte that is no blank is read without that byte and all after it. -/
theorem Passed.scan_eq (h : Passed options (b :: ahead) false 0 passed tokens joins)
    (hb : isBlank b = false) : scan options passed = .ok tokens := by
  have hread := h.walk_detached (detached_nil ⟨b, rfl, hb⟩)
  simpa [scan, walk, Except.map] using hread

end RouteScript.Scan
