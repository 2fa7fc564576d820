import RouteScript.Proofs.Token.Spaced
/-!
# Reading what is written

The tokens of a source, written with a space between them, are a source of the same tokens: reserved
words are told apart again, strings stay what they were joined to, and nothing runs together.
-/
namespace RouteScript

/-- A token as a source spells it: a directive after its mark, all else as a reader sees it. -/
def Token.written (t : Token) : String :=
  if t.kind = .directive then "#!" ++ t.display else t.display

/-- The tokens of a stream but for its end, written with a space between them. -/
def written (tokens : List LocatedToken) : String :=
  " ".intercalate ((tokens.filter fun t => !t.isEnd).map fun t => t.token.written)

namespace Token

/-- The token that is scanned where this one is written: reserved words are identifiers until they
are settled. -/
def unsettled (t : Token) : Token :=
  match t.kind, t.literal with
  | .keyword, .text s | .route, .text s => .ofText .identifier s
  | _, _ => t

/-- A token as it stands in the stream of a source without illegal bytes. -/
inductive Settled : Token → Prop
  | lexeme {t : Token} : Scan.Lexeme .default t → Settled t.classified
  | string {s : String} : '"' ∉ s.toList → Settled (.ofText .string s)

/-- The token is spelled by its written form, and settled to itself again. -/
structure ReadsBack (t : Token) : Prop where
  spells : Scan.Spells (Text.encode t.written) t.unsettled
  settles : t.unsettled.classified = t

/-! ## Each token is read back -/

variable {t : Token} {s : String} {kind : TokenKind}

/-- A mark is written as its text, and is no word to be told apart. -/
theorem readsBack_mark (hkind : kind.isMark = true)
    (h : Scan.Spells (Text.encode s) (.ofText kind s)) : (ofText kind s).classified.ReadsBack := by
  have hwritten : (ofText kind s).written = s := by cases kind <;> first | rfl | cases hkind
  have hsame : (ofText kind s).unsettled = ofText kind s := by
    cases kind <;> first | rfl | cases hkind
  have hclassified : (ofText kind s).classified = ofText kind s :=
    classified_of_ne (TokenKind.ne_of_isMark hkind rfl)
  rw [hclassified]
  refine ⟨by rwa [hwritten, hsame], ?_⟩
  rw [hsame, hclassified]

theorem readsBack_directive {name : List UInt8} (h : Scan.word name = name) :
    (ofText .directive (Text.decode name)).ReadsBack := by
  refine ⟨?_, rfl⟩
  show Scan.Spells (Text.encode ("#!" ++ Text.decode name)) _
  rw [Text.encode_append, Scan.encode_decode_word h]
  exact Scan.spells_directive h

/-- Words of the preprocessor are written with the mark of a directive, all others as they are. -/
theorem readsBack_word {name : List UInt8} (hne : name ≠ []) (h : Scan.word name = name) :
    (ofText .identifier (Text.decode name)).classified.ReadsBack := by
  have hplain : ∀ k ∈ [TokenKind.keyword, .route, .identifier], ∀ s,
      (ofText k s).written = s ∧ (ofText k s).unsettled = ofText .identifier s := by
    simp only [List.forall_mem_cons]
    exact ⟨fun _ => ⟨rfl, rfl⟩, fun _ => ⟨rfl, rfl⟩, fun _ => ⟨rfl, rfl⟩, by simp⟩
  rw [classified_ofText_identifier]
  by_cases hdirective : wordKind (Text.decode name) = .directive
  · rw [hdirective]
    exact readsBack_directive h
  · have hmem : wordKind (Text.decode name) ∈ [TokenKind.keyword, .route, .identifier] := by
      simpa [hdirective] using wordKind_mem (Text.decode name)
    obtain ⟨hwritten, hunsettled⟩ := hplain _ hmem (Text.decode name)
    refine ⟨?_, ?_⟩
    · rw [hwritten, hunsettled, Scan.encode_decode_word h]
      exact Scan.spells_word hne h
    · rw [hunsettled, classified_ofText_identifier]

theorem readsBack_string (h : '"' ∉ s.toList) : (ofText .string s).ReadsBack := by
  refine ⟨?_, rfl⟩
  show Scan.Spells (Text.encode ("\"" ++ s ++ "\"")) _
  rw [Text.encode_append, Text.encode_append]
  exact Scan.spells_string h

theorem readsBack_integer {n : Nat} (h : n ≤ Word64.signedMax) :
    ReadsBack ⟨.integer, .integer n⟩ := by
  refine ⟨?_, rfl⟩
  show Scan.Spells (Text.encode n.repr) _
  rw [Scan.encode_repr]
  exact Scan.spells_decimal h

theorem readsBack_coreVariable {family name : List UInt8}
    (hletter : family.head?.any Scan.isLetter = true) (hfamily : Scan.word family = family)
    (hname : Scan.word name = name) :
    ReadsBack ⟨.coreVariable, .coreVariable (Text.decode family) (Text.decode name)⟩ := by
  refine ⟨?_, rfl⟩
  show Scan.Spells (Text.encode (if (Text.decode name).isEmpty then "$" ++ Text.decode family
    else "$" ++ Text.decode family ++ "(" ++ Text.decode name ++ ")")) _
  split
  · rename_i hempty
    have hnil : name = [] := by
      rw [← Scan.encode_decode_word hname, String.isEmpty_iff.1 hempty]
      rfl
    subst hnil
    rw [Text.encode_append, Scan.encode_decode_word hfamily]
    exact Scan.spells_coreVariable hletter hfamily
  · simp only [Text.encode_append, Scan.encode_decode_word hfamily, Scan.encode_decode_word hname,
      List.append_assoc]
    exact Scan.spells_namedVariable hletter hfamily hname

/-- Every token of a stream is read back. -/
theorem Settled.readsBack (h : t.Settled) : t.ReadsBack := by
  have hmarks : ∀ a ∈ Scan.punctuation, a.1.toNat < 0x80 := by decide
  have hlong : ∀ a ∈ Scan.longOperators, a.1.toNat < 0x80 ∧ a.2.1.toNat < 0x80 := by decide
  have hshort : ∀ a ∈ Scan.shortOperators, a.1.toNat < 0x80 := by decide
  cases h with
  | string h => exact readsBack_string h
  | lexeme h =>
    cases h with
    | integer h => exact readsBack_integer h
    | identifier hne h => exact readsBack_word hne h
    | string h =>
      exact readsBack_string fun hquote => h (Text.mem_of_mem_decode (by decide) (by decide) hquote)
    | @mark c kind h =>
      refine readsBack_mark (Scan.isMark_of_punctuation _ h) ?_
      rw [Scan.encode_toString (hmarks _ h)]
      exact Scan.spells_mark h
    | coreVariable hletter hfamily hname => exact readsBack_coreVariable hletter hfamily hname
    | @longOperator c d kind h =>
      refine readsBack_mark (Scan.isMark_of_longOperators _ h) ?_
      rw [Text.encode_ofList_ascii (by simpa using hlong _ h)]
      exact Scan.spells_longOperator h
    | @shortOperator c kind h =>
      refine readsBack_mark (Scan.isMark_of_shortOperators _ h) ?_
      rw [Scan.encode_toString (hshort _ h)]
      exact Scan.spells_shortOperator h
    | directive h => exact readsBack_directive h
    | illegal h => cases h

/-! ## The tokens of a stream -/

/-- Only strings make a string that has no quote in it. -/
theorem quote_notMem_of_lexeme {options : ScanOptions}
    (h : Scan.Lexeme options (.ofText .string s)) : '"' ∉ s.toList := by
  have hmark : ∀ {kind : TokenKind}, kind.isMark = true → kind ≠ .string := fun hk =>
    TokenKind.ne_of_isMark hk rfl
  generalize ht : ofText .string s = t at h
  have hkind : t.kind = .string := by rw [← ht]; rfl
  cases h with
  | integer _ | coreVariable _ _ _ | identifier _ _ | directive _ | illegal _ => cases hkind
  | mark h => exact absurd hkind (hmark (Scan.isMark_of_punctuation _ h))
  | longOperator h => exact absurd hkind (hmark (Scan.isMark_of_longOperators _ h))
  | shortOperator h => exact absurd hkind (hmark (Scan.isMark_of_shortOperators _ h))
  | string h =>
    cases ht
    exact fun hquote => h (Text.mem_of_mem_decode (by decide) (by decide) hquote)

theorem settled_of_settlesTo {run : List LocatedToken} {u : LocatedToken}
    (hrun : ∀ t ∈ run, Scan.Lexeme .default t.token) (h : SettlesTo run u) : u.token.Settled := by
  cases h with
  | alone _ => exact .lexeme (hrun _ (List.mem_singleton.2 rfl))
  | @strings run texts hne hmap =>
    refine .string ?_
    rw [String.toList_join]
    intro hquote
    obtain ⟨s, hs, hquote⟩ := List.mem_flatMap.1 hquote
    have htoken : ofText .string s ∈ run.map (·.token) := by
      rw [hmap]
      exact List.mem_map_of_mem hs
    obtain ⟨t, ht, heq⟩ := List.mem_map.1 htoken
    exact quote_notMem_of_lexeme (heq ▸ hrun t ht) hquote

end Token

/-- The tokens of a stream are settled. -/
theorem settled_of_runs {runs : List (List LocatedToken)} {body : List LocatedToken}
    (h : List.Forall₂ SettlesTo runs body)
    (hruns : ∀ t ∈ runs.flatten, Scan.Lexeme .default t.token) :
    ∀ t ∈ body, t.token.Settled := by
  induction h with
  | nil => simp
  | cons hrun _ ih =>
    rw [List.flatten_cons, List.forall_mem_append] at hruns
    exact List.forall_mem_cons.2 ⟨Token.settled_of_settlesTo hruns.1 hrun, ih hruns.2⟩

variable {source : List UInt8} {tokens body : List LocatedToken}

theorem encode_written (hbody : ∀ t ∈ body, t.isEnd = false) (n : Nat) :
    Text.encode (written (body ++ [.endAt n])) =
      [Scan.byte ' '].intercalate (body.map fun t => Text.encode t.token.written) := by
  have hfilter : (body ++ [LocatedToken.endAt n]).filter (fun t => !t.isEnd) = body := by
    rw [List.filter_append, List.filter_eq_self.2 fun t ht => by simp [hbody t ht]]
    exact List.append_nil body
  rw [written, hfilter, Text.encode_intercalate, List.map_map]
  rfl

@[simp] theorem Token.stringText?_unsettled (t : Token) :
    t.unsettled.stringText? = t.stringText? := by
  unfold Token.unsettled
  split <;> simp_all [Token.stringText?, Token.ofText]

/-- What is settled and apart is the stream of its written form. -/
theorem tokenStream_encode_written (hsettled : ∀ t ∈ body, t.token.Settled) (hapart : Apart body)
    (hbody : ∀ t ∈ body, t.isEnd = false) (n : Nat) :
    ∃ again, tokenStream .default (Text.encode (written (body ++ [.endAt n]))) = .ok again ∧
      again.map (·.token) = (body ++ [LocatedToken.endAt n]).map (·.token) := by
  have hspells : List.Forall₂ Scan.Spells (body.map fun t => Text.encode t.token.written)
      (body.map fun t => t.token.unsettled) :=
    List.forall₂_map_left_iff.2 (List.forall₂_map_right_iff.2
      (List.forall₂_same.2 fun t ht => (hsettled t ht).readsBack.spells))
  have hunjoined : Scan.Unjoined false (body.map fun t => t.token.unsettled) := by
    refine ⟨by simp, (List.isChain_map _).2 ?_⟩
    simp only [Token.stringText?_unsettled]
    exact hapart
  obtain ⟨scanned, hwalk, htokens⟩ := @Scan.walked_intercalate .default _ _ hspells hunjoined
  have hscanned : Apart scanned := by
    have hchain := hunjoined.2
    rw [← htokens] at hchain
    exact (List.isChain_map LocatedToken.token).1 hchain
  have hbreaks : ∀ t ∈ scanned, t.kind ≠ .lineBreak := fun t ht =>
    (hwalk.lexeme t ht).kind_ne_lineBreak
  have hclassified : (settle scanned).map (·.token) = body.map (·.token) := by
    rw [settle_of_apart hscanned hbreaks, List.map_map]
    calc scanned.map (fun t => t.token.classified)
        = (scanned.map (·.token)).map Token.classified := by rw [List.map_map]; rfl
      _ = body.map (fun t => t.token.unsettled.classified) := by
        rw [htokens, List.map_map]; rfl
      _ = body.map (·.token) :=
        List.map_congr_left fun t ht => (hsettled t ht).readsBack.settles
  rw [encode_written hbody]
  refine ⟨_, tokenStream_eq_ok_iff.2 ⟨scanned, scan_eq_ok_iff.2 hwalk, rfl⟩, ?_⟩
  rw [List.map_append, List.map_append, hclassified]
  rfl

/-- Scanning undoes writing: the tokens of a source, written with a space between them, are scanned
and settled to the same tokens. -/
theorem tokenStream_written (h : tokenStream .default source = .ok tokens) :
    ∃ again, tokenStream .default (Text.encode (written tokens)) = .ok again ∧
      again.map (·.token) = tokens.map (·.token) := by
  obtain ⟨scanned, hscan, rfl⟩ := tokenStream_eq_ok_iff.1 h
  have hlexeme := (scan_eq_ok_iff.1 hscan).lexeme
  obtain ⟨runs, rfl, hruns⟩ := exists_runs fun t ht => (hlexeme t ht).kind_ne_lineBreak
  refine tokenStream_encode_written (settled_of_runs hruns hlexeme) (apart_settle _) ?_ _
  exact fun t ht => (scanned_settle (fun u hu => (hlexeme u hu).scanned) t ht).isEnd

/-- A keyword, two strings without a blank between them, and a directive without a name. -/
theorem tokenStream_written_strings :
    let source : List UInt8 := [105, 102, 32, 34, 97, 34, 34, 98, 34, 33, 33]
    let tokens : List LocatedToken := [⟨.ofText .keyword "if", 0, 2⟩, ⟨.ofText .string "ab", 3, 9⟩,
      ⟨.ofText .directive "", 9, 11⟩, .endAt 11]
    tokenStream .default source = .ok tokens ∧
      ∃ again, tokenStream .default (Text.encode (written tokens)) = .ok again ∧
        again.map (·.token) = tokens.map (·.token) := by
  intro source tokens
  have h : tokenStream .default source = .ok tokens := by decide +kernel
  exact ⟨h, tokenStream_written h⟩

end RouteScript
