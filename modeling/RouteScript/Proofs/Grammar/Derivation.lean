import RouteScript.Proofs.Grammar.Reading
import RouteScript.Proofs.Tree.Unranged
/-!
# Derivations

The grammar of the language, said of tokens without regard to how they are parsed:

```text
Script     := TopLevel* End
TopLevel   := FileStarter | Assignment ";"? | Route
Route      := RouteWord Name? Block
Name       := "[" (Identifier | Number | String) "]"
Block      := "{" (Assignment ";")* "}"
Assignment := (Identifier | CoreVariable) "=" (Number | String | CoreVariable)
```

The word `route` needs a name, the other words that open a route do not. For each symbol there is a
relation between the tokens that derive from it and the item of the derivation, without ranges.
-/
namespace RouteScript.Grammar.Derives

/-- The label of a derived item. -/
def tag (kind : NodeKind) (role : Option String) : Label := ⟨kind, role, none⟩

/-- A core variable of a family that can be assigned. -/
inductive Variable (role : String) : Token → Item → Prop
  | script {name : String} : Variable role ⟨.coreVariable, .coreVariable "var" name⟩
      (.list (tag .scriptVariable role) [.leaf (tag .identifier none) (.text name)])
  | avp {name : String} : Variable role ⟨.coreVariable, .coreVariable "avp" name⟩
      (.list (tag .avpVariable role) [.leaf (tag .identifier none) (.text name)])

inductive Target : Token → Item → Prop
  | identifier {name : String} : Target (.ofText .identifier name)
      (.leaf (tag .identifier "left") (.text name))
  | coreVariable {t : Token} {x : Item} : Variable "left" t x → Target t x

inductive Value : Token → Item → Prop
  | number {n : Int} : Value ⟨.integer, .integer n⟩ (.leaf (tag .number "right") (.integer n))
  | string {s : String} : Value (.ofText .string s) (.leaf (tag .string "right") (.text s))
  | coreVariable {t : Token} {x : Item} : Variable "right" t x → Value t x

inductive Assignment : List Token → Item → Prop
  | intro {left op right : Token} {x y : Item} : Target left x → op.kind = .assign →
      Value right y → Assignment [left, op, right]
        (.list (tag .assignment none) [x, .leaf (tag .operator none) (.text "="), y])

/-- Assignments, each with a semicolon after it. -/
inductive Statements : List Token → List Item → Prop
  | nil : Statements [] []
  | cons {ts us : List Token} {closing : Token} {x : Item} {xs : List Item} : Assignment ts x →
      closing.kind = .semicolon → Statements us xs →
      Statements (ts ++ closing :: us)
        (.list (tag .statement none) [x, .bare (tag .terminator none)] :: xs)

inductive Block : List Token → Item → Prop
  | intro {opening closing : Token} {ts : List Token} {xs : List Item} :
      opening.kind = .leftBrace → Statements ts xs → closing.kind = .rightBrace →
      Block (opening :: (ts ++ [closing])) (.bundle (tag .block none) xs)

/-- What may stand between the brackets of a name, and the role it gives. -/
inductive Word : Token → String → Prop
  | identifier {s : String} : Word (.ofText .identifier s) s
  | number {n : Int} : Word ⟨.integer, .integer n⟩ (toString n)
  | string {s : String} : Word (.ofText .string s) s

inductive Name : List Token → String → Prop
  | intro {opening word closing : Token} {role : String} : opening.kind = .leftBracket →
      Word word role → closing.kind = .rightBracket → Name [opening, word, closing] role

inductive Route : List Token → Item → Prop
  | named {word role : String} {kind : NodeKind} {ts us : List Token} {body : Item} :
      NodeKind.ofRouteWord? word = some kind → Name ts role → Block us body →
      Route (.ofText .route word :: (ts ++ us)) (.list (tag kind role) [body])
  | nameless {word : String} {kind : NodeKind} {us : List Token} {body : Item} :
      NodeKind.ofRouteWord? word = some kind → kind ≠ .route → Block us body →
      Route (.ofText .route word :: us) (.list (tag kind none) [body])

/-- What stands before the block of a route, and the kind and the role that it gives: a word and the
name that the word asks for, or may have. -/
inductive Header : List Token → NodeKind → Option String → Prop
  | named {word role : String} {kind : NodeKind} {ts : List Token} :
      NodeKind.ofRouteWord? word = some kind → Name ts role →
      Header (.ofText .route word :: ts) kind (some role)
  | nameless {word : String} {kind : NodeKind} :
      NodeKind.ofRouteWord? word = some kind → kind ≠ .route →
      Header [.ofText .route word] kind none

inductive TopLevel : List Token → Item → Prop
  | fileStarter {name : String} : name ∈ dialects →
      TopLevel [.ofText .directive name] (.leaf (tag .fileStarter none) (.text name))
  | assignment {ts : List Token} {x : Item} : Assignment ts x → TopLevel ts x
  | closedAssignment {ts : List Token} {closing : Token} {x : Item} : Assignment ts x →
      closing.kind = .semicolon → TopLevel (ts ++ [closing]) x
  | route {ts : List Token} {x : Item} : Route ts x → TopLevel ts x

inductive TopLevels : List Token → List Item → Prop
  | nil : TopLevels [] []
  | cons {ts us : List Token} {x : Item} {xs : List Item} : TopLevel ts x → TopLevels us xs →
      TopLevels (ts ++ us) (.list (tag .topLevel none) [x] :: xs)

inductive Script : List Token → Item → Prop
  | intro {ts : List Token} {xs : List Item} : TopLevels ts xs →
      Script (ts ++ [.endOfInput])
        (.list (tag .root none) (xs ++ [.bare (tag .endOfInput none)]))

/-! ## No mistakes -/

variable {t : Token} {ts : List Token} {x : Item} {xs : List Item} {role : String}

open Item

theorem Variable.clean (h : Variable role t x) : x.Clean := by
  cases h <;> simp [tag]

theorem Target.clean (h : Target t x) : x.Clean := by
  cases h with
  | identifier => simp [tag]
  | coreVariable h => exact h.clean

theorem Value.clean (h : Value t x) : x.Clean := by
  cases h with
  | number | string => simp [tag]
  | coreVariable h => exact h.clean

theorem Assignment.clean (h : Assignment ts x) : x.Clean := by
  cases h with
  | intro hx _ hy => simp [tag, hx.clean, hy.clean]

theorem Statements.clean (h : Statements ts xs) : ∀ x ∈ xs, x.Clean := by
  induction h with
  | nil => simp
  | cons hx _ _ ih => exact List.forall_mem_cons.2 ⟨by simp [tag, hx.clean], ih⟩

theorem Block.clean (h : Block ts x) : x.Clean := by
  cases h with
  | intro _ hxs _ => exact clean_bundle.2 ⟨by simp [tag], hxs.clean⟩

theorem Route.clean (h : Route ts x) : x.Clean := by
  cases h with
  | named hword _ hbody | nameless hword _ hbody =>
    have hroute := NodeKind.outcome_of_isRoute (NodeKind.isRoute_ofRouteWord? hword)
    exact clean_list.2 ⟨NodeKind.ne_error_of_outcome hroute,
      List.forall_mem_singleton.2 hbody.clean⟩

theorem TopLevel.clean (h : TopLevel ts x) : x.Clean := by
  cases h with
  | fileStarter => simp [tag]
  | assignment h | closedAssignment h => exact h.clean
  | route h => exact h.clean

theorem TopLevels.clean (h : TopLevels ts xs) : ∀ x ∈ xs, x.Clean := by
  induction h with
  | nil => simp
  | cons hx _ ih => exact List.forall_mem_cons.2 ⟨by simp [tag, hx.clean], ih⟩

theorem Script.clean (h : Script ts x) : x.Clean := by
  cases h with
  | intro hxs =>
    refine clean_list.2 ⟨by simp [tag], List.forall_mem_append.2 ⟨hxs.clean, ?_⟩⟩
    simp [tag]

theorem Header.kind_ne_error {kind : NodeKind} {role : Option String} (h : Header ts kind role) :
    kind ≠ .error := by
  cases h with
  | named hword | nameless hword =>
    exact NodeKind.ne_error_of_outcome
      (NodeKind.outcome_of_isRoute (NodeKind.isRoute_ofRouteWord? hword))

/-- A route is a header and a block. -/
theorem Route.exists_header (h : Route ts x) : ∃ hs us kind role body, Header hs kind role ∧
    Block us body ∧ ts = hs ++ us ∧ x = .list (tag kind role) [body] := by
  cases h with
  | named hword hname hbody => exact ⟨_, _, _, _, _, .named hword hname, hbody, rfl, rfl⟩
  | nameless hword hne hbody => exact ⟨_, _, _, _, _, .nameless hword hne, hbody, rfl, rfl⟩

/-- No construct starts with a semicolon. -/
theorem TopLevel.head_ne_semicolon (h : TopLevel ts x) :
    ∃ t us, ts = t :: us ∧ t.kind ≠ .semicolon := by
  have hassignment : ∀ {ts : List Token} {x : Item}, Assignment ts x →
      ∃ t us, ts = t :: us ∧ t.kind ≠ .semicolon := by
    rintro ts x ⟨hleft, -, -⟩
    refine ⟨_, _, rfl, ?_⟩
    cases hleft with
    | identifier => simp [Token.ofText]
    | coreVariable h => cases h <;> simp
  cases h with
  | fileStarter => exact ⟨_, _, rfl, by simp [Token.ofText]⟩
  | assignment h => exact hassignment h
  | closedAssignment h =>
    obtain ⟨t, us, rfl, ht⟩ := hassignment h
    exact ⟨t, _, rfl, ht⟩
  | route h => cases h <;> exact ⟨_, _, rfl, by simp [Token.ofText]⟩

end RouteScript.Grammar.Derives
