import RouteScript.Number.Shortest
import RouteScript.Settings.Basic
import RouteScript.Text.Quoted
import RouteScript.Toml.Document
/-!
# Loading settings

Settings are put together from layers over the built-in defaults: texts and files in the order
they were given, then values set by path, which win over all of them. Only then are the merged
values read as options, and a value that is not of the right sort but can be taken for it is.
-/
namespace RouteScript

/-- One layer of settings. -/
inductive Layer where
  /-- The text of a document. -/
  | document (text : String)
  /-- A file by its contents, if there is one; a file that is `required` has to be there. -/
  | file (required : Bool) (contents : Option String)
  /-- A value for a path. -/
  | override (path : String) (v : Value)

/-- Why settings cannot be loaded. -/
inductive SettingsError where
  | badPath
  | badDocument
  | missingFile
  /-- The value of a setting is of the wrong sort. -/
  | wrongValue (found expected key : String)
  /-- A whole section is of the wrong sort. -/
  | wrongSection (found expected : String)
  /-- A section given as an array is too short. -/
  | tooShort (length : Nat) (expected : String)
  | missingField (name : String)
  deriving DecidableEq

/-- The error as a reader sees it; those that are told by their cause alone have no text. -/
def SettingsError.message : SettingsError → String
  | .wrongValue found expected key =>
    "invalid type: " ++ found ++ ", expected " ++ expected ++ " for key `" ++ key ++ "`"
  | .wrongSection found expected => "invalid type: " ++ found ++ ", expected " ++ expected
  | .tooShort length expected => "invalid length " ++ toString length ++ ", expected " ++ expected
  | .missingField name => "missing field `" ++ name ++ "`"
  | .badPath | .badDocument | .missingFile => ""

namespace Value

/-- A value that is neither a truth value nor a number, as an error names it. -/
def description : Value → String
  | .nil => "unit value"
  | .boolean b => "boolean `" ++ toString b ++ "`"
  | .integer n => "integer `" ++ toString n ++ "`"
  | .float x => "floating point `" ++ x.display ++ "`"
  | .string s => "string " ++ Text.quoted s
  | .array _ => "sequence"
  | .table _ => "map"

/-- The words for yes. -/
def yesWords : List String := ["true", "on", "yes"]

/-- The words for no. -/
def noWords : List String := ["false", "off", "no"]

/-- A value taken for yes or no: numbers by whether they are zero, words whatever their case. -/
def toBoolean (key : String) : Value → Except SettingsError Bool
  | .boolean b => .ok b
  | .integer n => .ok (n ≠ 0)
  | .float x => .ok (!x.isZero)
  | .string s =>
    let word := Text.lower s
    if word = "1" ∨ word ∈ yesWords then .ok true
    else if word = "0" ∨ word ∈ noWords then .ok false
    else .error (.wrongValue (description (.string word)) "a boolean" key)
  | v => .error (.wrongValue v.description "a boolean" key)

/-- The count that digits write, a plus sign before them allowed. -/
def countOfDigits? (s : String) : Option Nat :=
  let digits := match s.toList with
    | '+' :: cs => cs
    | cs => cs
  if digits.isEmpty ∨ !digits.all Char.isDigit then none
  else
    let n := Toml.digitsValue 10 digits
    if n ≤ Word64.unsignedMax then some n else none

/-- A value taken for a count: numbers rounded and cut to the range, words for one and zero, and
digits. -/
def toCount (key : String) : Value → Except SettingsError Nat
  | .boolean b => .ok b.toNat
  | .integer n =>
    if 0 ≤ n then .ok n.toNat
    else .error (.wrongValue ("64-bit integer `" ++ toString n ++ "`")
      "an unsigned 64 bit or less integer" key)
  | .float x => .ok (x.toNat Word64.unsignedMax)
  | .string s =>
    if Text.lower s ∈ yesWords then .ok 1
    else if Text.lower s ∈ noWords then .ok 0
    else match countOfDigits? s with
      | some n => .ok n
      | none => .error (.wrongValue (description (.string s)) "an integer" key)
  | v => .error (.wrongValue v.description "an integer" key)

/-- The value of a field, wherever its section keeps it, and the key that errors name it by. -/
def field? (sectionName name : String) (i : Nat) : Value → Option (Value × String)
  | .array xs => (xs[i]?).map (·, sectionName ++ "[" ++ toString i ++ "]")
  | v => (v.entries.lookup name).map (·, sectionName ++ "." ++ name)

/-- What is said of a section that lacks the field `name`, its `i`-th. -/
def lacking (typeName name : String) (i count : Nat) : Value → SettingsError
  | .array _ =>
    .tooShort i ("struct " ++ typeName ++ " with " ++ toString count ++
      if count = 1 then " element" else " elements")
  | _ => .missingField name

/-- Checks that a section is a table, or an array of its fields in order. -/
def checkSection (typeName : String) : Value → Except SettingsError Unit
  | .table _ | .array _ => .ok ()
  | v => .error (.wrongSection v.description ("struct " ++ typeName))

/-- The section `lexer`. -/
def toScanOptions (v : Value) : Except SettingsError ScanOptions := do
  v.checkSection "LexerOptions"
  match v.field? "lexer" "recover_illegal_characters" 0 with
  | some (x, key) => return ⟨← x.toBoolean key⟩
  | none => .error (v.lacking "LexerOptions" "recover_illegal_characters" 0 1)

/-- The section `parser`. A field that is there is read before one that is not is missed. -/
def toParseOptions (v : Value) : Except SettingsError ParseOptions := do
  v.checkSection "ParserOptions"
  let recover ← (v.field? "parser" "recover" 0).mapM fun (x, key) => x.toBoolean key
  let maxErrors ← (v.field? "parser" "max_errors" 1).mapM fun (x, key) => x.toCount key
  match recover, maxErrors with
  | some recover, some maxErrors => return ⟨recover, maxErrors⟩
  | none, _ => .error (v.lacking "ParserOptions" "recover" 0 2)
  | _, none => .error (v.lacking "ParserOptions" "max_errors" 1 2)

end Value

namespace Settings

/-- The settings that the layers lie on. -/
def defaultDocument : String :=
  "[lexer]\nrecover_illegal_characters = false\n[parser]\nrecover = true\nmax_errors = 64\n"

/-- Merges a document. Its keys at the top level are paths, unless they cannot be read as such. -/
def mergeDocument (root : Value) (text : String) : Except SettingsError Value :=
  match Toml.document? text with
  | none => .error .badDocument
  | some es => .ok (es.foldl (fun root (key, v) => mergeEntry root key v) root)
where
  /-- Merges one entry of a document. -/
  mergeEntry (root : Value) (key : String) (v : Value) : Value :=
    match Value.path? key with
    | some path => root.setPath v path
    | none => root.setName key v

/-- Merges a layer that is a source of its own. -/
def mergeSource (root : Value) : Layer → Except SettingsError Value
  | .document text => mergeDocument root text
  | .file _ (some text) => mergeDocument root text
  | .file true none => .error .missingFile
  | .file false none | .override _ _ => .ok root

/-- The values set by path, in the order they were given. -/
def overrides : List Layer → Except SettingsError (List (List Value.Step × Value))
  | [] => .ok []
  | .override path v :: rest =>
    match Value.path? path with
    | none => .error .badPath
    | some steps => (overrides rest).map ((steps, v) :: ·)
  | _ :: rest => overrides rest

/-- All layers as one value. -/
def mergeLayers (layers : List Layer) : Except SettingsError Value := do
  let overrides ← overrides layers
  let root ← (Layer.document defaultDocument :: layers).foldlM mergeSource (.table [])
  return overrides.foldl (fun root (steps, v) => root.setPath v steps) root

/-- The settings that a value holds. -/
def ofValue (root : Value) : Except SettingsError Settings := do
  let scan ← (root.entries.lookup "lexer").mapM Value.toScanOptions
  let parse ← (root.entries.lookup "parser").mapM Value.toParseOptions
  match scan, parse with
  | some scan, some parse => return ⟨scan, parse⟩
  | none, _ => .error (.missingField "lexer")
  | _, none => .error (.missingField "parser")

/-- The settings of the layers. -/
def load (layers : List Layer) : Except SettingsError Settings := mergeLayers layers >>= ofValue

end Settings
end RouteScript
