import RouteScript.Settings.Value
/-!
# Tables that grow

While a document is read its tables are drafts, which remember how they came to be: that decides
what may still be added to them, and where.
-/
namespace RouteScript.Toml

/-- How a table came to be. -/
inductive Origin where
  /-- By its own header. -/
  | header
  /-- On the way to the header of a table inside it. -/
  | implied
  /-- On the way to a value with a dotted key. -/
  | dotted
  deriving DecidableEq

/-- Something in a table: a value that is done, a table that may still grow, or the tables that
headers in double brackets opened one after the other, of which the last may still grow. -/
inductive Draft where
  | value (v : Value)
  | table (origin : Origin) (entries : List (String × Draft))
  | tables (former : List (List (String × Draft))) (last : List (String × Draft))

/-- The entries of a growing table. -/
abbrev Entries := List (String × Draft)

/-- Entries with one name bound anew, in the place it had or else at the end. -/
def bindEntry (name : String) (d : Draft) : Entries → Entries
  | [] => [(name, d)]
  | e :: es => if e.1 = name then (name, d) :: es else e :: bindEntry name d es

/-- Binds a dotted key to a value. No key is bound twice; a dotted key makes the tables on its way,
and the table that the value goes into has to be made so. It may pass through tables that other
headers imply, but not through one that has its own. -/
def bindKey? (v : Value) : List String → Entries → Option Entries
  | [], _ => none
  | [name], es => if (es.lookup name).isSome then none else some (bindEntry name (.value v) es)
  | name :: next :: rest, es =>
    match es.lookup name with
    | none =>
      (bindKey? v (next :: rest) []).map fun inner => bindEntry name (.table .dotted inner) es
    | some (.table origin inner) =>
      if origin = .dotted ∨ (origin = .implied ∧ !rest.isEmpty) then
        (bindKey? v (next :: rest) inner).map fun inner => bindEntry name (.table origin inner) es
      else none
    | some (.tables former last) =>
      if rest.isEmpty then none
      else (bindKey? v (next :: rest) last).map fun last => bindEntry name (.tables former last) es
    | some (.value _) => none

/-- Opens something at the end of a path of table names: `change` says what becomes of the entry
that is there. The tables on the way are implied if they are not there. -/
def openAt? (change : Option Draft → Option Draft) : List String → Entries → Option Entries
  | [], _ => none
  | [name], es => (change (es.lookup name)).map fun d => bindEntry name d es
  | name :: rest, es =>
    match es.lookup name with
    | none => (openAt? change rest []).map fun inner => bindEntry name (.table .implied inner) es
    | some (.table origin inner) =>
      (openAt? change rest inner).map fun inner => bindEntry name (.table origin inner) es
    | some (.tables former last) =>
      (openAt? change rest last).map fun last => bindEntry name (.tables former last) es
    | some (.value _) => none

/-- Opens a table under a header. No table is opened twice, and none that a dotted key made. -/
def openTable? : List String → Entries → Option Entries :=
  openAt? fun
    | none => some (.table .header [])
    | some (.table .implied inner) => some (.table .header inner)
    | some _ => none

/-- Opens one more table under a header in double brackets. -/
def openNext? : List String → Entries → Option Entries :=
  openAt? fun
    | none => some (.tables [] [])
    | some (.tables former last) => some (.tables (former ++ [last]) [])
    | some _ => none

/-- Changes the table of a header that was opened before. -/
def within? (change : Entries → Option Entries) : List String → Entries → Option Entries
  | [], es => change es
  | name :: rest, es =>
    match es.lookup name with
    | some (.table origin inner) =>
      (within? change rest inner).map fun inner => bindEntry name (.table origin inner) es
    | some (.tables former last) =>
      (within? change rest last).map fun last => bindEntry name (.tables former last) es
    | _ => none

mutual

/-- A finished draft. -/
def Draft.toValue : Draft → Value
  | .value v => v
  | .table _ es => .table (entriesToValues es)
  | .tables former last => .array (tablesToValues former ++ [.table (entriesToValues last)])

/-- The values of finished entries. -/
def entriesToValues : List (String × Draft) → List (String × Value)
  | [] => []
  | (name, d) :: rest => (name, d.toValue) :: entriesToValues rest

/-- The values of finished tables. -/
def tablesToValues : List (List (String × Draft)) → List Value
  | [] => []
  | es :: rest => .table (entriesToValues es) :: tablesToValues rest

end

end RouteScript.Toml
