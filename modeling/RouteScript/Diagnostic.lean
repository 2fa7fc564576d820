import RouteScript.Location
import RouteScript.Syntax.Walk
/-!
# Diagnostics

Mistakes do not end a parse; they stay in the tree where they were met. A diagnostic is such a
mistake as a host shows it, with lines and columns in place of byte offsets.
-/
namespace RouteScript

/-- How much a diagnostic matters. -/
inductive Severity where
  | error | warning | information | hint
  deriving DecidableEq, Inhabited

/-- A severity as a message shows it. -/
def Severity.name : Severity → String
  | .error => "error"
  | .warning => "warning"
  | .information => "info"
  | .hint => "hint"

/-- Something to tell about a source, and where in it. -/
structure Diagnostic where
  message : String
  span : Option Span
  severity : Severity
  deriving DecidableEq

/-- A diagnostic in one line. -/
def Diagnostic.display (d : Diagnostic) : String :=
  d.severity.name ++ ": " ++ d.message ++
    match d.span with
    | some s => " at " ++ s.start.display
    | none => ""

/-- The diagnostic of a node that records a mistake. -/
def Node.diagnostic (n : Node) (lines : LineTable) : Diagnostic :=
  ⟨n.message?.getD "", n.range.map lines.span, .error⟩

/-- One diagnostic for each mistake of a tree, in the order of the source. The tree must have been
read from that source. -/
def Tree.diagnostics (t : Tree) (source : List UInt8) : List Diagnostic :=
  let lines := LineTable.ofSource source
  t.errors.map fun id => (t.node id).diagnostic lines

end RouteScript
