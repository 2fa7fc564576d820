import RouteScript.ByteRange
import RouteScript.Diagnostic
import RouteScript.Grammar.Atom
import RouteScript.Grammar.Restart
import RouteScript.Grammar.Route
import RouteScript.Grammar.Rule
import RouteScript.Grammar.State
import RouteScript.Grammar.Statement
import RouteScript.Json
import RouteScript.Location
import RouteScript.Number.Binary64
import RouteScript.Number.Shortest
import RouteScript.Parse
import RouteScript.Proofs.Accepted
import RouteScript.Proofs.Blamed
import RouteScript.Proofs.Blanks
import RouteScript.Proofs.Budget
import RouteScript.Proofs.Containment
import RouteScript.Proofs.Continued
import RouteScript.Proofs.Described
import RouteScript.Proofs.Drawn
import RouteScript.Proofs.Exported
import RouteScript.Proofs.Grammar.Agree
import RouteScript.Proofs.Grammar.Ahead
import RouteScript.Proofs.Grammar.Blame
import RouteScript.Proofs.Grammar.Braces
import RouteScript.Proofs.Grammar.Brackets
import RouteScript.Proofs.Grammar.Combine
import RouteScript.Proofs.Grammar.Complete
import RouteScript.Proofs.Grammar.Contract
import RouteScript.Proofs.Grammar.Cut
import RouteScript.Proofs.Grammar.Derivation
import RouteScript.Proofs.Grammar.Elsewhere
import RouteScript.Proofs.Grammar.Failure
import RouteScript.Proofs.Grammar.Faults
import RouteScript.Proofs.Grammar.Found
import RouteScript.Proofs.Grammar.InStep
import RouteScript.Proofs.Grammar.Kept
import RouteScript.Proofs.Grammar.Level
import RouteScript.Proofs.Grammar.Loops
import RouteScript.Proofs.Grammar.Nested
import RouteScript.Proofs.Grammar.Placed
import RouteScript.Proofs.Grammar.Reading
import RouteScript.Proofs.Grammar.Rising
import RouteScript.Proofs.Grammar.Rounds
import RouteScript.Proofs.Grammar.Run
import RouteScript.Proofs.Grammar.Schema
import RouteScript.Proofs.Grammar.Sound
import RouteScript.Proofs.Grammar.Steady
import RouteScript.Proofs.Landing
import RouteScript.Proofs.Language
import RouteScript.Proofs.Layered
import RouteScript.Proofs.Layout
import RouteScript.Proofs.Lines
import RouteScript.Proofs.Lookup
import RouteScript.Proofs.Parsed
import RouteScript.Proofs.Positions
import RouteScript.Proofs.Ranges
import RouteScript.Proofs.Recovered
import RouteScript.Proofs.Reported
import RouteScript.Proofs.Text.Utf8
import RouteScript.Proofs.Token.Answered
import RouteScript.Proofs.Token.Detached
import RouteScript.Proofs.Token.Gap
import RouteScript.Proofs.Token.Head
import RouteScript.Proofs.Token.Laid
import RouteScript.Proofs.Token.Lexeme
import RouteScript.Proofs.Token.Numeral
import RouteScript.Proofs.Token.Passed
import RouteScript.Proofs.Token.Piecewise
import RouteScript.Proofs.Token.Scanned
import RouteScript.Proofs.Token.Settled
import RouteScript.Proofs.Token.Spaced
import RouteScript.Proofs.Token.Spelled
import RouteScript.Proofs.Token.Taken
import RouteScript.Proofs.Token.Unmoved
import RouteScript.Proofs.Token.Walked
import RouteScript.Proofs.Tree.Acyclic
import RouteScript.Proofs.Tree.Alike
import RouteScript.Proofs.Tree.Cleared
import RouteScript.Proofs.Tree.Cycles
import RouteScript.Proofs.Tree.Depths
import RouteScript.Proofs.Tree.Edits
import RouteScript.Proofs.Tree.Grow
import RouteScript.Proofs.Tree.Halfway
import RouteScript.Proofs.Tree.Hang
import RouteScript.Proofs.Tree.Kinds
import RouteScript.Proofs.Tree.Likeness
import RouteScript.Proofs.Tree.Links
import RouteScript.Proofs.Tree.Moved
import RouteScript.Proofs.Tree.Named
import RouteScript.Proofs.Tree.Names
import RouteScript.Proofs.Tree.Offspring
import RouteScript.Proofs.Tree.Reached
import RouteScript.Proofs.Tree.Rooted
import RouteScript.Proofs.Tree.Stamp
import RouteScript.Proofs.Tree.Trace
import RouteScript.Proofs.Tree.Unranged
import RouteScript.Proofs.Tree.Visits
import RouteScript.Proofs.Tree.Walk
import RouteScript.Proofs.Unreadable
import RouteScript.Proofs.Unseen
import RouteScript.Proofs.Written
import RouteScript.Render.Document
import RouteScript.Render.Expression
import RouteScript.Render.Outline
import RouteScript.Settings.Basic
import RouteScript.Settings.Load
import RouteScript.Settings.Value
import RouteScript.Syntax.Blueprint
import RouteScript.Syntax.Edit
import RouteScript.Syntax.Item
import RouteScript.Syntax.Lookup
import RouteScript.Syntax.NameMap
import RouteScript.Syntax.Node
import RouteScript.Syntax.Tree
import RouteScript.Syntax.TreeError
import RouteScript.Syntax.Walk
import RouteScript.Text.Cased
import RouteScript.Text.Lowercase
import RouteScript.Text.Quoted
import RouteScript.Text.Unprintable
import RouteScript.Text.Utf8
import RouteScript.Token.Basic
import RouteScript.Token.Scan
import RouteScript.Token.ScanError
import RouteScript.Token.Settle
import RouteScript.Toml.Blank
import RouteScript.Toml.Document
import RouteScript.Toml.Draft
import RouteScript.Toml.Moment
import RouteScript.Toml.Quotation
import RouteScript.Toml.Scalar
