import RouteScript.Token.Scan
/-!
# Settings

All that a reader of scripts may be told beforehand, in one record: how to scan, and how to go about
mistakes. Mistakes do not end a parse by themselves: they are kept in the tree, and the parse goes
on behind them as long as the options allow.
-/
namespace RouteScript

/-- How a parse goes about mistakes. -/
structure ParseOptions where
  /-- Go on after a mistake. -/
  recover : Bool
  /-- The number of mistakes after which the parse ends. -/
  maxErrors : Nat
  deriving DecidableEq, Inhabited

/-- By default a parse goes on after mistakes until it has met 64. -/
def ParseOptions.default : ParseOptions := ⟨true, 64⟩

/-- The options under which the first mistake ends the parse. -/
def ParseOptions.strict : ParseOptions := { ParseOptions.default with recover := false }

/-- The options of a scan and of the parse of what it yields. -/
structure Settings where
  scan : ScanOptions
  parse : ParseOptions
  deriving DecidableEq, Inhabited

/-- The settings that hold where nothing else is said. -/
def Settings.default : Settings := ⟨.default, .default⟩

end RouteScript
