import RouteScript.Text.Quoted
/-!
# Scan errors

A scan that fails yields no tokens, only the cause of the failure and the byte offset where it
lies.
-/
namespace RouteScript

/-- Why a source cannot be scanned. -/
inductive ScanError.Cause where
  /-- A byte that nothing starts with, and the text that follows from it on. -/
  | illegalByte (byte : UInt8) (context : String)
  /-- A core variable whose name is not closed. -/
  | unterminatedVariable
  /-- An integer beyond 64 bits, in the digits it is written with. -/
  | integerTooLarge (digits : String)
  deriving DecidableEq

/-- A failed scan. -/
structure ScanError where
  cause : ScanError.Cause
  /-- The offset of the first byte of what could not be read. -/
  position : Nat
  deriving DecidableEq

/-- The error as a reader sees it. -/
def ScanError.message (e : ScanError) : String :=
  let place := toString e.position
  match e.cause with
  | .illegalByte byte context =>
    "illegal character '" ++ Text.escapedByte byte ++ "' at byte " ++ place ++ ", near `" ++
      context ++ "`"
  | .unterminatedVariable => "unterminated core variable at byte " ++ place
  | .integerTooLarge digits =>
    "integer literal `" ++ digits ++ "` at byte " ++ place ++ " does not fit in 64 bits"

end RouteScript
