import Reskin.Diagnostic

/-!
# Failures of a compilation
-/

namespace Reskin

/-- Why no pack was written. -/
inductive Failure where
  | faulty (diagnostics : List Diagnostic)
  | unknownVersion (version : String)
  | cleanOutput (path : Path) (reason : String)
  | persist (path : Path) (reason : String)
deriving DecidableEq, Inhabited, Repr

def Failure.message : Failure → String
  | faulty diagnostics =>
    "Compilation failed with " ++ toString (errorCount diagnostics) ++ " error(s)"
  | unknownVersion version => "Unknown minecraft version '" ++ version ++ "'"
  | cleanOutput path reason =>
    "Could not remove the old output directory '" ++ path.text ++ "': " ++ reason
  | persist path reason => "Could not write the pack to '" ++ path.text ++ "': " ++ reason

end Reskin
