/-!
# Settings of a compilation
-/

namespace Reskin

structure Config where
  /-- The description in `pack.mcmeta`. -/
  description : String := "Generated by RePack"
  /-- The format in `pack.mcmeta`; without it the file is not written. -/
  packFormat : Option Nat := none
  /-- The extension of source files. -/
  extension : String := "rep"
  /-- Whether the output directory is removed before the pack is written. -/
  cleanOutput : Bool := true
deriving DecidableEq, Inhabited, Repr

end Reskin
