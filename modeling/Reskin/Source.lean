import Reskin.Path
import Reskin.Text.Lines

/-!
# Source files and places in them

Lines and columns are counted from one, in characters. A location names a stretch of one line of a
registered file; `Location.markedRange` is the part of that stretch which the line really has.
-/

namespace Reskin

/-- The number of a registered source file. -/
abbrev FileId := Nat

/-- A place in a text while it is read. -/
structure Position where
  line : Nat := 1
  column : Nat := 1
deriving DecidableEq, Inhabited, Repr

namespace Position

def advance (position : Position) (c : Char) : Position :=
  if c = '\n' then ⟨position.line + 1, 1⟩ else ⟨position.line, position.column + 1⟩

def advanceAll (position : Position) (cs : List Char) : Position :=
  cs.foldl advance position

end Position

/-- A stretch of characters in one line of a source file. -/
structure Location where
  file : Option FileId
  line : Nat
  column : Nat
  length : Nat
deriving DecidableEq, Inhabited, Repr

namespace Location

/-- First character and end of the stretch, counted from zero, in a line of `lineLength`
characters. At least one character is marked unless the line is empty. -/
def markedRange (location : Location) (lineLength : Nat) : Nat × Nat :=
  if lineLength = 0 then (0, 0)
  else
    let start := min (location.column - 1) (lineLength - 1)
    (start, min (start + max location.length 1) lineLength)

end Location

/-- A text that takes part in a compilation, with the path it was read from. -/
structure SourceFile where
  text : String
  path : Option Path
deriving DecidableEq, Inhabited, Repr

/-- The line with the given number, without its line break. -/
def SourceFile.line? (file : SourceFile) (number : Nat) : Option String :=
  (Text.line? file.text.toList number).map String.ofList

/-- The registered files; a file's number is its place in the list. -/
structure Sources where
  files : List SourceFile := []
deriving DecidableEq, Inhabited, Repr

namespace Sources

/-- Registers one more file and gives it the next number. -/
def register (sources : Sources) (file : SourceFile) : Sources × FileId :=
  (⟨sources.files ++ [file]⟩, sources.files.length)

def get? (sources : Sources) (id : FileId) : Option SourceFile :=
  sources.files[id]?

end Sources

end Reskin
