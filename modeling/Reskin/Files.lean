import Reskin.Path

/-!
# A view of files

What a compilation needs to know about files: their texts, whether they exist, and which of them
are source files.
-/

namespace Reskin

structure Files where
  /-- The text of a file. -/
  read : Path → Option String
  /-- Whether there is a file or a directory. -/
  present : Path → Bool
  /-- Whether there is a file. -/
  isFile : Path → Bool
  /-- The files below a directory that have an extension, in ascending order, or the reason why the
  directory cannot be searched. -/
  sources : Path → String → Except String (List Path)

end Reskin
