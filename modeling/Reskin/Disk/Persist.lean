import Reskin.Disk
import Reskin.PackTree

/-!
# Writing a pack to a disk

The directories of a pack are written before its files, so a file that is a copy of a directory is
merged into a directory of the same name.
-/

namespace Reskin

/-- Writes a file of a pack to a path. -/
def PackFile.persist (path : Path) : PackFile → Disk.Action Unit
  | .text content => Disk.writeFile path content.toUTF8
  | .copy source => do
    if (← get).isDirectory source then Disk.copyDirectory source path
    else Disk.copyFile source path

namespace PackTree

mutual

/-- Writes the contents of a tree into the directory at a path. -/
def persist (path : Path) : PackTree → Disk.Action Unit
  | node files directories => do
    Disk.createDirectories path
    persistAll path directories
    files.forM fun (name, file) => file.persist (path.join name)

/-- Writes directories into the directory at a path. -/
def persistAll (path : Path) : List (String × PackTree) → Disk.Action Unit
  | [] => pure ()
  | (name, tree) :: rest => do
    tree.persist (path.join name)
    persistAll path rest

end

end PackTree

end Reskin
