import Reskin.Diagnostic
import Reskin.Disk
import Reskin.Workspace.Convert

/-!
# Snapshots

A snapshot is a disk that holds only what a compilation looks at. It is put together from entries
that were loaded one by one, and what was looked for in vain tells which entries may be missing.
-/

namespace Reskin

/-- Puts an entry below a directory, with all directories that lead there. -/
def DiskEntry.graft (entry : DiskEntry) : List String → DiskEntry → DiskEntry
  | [], _ => entry
  | name :: rest, target =>
    let entries := match target with
      | .directory entries => entries
      | .file _ => []
    .directory (alterNamed name
      (fun known => some (entry.graft rest (known.getD (.directory [])))) entries)

namespace Disk

/-- The address that the segments of a path name, whether or not it is there. -/
def nominalAddress (disk : Disk) (path : Path) : List String :=
  let (origin, segments) := disk.start path
  segments.foldl
    (fun address segment =>
      if segment = [] || segment = ['.'] then address
      else if segment = ['.', '.'] then address.dropLast
      else address ++ [String.ofList segment])
    origin

/-- A disk with nothing but a working directory. -/
def atDirectory (path : Path) : Disk :=
  let address := nominalAddress ⟨.directory [], []⟩ path
  ⟨(DiskEntry.directory []).graft address (.directory []), address⟩

/-- The disk with an entry at a path. -/
def withEntry (disk : Disk) (path : Path) (entry : DiskEntry) : Disk :=
  { disk with root := entry.graft (disk.nominalAddress path) disk.root }

end Disk

/-- The paths at which a missing asset was looked for. -/
def Cause.soughtPaths : Cause → List Path
  | .build (.missingAsset kind path root) =>
    let names := match kind with
      | .texture => [Environment.withExtension path "png", path]
      | .model => [Environment.withExtension path "json", path]
      | .copySource => [path]
    names.map root.join
  | _ => []

end Reskin
