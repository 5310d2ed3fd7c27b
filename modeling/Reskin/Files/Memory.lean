import Reskin.Files

/-!
# Files in memory

A pool of files with their texts. A path is looked up by its components; adding a file that is there
already replaces its text and keeps the spelling of its path. A directory is there as long as some
file lies below it.
-/

namespace Reskin

/-- A pool of files. -/
structure MemoryFiles where
  entries : List (Path × String) := []
deriving Inhabited

namespace MemoryFiles

def put (path : Path) (text : String) : List (Path × String) → List (Path × String)
  | [] => [(path, text)]
  | (known, old) :: rest =>
    if known.same path then (known, text) :: rest else (known, old) :: put path text rest

def add (files : MemoryFiles) (path : Path) (text : String) : MemoryFiles :=
  ⟨put path text files.entries⟩

/-- A pool with the given files, added in order. -/
def ofList (files : List (Path × String)) : MemoryFiles :=
  files.foldl (fun pool (path, text) => pool.add path text) {}

def read (files : MemoryFiles) (path : Path) : Option String :=
  (files.entries.find? fun (known, _) => known.same path).map Prod.snd

/-- The paths below a directory that have an extension, in ascending order. -/
def sources (files : MemoryFiles) (root : Path) (extension : String) : List Path :=
  ((files.entries.map Prod.fst).filter fun path =>
    path.startsWith root && path.hasExtension extension).mergeSort Path.le

def view (files : MemoryFiles) : Files where
  read := files.read
  present path := files.entries.any fun (known, _) => known.startsWith path
  isFile path := (files.read path).isSome
  sources root extension := .ok (files.sources root extension)

end MemoryFiles

end Reskin
