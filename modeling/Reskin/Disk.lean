import Reskin.Files

/-!
# Disks

A disk is a tree of directories and files with a working directory. A path is followed segment by
segment: empty segments and `.` stay where they are, `..` goes up, and everything but the last
segment has to be a directory. So a path that ends in `/` never names a file.
-/

namespace Reskin

/-- Why an operation on a disk fails. -/
inductive DiskFault where
  | notFound
  | alreadyExists
  | notDirectory
  | isDirectory
  | invalidArgument
  | notEmpty
deriving DecidableEq, Inhabited, Repr

def DiskFault.message : DiskFault → String
  | notFound => "No such file or directory (os error 2)"
  | alreadyExists => "File exists (os error 17)"
  | notDirectory => "Not a directory (os error 20)"
  | isDirectory => "Is a directory (os error 21)"
  | invalidArgument => "Invalid argument (os error 22)"
  | notEmpty => "Directory not empty (os error 39)"

/-- A file or directory of a disk. -/
inductive DiskEntry where
  | file (content : ByteArray)
  | directory (entries : List (String × DiskEntry))

instance : Inhabited DiskEntry := ⟨.directory []⟩

namespace DiskEntry

def isDirectory : DiskEntry → Bool
  | file _ => false
  | directory _ => true

def content? : DiskEntry → Option ByteArray
  | file content => some content
  | directory _ => none

/-- The entry below a directory. -/
def get? : List String → DiskEntry → Option DiskEntry
  | [], entry => some entry
  | name :: rest, directory entries => (entries.lookup name).bind (get? rest)
  | _ :: _, file _ => none

/-- Changes, adds or removes the entry with the given name. -/
def alterNamed (name : String) (f : Option DiskEntry → Option DiskEntry) :
    List (String × DiskEntry) → List (String × DiskEntry)
  | [] => ((f none).map fun entry => (name, entry)).toList
  | (known, entry) :: rest =>
    if known = name then ((f (some entry)).map fun entry => (known, entry)).toList ++ rest
    else (known, entry) :: alterNamed name f rest

/-- Changes, adds or removes the entry below a directory. Nothing changes if its directory is not
there. -/
def alter (f : Option DiskEntry → Option DiskEntry) : List String → DiskEntry → DiskEntry
  | [], entry => (f (some entry)).getD (directory [])
  | [name], directory entries => directory (alterNamed name f entries)
  | name :: rest, directory entries =>
    directory (alterNamed name (fun entry => entry.map (alter f rest)) entries)
  | _ :: _, file content => file content

mutual

/-- Everything below an entry, with the names that lead there. A directory comes before what is in
it. -/
def listing (names : List String) : DiskEntry → List (List String × DiskEntry)
  | file _ => []
  | directory entries => listingAll names entries

/-- The given entries and everything below them. -/
def listingAll (names : List String) :
    List (String × DiskEntry) → List (List String × DiskEntry)
  | [] => []
  | (name, entry) :: rest =>
    (names ++ [name], entry) :: (listing (names ++ [name]) entry ++ listingAll names rest)

end

end DiskEntry

/-- A tree of directories and files with a working directory. -/
structure Disk where
  root : DiskEntry
  workingDirectory : List String

namespace Disk

/-- A disk with an empty working directory. -/
def blank : Disk :=
  ⟨.directory [("work", .directory [])], ["work"]⟩

/-! ## Following paths -/

/-- Follows segments from an address. -/
def follow (disk : Disk) : List String → List (List Char) → Except DiskFault (List String)
  | address, [] => .ok address
  | address, segment :: rest =>
    match disk.root.get? address with
    | none => .error .notFound
    | some (.file _) => .error .notDirectory
    | some (.directory entries) =>
      if segment = [] || segment = ['.'] then follow disk address rest
      else if segment = ['.', '.'] then follow disk address.dropLast rest
      else if (entries.lookup (String.ofList segment)).isSome then
        follow disk (address ++ [String.ofList segment]) rest
      else .error .notFound

/-- Where a path starts, and its segments. -/
def start (disk : Disk) (path : Path) : List String × List (List Char) :=
  match Text.splitAll '/' path.text.toList with
  | [] :: rest => ([], rest)
  | segments => (disk.workingDirectory, segments)

/-- The address of a path. The empty path leads nowhere. -/
def address (disk : Disk) (path : Path) : Except DiskFault (List String) :=
  if path.text = "" then .error .notFound
  else
    let (origin, segments) := disk.start path
    disk.follow origin segments

def find? (disk : Disk) (path : Path) : Option DiskEntry :=
  match disk.address path with
  | .ok address => disk.root.get? address
  | .error _ => none

def isDirectory (disk : Disk) (path : Path) : Bool :=
  (disk.find? path).any DiskEntry.isDirectory

def content? (disk : Disk) (path : Path) : Option ByteArray :=
  (disk.find? path).bind DiskEntry.content?

/-- Everything below a path, with the names that lead there. -/
def listing (disk : Disk) (path : Path) : List (List String × DiskEntry) :=
  ((disk.find? path).map (DiskEntry.listing [])).getD []

/-! ## The view of a compilation -/

/-- The paths below `root` of all files that are there. -/
def filesBelow (disk : Disk) (root : Path) : List Path :=
  (disk.listing root).filterMap fun (names, entry) =>
    if entry.isDirectory then none else some (names.foldl Path.join root)

/-- The disk as a view of files. Only texts can be read. -/
def view (disk : Disk) : Files where
  read path := (disk.content? path).bind String.fromUTF8?
  present path := (disk.find? path).isSome
  isFile path := (disk.content? path).isSome
  sources root extension :=
    if disk.isDirectory root then
      let found := (disk.filesBelow root).filter fun path => path.hasExtension extension
      .ok (found.mergeSort Path.le)
    else .error ("'" ++ root.text ++ "' is not a directory")

/-! ## Changes -/

/-- An operation that may change a disk and fail. What was changed before a failure stays. -/
abbrev Action := ExceptT DiskFault (StateM Disk)

/-- Fails with the fault of a result. -/
def Action.ofExcept {α : Type} (result : Except DiskFault α) : Action α :=
  match result with
  | .ok value => pure value
  | .error fault => throw fault

def put (address : List String) (entry : DiskEntry) : Action Unit :=
  modify fun disk => { disk with root := disk.root.alter (fun _ => some entry) address }

/-- What a path names, which need not be there. -/
inductive Place where
  /-- A name in a directory. -/
  | named (directory : List String) (name : String) (trailing : Bool)
  /-- A directory that is named by `.` or `..`, or the root. -/
  | special

/-- The segments of a path without the empty ones at its end, and whether there were any. -/
def withoutTrailing (segments : List (List Char)) : List (List Char) × Bool :=
  let kept := (segments.reverse.dropWhile List.isEmpty).reverse
  (kept, kept.length < segments.length)

/-- The place that a path names. Its directory has to be there. -/
def place (disk : Disk) (path : Path) : Except DiskFault Place := do
  if path.text = "" then throw .notFound
  let (origin, segments) := disk.start path
  let (kept, trailing) := withoutTrailing segments
  match kept.getLast? with
  | none => return .special
  | some name =>
    let address ← disk.follow origin kept.dropLast
    match disk.root.get? address with
    | none => throw .notFound
    | some (.file _) => throw .notDirectory
    | some (.directory _) =>
      if name = ['.'] || name = ['.', '.'] then return .special
      else return .named address (String.ofList name) trailing

/-- Creates a directory in a directory that is there. -/
def createDirectory (path : Path) : Action Unit := do
  let disk ← get
  match ← Action.ofExcept (disk.place path) with
  | .special => throw .alreadyExists
  | .named directory name _ =>
    if (disk.root.get? (directory ++ [name])).isSome then throw .alreadyExists
    put (directory ++ [name]) (.directory [])

/-- Creates the first of some paths, of which each one is the parent of the one before. -/
def createChain : List Path → Action Unit
  | [] => pure ()
  | path :: parents => do
    if path.components.isEmpty then return
    try createDirectory path
    catch
      | .notFound => do
        createChain parents
        try createDirectory path
        catch fault =>
          if (← get).isDirectory path then pure () else throw fault
      | fault => if (← get).isDirectory path then pure () else throw fault

/-- Creates a directory with all its parents. -/
def createDirectories (path : Path) : Action Unit :=
  createChain (path :: path.parents)

/-- The address at which a file can be written: a name in a directory that is there, and not that of
a directory itself. -/
def fileAddress (disk : Disk) (path : Path) : Except DiskFault (List String) := do
  match ← disk.place path with
  | .special => throw .isDirectory
  | .named directory name trailing =>
    let address := directory ++ [name]
    if trailing || (disk.root.get? address).any DiskEntry.isDirectory then throw .isDirectory
    return address

def writeFile (path : Path) (content : ByteArray) : Action Unit := do
  let address ← Action.ofExcept ((← get).fileAddress path)
  put address (.file content)

/-- Writes a file and creates its directory with all parents. -/
def createFile (path : Path) (content : ByteArray) : Action Unit := do
  match path.parents with
  | [] => pure ()
  | parent :: _ => createDirectories parent
  writeFile path content

/-- Copies a file. The target is emptied before the source is read. -/
def copyFile (source target : Path) : Action Unit := do
  let origin ← Action.ofExcept ((← get).address source)
  writeFile target ByteArray.empty
  match (← get).root.get? origin with
  | some (.file content) => writeFile target content
  | _ => throw .isDirectory

/-- Copies everything below a directory. -/
def copyDirectory (source target : Path) : Action Unit := do
  createDirectories (target.join "")
  match (← get).find? source with
  | none => throw .notFound
  | some entry =>
    (entry.listing []).forM fun (names, entry) =>
      let destination := target.join ("/".intercalate names)
      if entry.isDirectory then createDirectories destination
      else copyFile (names.foldl Path.join source) destination

/-- Removes a directory with everything in it. It cannot be removed by a path that ends in `.` or
`..`, but it is emptied. -/
def removeDirectory (path : Path) : Action Unit := do
  let address ← Action.ofExcept ((← get).address path)
  put address (.directory [])
  match ← Action.ofExcept ((← get).place path) with
  | .named _ _ _ =>
    modify fun disk => { disk with root := disk.root.alter (fun _ => none) address }
  | .special =>
    if path.components.getLast? = some .parent then throw .notEmpty else throw .invalidArgument

end Disk

end Reskin
