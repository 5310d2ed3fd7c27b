import Reskin.Path

/-!
# The tree of a pack

A pack is put together as a tree of directories before anything is written. A file is a text, or a
copy of a file or directory of the input. Paths into the tree are separated by `/`; empty segments
do not count, except that the name of a new file may be empty.
-/

namespace Reskin

inductive PackFile where
  | text (text : String)
  | copy (source : Path)
deriving DecidableEq, Repr

instance : Inhabited PackFile := ⟨.text ""⟩

/-- Appends to a text. A copy is replaced by the appended text. -/
def PackFile.append : PackFile → String → PackFile
  | text old, new => text (old ++ new)
  | copy _, new => text new

/-- A directory of a pack: its files and its directories, by name. -/
inductive PackTree where
  | node (files : List (String × PackFile)) (directories : List (String × PackTree))

namespace PackTree

def empty : PackTree :=
  node [] []

instance : Inhabited PackTree := ⟨empty⟩

def files : PackTree → List (String × PackFile)
  | node files _ => files

def directories : PackTree → List (String × PackTree)
  | node _ directories => directories

/-- Changes the entry with the given name, or adds it at the end. -/
def updateEntry {α : Type} (name : String) (f : Option α → α) :
    List (String × α) → List (String × α)
  | [] => [(name, f none)]
  | (known, value) :: rest =>
    if known = name then (known, f (some value)) :: rest
    else (known, value) :: updateEntry name f rest

/-- The non-empty segments of a path. -/
def segments (path : String) : List String :=
  ((Text.splitAll '/' path.toList).filter fun segment => !segment.isEmpty).map String.ofList

/-- The directory and the name of a file at a path. -/
def splitPath (path : String) : List String × String :=
  match Text.splitLast '/' path.toList with
  | some (parent, name) => (segments (String.ofList parent), String.ofList name)
  | none => ([], path)

/-! ## Changes -/

/-- Changes the directory at a path, which is created if it is not there. -/
def modifyDirectory (f : PackTree → PackTree) : List String → PackTree → PackTree
  | [], tree => f tree
  | name :: rest, node files directories =>
    node files
      (updateEntry name (fun known => modifyDirectory f rest (known.getD empty)) directories)

/-- Changes the file with the given name, which starts as an empty text. -/
def modifyFile (name : String) (f : PackFile → PackFile) : PackTree → PackTree
  | node files directories =>
    node (updateEntry name (fun known => f (known.getD default)) files) directories

/-- Changes the file at a path, which is created with its directories if it is not there. -/
def modifyAt (tree : PackTree) (path : String) (f : PackFile → PackFile) : PackTree :=
  let (parent, name) := splitPath path
  modifyDirectory (modifyFile name f) parent tree

def insertAt (tree : PackTree) (path : String) (file : PackFile) : PackTree :=
  tree.modifyAt path fun _ => file

def createDirectory (tree : PackTree) (path : String) : PackTree :=
  modifyDirectory id (segments path) tree

/-! ## Look-up -/

def directory? : List String → PackTree → Option PackTree
  | [], tree => some tree
  | name :: rest, tree => (tree.directories.lookup name).bind (directory? rest)

def get? (tree : PackTree) (path : String) : Option PackFile :=
  match (segments path).reverse with
  | [] => none
  | name :: parents => (directory? parents.reverse tree).bind fun parent => parent.files.lookup name

/-- The file that a change at a path concerns, whose name may be empty. -/
def fileAt? (tree : PackTree) (path : String) : Option PackFile :=
  let (parent, name) := splitPath path
  (directory? parent tree).bind fun found => found.files.lookup name

def contains (tree : PackTree) (path : String) : Bool :=
  (tree.get? path).isSome

inductive Element where
  | file (file : PackFile)
  | directory (tree : PackTree)

/-- What the segments lead to. A file hides a directory of the same name. -/
def resolve? : List String → PackTree → Option Element
  | [], tree => some (.directory tree)
  | name :: rest, tree =>
    match tree.files.lookup name with
    | some file => if rest.isEmpty then some (.file file) else none
    | none => (tree.directories.lookup name).bind (resolve? rest)

mutual

def fileCount : PackTree → Nat
  | node files directories => files.length + fileCountAll directories

def fileCountAll : List (String × PackTree) → Nat
  | [] => 0
  | (_, tree) :: rest => tree.fileCount + fileCountAll rest

end

end PackTree

end Reskin
