import Reskin.Text.Split

/-!
# Paths

A path is kept as it was written. Two paths are compared by their components: repeated and trailing
separators do not matter, and neither does a `.` that is not the first segment. A `..` is a
component of its own and is never resolved here.
-/

namespace Reskin

/-- A path as it was written, with `/` between its segments. -/
structure Path where
  text : String
deriving DecidableEq, Inhabited, Repr

namespace Path

/-- One step of a path. -/
inductive Component where
  | root
  | current
  | parent
  | name (text : String)
deriving DecidableEq, Inhabited, Repr

namespace Component

/-- The root sorts before `.`, that before `..`, and names come last. -/
def rank : Component → Nat
  | root => 0
  | current => 1
  | parent => 2
  | name _ => 3

/-- The written form of a component. The root is the empty segment in front of the first `/`. -/
def segment : Component → String
  | root => ""
  | current => "."
  | parent => ".."
  | name text => text

/-- Components are ordered by rank, names among themselves by their characters. -/
def order (a b : Component) : Ordering :=
  (compare a.rank b.rank).then (compare a.segment b.segment)

/-- The component of a segment after the first one, if it counts. -/
def ofSegment? (segment : List Char) : Option Component :=
  if segment = [] || segment = ['.'] then none
  else if segment = ['.', '.'] then some parent
  else some (name (String.ofList segment))

end Component

def components (path : Path) : List Component :=
  match Text.splitAll '/' path.text.toList with
  | [] :: next :: rest => .root :: (next :: rest).filterMap Component.ofSegment?
  | ['.'] :: rest => .current :: rest.filterMap Component.ofSegment?
  | segments => segments.filterMap Component.ofSegment?

/-- Whether two spellings name the same path. -/
def same (a b : Path) : Bool :=
  a.components = b.components

/-- Whether `path` is `base` or lies below it. Every path lies below the empty one. -/
def startsWith (path base : Path) : Bool :=
  base.components.isPrefixOf path.components

/-- Lexicographic order of component lists. -/
def orderComponents : List Component → List Component → Ordering
  | [], [] => .eq
  | [], _ :: _ => .lt
  | _ :: _, [] => .gt
  | a :: as, b :: bs => (a.order b).then (orderComponents as bs)

/-- Paths are ordered by their components. -/
def order (a b : Path) : Ordering :=
  orderComponents a.components b.components

/-- The order as a test, for sorting. -/
def le (a b : Path) : Bool :=
  (a.order b).isLE

/-- The last component, if it is a name. -/
def fileName? (path : Path) : Option String :=
  match path.components.getLast? with
  | some (.name text) => some text
  | _ => none

/-- The part of the file name after its last `.`, unless nothing stands in front of that `.`. -/
def extension? (path : Path) : Option String :=
  match path.fileName? with
  | none => none
  | some name =>
    match Text.splitLast '.' name.toList with
    | some (_ :: _, ending) => some (String.ofList ending)
    | _ => none

def hasExtension (path : Path) (extension : String) : Bool :=
  path.extension? = some extension

/-- The path that `path` names when seen from `base`. A path that starts at the root replaces the
base. -/
def join (base : Path) (path : String) : Path :=
  if path.toList.head? = some '/' then ⟨path⟩
  else if base.text.toList.getLast?.all (· == '/') then ⟨base.text ++ path⟩
  else ⟨base.text ++ "/" ++ path⟩

def ofComponents : List Component → Path
  | [.root] => ⟨"/"⟩
  | components => ⟨"/".intercalate (components.map Component.segment)⟩

/-- The paths of all proper beginnings of some components that are given last first. The root and
the empty path have no parent. -/
def parentsOf : List Component → List Path
  | [] | .root :: _ => []
  | _ :: before => ofComponents before.reverse :: parentsOf before

/-- The parent of a path, its parent, and so on. -/
def parents (path : Path) : List Path :=
  parentsOf path.components.reverse

end Path

end Reskin
