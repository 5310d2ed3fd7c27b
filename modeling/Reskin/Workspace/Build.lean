import Reskin.Statement.Check
import Reskin.Statement.Reader
import Reskin.Workspace.Convert

/-!
# Building a workspace

Every source file below a directory is read, also after a faulty one, so that all faults of the
first stages are reported together. Names and files are resolved only if there was none.
-/

namespace Reskin

/-- A source file without faults of its own. -/
structure CheckedFile where
  path : Path
  id : FileId
  statements : List Statement

namespace CheckedFile

/-- The statements of a source text, if they break no rule. -/
def statements? (source : String) (id : FileId) : Except (List Diagnostic) (List Statement) :=
  match Statement.readSource source (some id) with
  | .error diagnostic => .error [diagnostic]
  | .ok statements =>
    match Statement.check statements with
    | [] => .ok statements
    | violations => .error violations

/-- Reads and registers one file. -/
def load (files : Files) (sources : Sources) (path : Path) :
    Sources × Reported (Option CheckedFile) :=
  match files.read path with
  | none =>
    (sources, ⟨none,
      [.general (.build (.unreadableFile path "the file could not be opened"))]⟩)
  | some source =>
    let (sources, id) := sources.register ⟨source, some path⟩
    match statements? source id with
    | .ok statements => (sources, ⟨some ⟨path, id, statements⟩, []⟩)
    | .error diagnostics => (sources, ⟨none, diagnostics⟩)

/-- Reads and registers files in order. -/
def loadAll (files : Files) (sources : Sources) :
    List Path → Sources × Reported (List CheckedFile)
  | [] => (sources, ⟨[], []⟩)
  | path :: paths =>
    let (sources, first) := load files sources path
    let (sources, rest) := loadAll files sources paths
    (sources, ⟨first.value.toList ++ rest.value, first.diagnostics ++ rest.diagnostics⟩)

end CheckedFile

namespace Workspace

/-- The workspace of files without faults of their own. -/
def resolve (files : Files) (root : Path) (checked : List CheckedFile) : Reported Workspace := do
  let resolution ← Resolution.ofFiles (checked.map CheckedFile.statements)
  let sources ← Reported.gather (checked.zip resolution.locals) fun (file, locals) => do
    let env : Environment := ⟨files, root, locals, resolution.globals⟩
    let rules ← Reported.gather file.statements env.fileRules
    return [⟨file.path, file.id, root, locals, rules⟩]
  return ⟨root, resolution.globals, sources⟩

/-- The workspace of the source files below `root`, which is only there if no error was reported.
The files are registered in `sources`. -/
def build (files : Files) (extension : String) (sources : Sources) (root : Path) :
    Sources × Reported (Option Workspace) :=
  match files.sources root extension with
  | .error reason => (sources, ⟨none, [.general (.build (.invalidInputDirectory root reason))]⟩)
  | .ok [] => (sources, ⟨some ⟨root, {}, []⟩, []⟩)
  | .ok paths =>
    let (sources, checked) := CheckedFile.loadAll files sources paths
    if hasErrors checked.diagnostics then (sources, ⟨none, checked.diagnostics⟩)
    else
      let resolved := resolve files root checked.value
      let diagnostics := checked.diagnostics ++ resolved.diagnostics
      (sources, ⟨if hasErrors diagnostics then none else some resolved.value, diagnostics⟩)

end Workspace

end Reskin
