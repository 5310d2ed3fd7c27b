import Reskin.Rule
import Reskin.Source
import Reskin.Variable

/-!
# Workspaces

A workspace is what remains of the source files below a directory once all names are resolved.
-/

namespace Reskin

/-- A source file whose names are resolved. -/
structure PackSource where
  path : Path
  id : FileId
  root : Path
  locals : Variables
  rules : List Rule

def PackSource.blocks (source : PackSource) : List Block :=
  source.rules.filterMap Block.ofRule?

/-- All source files below a directory. -/
structure Workspace where
  root : Path
  globals : Variables := {}
  files : List PackSource := []

namespace Workspace

def blocks (workspace : Workspace) : List Block :=
  workspace.files.flatMap PackSource.blocks

def copies (workspace : Workspace) : List CopyEntry :=
  workspace.files.flatMap fun file => file.rules.flatMap fun
    | .copy entries => entries
    | _ => []

end Workspace

end Reskin
