import Reskin.Catalog.Vanilla
import Reskin.Compiler.Failure
import Reskin.Pack
import Reskin.PackFormat
import Reskin.Workspace.Build

/-!
# Compilation

A compiler holds its settings and the source files of all its compilations, so that the diagnostics
of any of them can be shown.
-/

namespace Reskin

/-- A compiler with the files it has read. -/
structure Compiler where
  config : Config
  sources : Sources := {}

/-- The settings with the pack format of a version of the game. -/
def Config.forVersion (config : Config) (version : String) : Except Failure Config :=
  match PackFormat.ofVersion? version with
  | some format => .ok { config with packFormat := some format }
  | none => .error (.unknownVersion version)

namespace Compiler

/-- The workspace of the source files below `root`. -/
def workspace (compiler : Compiler) (files : Files) (root : Path) :
    Compiler × Reported (Option Workspace) :=
  let (sources, result) :=
    Workspace.build files compiler.config.extension compiler.sources root
  ({ compiler with sources := sources }, result)

/-- The pack of the source files below `root`, which is only there if no error was reported. -/
def compile (compiler : Compiler) (files : Files) (root : Path) :
    Compiler × Reported (Option PackTree) :=
  let (compiler, built) := compiler.workspace files root
  match built.value with
  | none => (compiler, ⟨none, built.diagnostics⟩)
  | some workspace =>
    let pack := Pack.ofWorkspace Catalog.vanilla compiler.config workspace
    let diagnostics := built.diagnostics ++ pack.diagnostics
    (compiler, ⟨if hasErrors diagnostics then none else some pack.value, diagnostics⟩)

end Compiler

end Reskin
