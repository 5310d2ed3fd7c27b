import Reskin.Compiler
import Reskin.Disk.Persist

/-!
# Compilation on a disk

The pack is written only if the whole compilation succeeded. An output directory that is there is
removed before, unless it is to be kept.
-/

namespace Reskin.Compiler

/-- Runs an operation on a disk and turns its fault into a failure. -/
def attempt (disk : Disk) (action : Disk.Action Unit) (failure : String → Failure) :
    Disk × Except Failure Unit :=
  match action.run.run disk with
  | (.ok _, disk) => (disk, .ok ())
  | (.error fault, disk) => (disk, .error (failure fault.message))

def writePack (config : Config) (disk : Disk) (output : Path) (pack : PackTree) :
    Disk × Except Failure Unit :=
  let (disk, cleaned) :=
    if config.cleanOutput && disk.isDirectory output then
      attempt disk (Disk.removeDirectory output) (.cleanOutput output)
    else (disk, .ok ())
  match cleaned with
  | .error failure => (disk, .error failure)
  | .ok _ => attempt disk (pack.persist output) (.persist output)

/-- What a compilation to a directory leaves behind. -/
structure Run where
  compiler : Compiler
  disk : Disk
  /-- The warnings of a compilation that succeeded. -/
  result : Except Failure (List Diagnostic)

/-- Compiles the source files below `input` and writes the pack to `output`. -/
def compileTo (compiler : Compiler) (disk : Disk) (input output : Path) : Run :=
  let (compiler, compiled) := compiler.compile disk.view input
  match compiled.value with
  | none => ⟨compiler, disk, .error (.faulty compiled.diagnostics)⟩
  | some pack =>
    match writePack compiler.config disk output pack with
    | (disk, .ok _) => ⟨compiler, disk, .ok compiled.diagnostics⟩
    | (disk, .error failure) => ⟨compiler, disk, .error failure⟩

end Reskin.Compiler
