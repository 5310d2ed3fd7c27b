import Reskin.CommandLine
import Reskin.Diagnostic.Report
import Reskin.Disk.Snapshot

/-!
# The program

The files that a compilation looks at are loaded into a snapshot, the compilation runs on it, and
its output directory is written back.
-/

namespace Reskin.Main

def usage : String :=
  "Usage: reskin compile [OPTIONS] <INPUT> <OUTPUT>\n\n" ++
  "Compiles every source file of a directory into a resource pack\n\n" ++
  "Options:\n" ++
  "      --mc-version <VERSION>      Generate a pack.mcmeta for this minecraft version\n" ++
  "      --description <TEXT>        The description of the pack.mcmeta\n" ++
  "      --keep-output               Do not delete the output directory before\n" ++
  "  -v, --verbose                   Print debug output\n" ++
  "  -h, --help                      Print help\n" ++
  "  -V, --version                   Print version"

def refusalMessage : CommandLine.Refusal → String
  | .helpRequested | .noArguments => usage
  | .versionRequested => "reskin 0.1.0"
  | .missingCommand => "error: a command is required\n\n" ++ usage
  | .unknownCommand => "error: unknown command\n\n" ++ usage
  | .missingPath => "error: <INPUT> and <OUTPUT> are required\n\n" ++ usage
  | .unknownArgument => "error: unexpected argument\n\n" ++ usage
  | .invalidValue => "error: a value is required\n\n" ++ usage
  | .unwantedValue => "error: unexpected value\n\n" ++ usage
  | .repeatedOption => "error: an option was given twice\n\n" ++ usage

/-- Reads a file, or a directory with everything in it. Links to directories are left out. -/
partial def loadEntry (entry : IO.FS.DirEntry) : IO DiskEntry := do
  if ← entry.path.isDir then
    let mut entries := []
    for child in ← entry.path.readDir do
      let isLink := (← child.path.symlinkMetadata).type == .symlink
      unless isLink && (← child.path.isDir) do
        entries := (child.fileName, ← loadEntry child) :: entries
    return .directory entries
  else return .file (← IO.FS.readBinFile entry.path)

def load (disk : Disk) (path : Path) : IO Disk := do
  let entry : IO.FS.DirEntry := ⟨".", path.text⟩
  if ← entry.path.pathExists then return disk.withEntry path (← loadEntry entry)
  else return disk

/-- Writes everything below a path. -/
def store (disk : Disk) (path : Path) : IO Unit := do
  IO.FS.createDirAll path.text
  for (names, entry) in disk.listing path do
    let target := (names.foldl Path.join path).text
    match entry with
    | .directory _ => IO.FS.createDirAll target
    | .file content => IO.FS.writeBinFile target content

/-- Runs a compilation. What it looked for outside the input directory is loaded for a second
run. -/
def runOn (request : CommandLine.Request) (disk : Disk) :
    IO (Disk × Except Failure Compiler.Run) := do
  let (after, outcome) := request.run disk
  match outcome with
  | .ok ⟨_, _, .error (.faulty diagnostics)⟩ =>
    match diagnostics.flatMap fun diagnostic => diagnostic.cause.soughtPaths with
    | [] => return (after, outcome)
    | sought => return request.run (← sought.foldlM load disk)
  | _ => return (after, outcome)

/-- Writes back what a compilation did to its output directory. -/
def storeOutput (request : CommandLine.Request) (disk : Disk) : IO Unit := do
  if disk.isDirectory request.output then
    unless request.keepOutput do
      let output : IO.FS.DirEntry := ⟨".", request.output.text⟩
      if ← output.path.isDir then IO.FS.removeDirAll output.path
    store disk request.output

/-- Tells how a compilation ended. -/
def announce (sources : Sources) (result : Except Failure (List Diagnostic)) : IO Unit := do
  match result with
  | .ok [] => pure ()
  | .ok warnings => IO.eprintln (Report.renderAll true sources warnings)
  | .error (.faulty diagnostics) =>
    IO.eprintln (Report.renderAll true sources diagnostics)
    IO.eprintln (Failure.faulty diagnostics).message
  | .error failure => IO.eprintln failure.message

def compile (request : CommandLine.Request) : IO Nat := do
  let start := Disk.atDirectory ⟨(← IO.currentDir).toString⟩
  let disk ← [request.input, request.output].foldlM load start
  let (disk, outcome) ← runOn request disk
  match outcome with
  | .error failure => IO.eprintln failure.message
  | .ok run =>
    match run.result with
    | .error (.faulty _) => pure ()
    | _ => storeOutput request disk
    announce run.compiler.sources run.result
  return CommandLine.exitCode outcome

end Reskin.Main

def main (arguments : List String) : IO UInt32 := do
  match Reskin.CommandLine.parse ("reskin" :: arguments) with
  | .error refusal =>
    if refusal.exitCode = 0 then IO.println (Reskin.Main.refusalMessage refusal)
    else IO.eprintln (Reskin.Main.refusalMessage refusal)
    return UInt32.ofNat refusal.exitCode
  | .ok request => return UInt32.ofNat (← Reskin.Main.compile request)
