import Reskin.Compiler.Output
import Reskin.Text.Split

/-!
# The command line

The command line has one command, `compile`, with two paths and a few options. Arguments are read
one after the other. A value is taken over only when the next argument, or the end, shows that it is
complete, so a fault of a later argument can come before that of an earlier value.
-/

namespace Reskin.CommandLine

/-- Why the arguments give no command to run. -/
inductive Refusal where
  | helpRequested
  | versionRequested
  | noArguments
  | missingCommand
  | unknownCommand
  | missingPath
  | unknownArgument
  | invalidValue
  | unwantedValue
  | repeatedOption
deriving DecidableEq, Inhabited, Repr

/-- The exit code of a refusal. Only a request for information is a success. -/
def Refusal.exitCode : Refusal → Nat
  | helpRequested | versionRequested => 0
  | _ => 2

/-- What `compile` was told. -/
structure Options where
  verbose : Bool := false
  keepOutput : Bool := false
  version : Option String := none
  description : Option String := none
  input : Option String := none
  output : Option String := none
deriving DecidableEq, Inhabited, Repr

inductive ValueOption where
  | version
  | description
deriving DecidableEq, Inhabited, Repr

inductive Flag where
  | verbose
  | keepOutput
deriving DecidableEq, Inhabited, Repr

/-- What is known of a value that is not taken over yet. An unknown argument is refused before it
is, any other argument takes it over first. -/
inductive Pending where
  | nothing
  | awaiting (option : ValueOption)
  | value (option : ValueOption) (text : String)
  | path (text : String)
deriving DecidableEq, Inhabited, Repr

/-- An argument by its form. -/
inductive Argument where
  /-- The mark after which no options follow. -/
  | separator
  | long (name : String) (value : Option String)
  | short (letters : List Char)
  | plain (text : String)
deriving DecidableEq, Inhabited, Repr

/-- The form of an argument. A single hyphen is a plain argument. -/
def Argument.ofText (text : String) : Argument :=
  match text.toList with
  | ['-', '-'] => separator
  | '-' :: '-' :: rest =>
    match Text.splitFirst '=' rest with
    | some (name, value) => long (String.ofList name) (some (String.ofList value))
    | none => long (String.ofList rest) none
  | '-' :: c :: rest => short (c :: rest)
  | _ => plain text

namespace Options

/-- Sets a flag, which must not be set already. -/
def setFlag (options : Options) : Flag → Except Refusal Options
  | .verbose =>
    if options.verbose then .error .repeatedOption else .ok { options with verbose := true }
  | .keepOutput =>
    if options.keepOutput then .error .repeatedOption else .ok { options with keepOutput := true }

/-- Sets an option, which must not be set already. -/
def setValue (options : Options) (option : ValueOption) (text : String) :
    Except Refusal Options :=
  match option with
  | .version =>
    if options.version.isSome then .error .repeatedOption
    else .ok { options with version := some text }
  | .description =>
    if options.description.isSome then .error .repeatedOption
    else .ok { options with description := some text }

/-- Takes over a pending value. A path must not be empty. -/
def settle (options : Options) : Pending → Except Refusal Options
  | .nothing => .ok options
  | .awaiting _ => .error .invalidValue
  | .value option text => options.setValue option text
  | .path text =>
    if text = "" then .error .invalidValue
    else if options.input.isNone then .ok { options with input := some text }
    else .ok { options with output := some text }

end Options

/-- The state in which the arguments of `compile` are read. -/
structure Reader where
  options : Options := {}
  pending : Pending := .nothing
  /-- The number of paths so far. -/
  paths : Nat := 0
  /-- Whether the separator was read. -/
  separated : Bool := false

namespace Reader

def settle (reader : Reader) : Except Refusal Reader := do
  let options ← reader.options.settle reader.pending
  return { reader with options := options, pending := .nothing }

def flag (reader : Reader) (flag : Flag) : Except Refusal Reader := do
  let reader ← reader.settle
  let options ← reader.options.setFlag flag
  return { reader with options := options }

def option (reader : Reader) (option : ValueOption) (value : Option String) :
    Except Refusal Reader := do
  let reader ← reader.settle
  match value with
  | none => return { reader with pending := .awaiting option }
  | some text =>
    let options ← reader.options.setValue option text
    return { reader with options := options }

/-- Refuses after the pending value. -/
def refuse (reader : Reader) (refusal : Refusal) : Except Refusal Reader := do
  let _ ← reader.settle
  throw refusal

/-- Reads an option by its long name. -/
def long (reader : Reader) (name : String) (value : Option String) : Except Refusal Reader :=
  match name, value with
  | "mc-version", value => reader.option .version value
  | "description", value => reader.option .description value
  | "verbose", none => reader.flag .verbose
  | "keep-output", none => reader.flag .keepOutput
  | "help", none => reader.refuse .helpRequested
  | "verbose", some _ | "keep-output", some _ | "help", some _ => .error .unwantedValue
  | _, _ => .error .unknownArgument

def short (reader : Reader) : List Char → Except Refusal Reader
  | [] => .ok reader
  | 'v' :: rest => do
    let reader ← reader.flag .verbose
    reader.short rest
  | 'h' :: _ => reader.refuse .helpRequested
  | _ :: _ => .error .unknownArgument

/-- Reads a path. There are two of them. -/
def path (reader : Reader) (text : String) : Except Refusal Reader :=
  if reader.paths < 2 then do
    let reader ← reader.settle
    return { reader with pending := .path text, paths := reader.paths + 1 }
  else .error .unknownArgument

def step (reader : Reader) (text : String) : Except Refusal Reader :=
  if reader.separated then reader.path text
  else
    match Argument.ofText text, reader.pending with
    | .separator, _ => .ok { reader with separated := true }
    | .long name value, _ => reader.long name value
    | .short letters, _ => reader.short letters
    | .plain text, .awaiting option => .ok { reader with pending := .value option text }
    | .plain text, _ => reader.path text

def run (reader : Reader) : List String → Except Refusal Reader
  | [] => reader.settle
  | text :: rest => do
    let reader ← reader.step text
    reader.run rest

end Reader

/-- A compilation that the command line asks for. -/
structure Request where
  input : Path
  output : Path
  version : Option String
  description : Option String
  keepOutput : Bool
deriving DecidableEq, Inhabited, Repr

/-- The compilation that some options ask for. -/
def Request.ofOptions (options : Options) : Except Refusal Request :=
  match options.input, options.output with
  | some input, some output =>
    .ok ⟨⟨input⟩, ⟨output⟩, options.version, options.description, options.keepOutput⟩
  | _, _ => .error .missingPath

def parseCompile (arguments : List String) : Except Refusal Request := do
  let reader ← Reader.run {} arguments
  Request.ofOptions reader.options

/-- Reads what follows `help`: the name of a command, or nothing. -/
def parseHelp : List String → Refusal
  | [] | ["compile"] | ["help"] => .helpRequested
  | _ => .unknownCommand

/-- Reads letters in front of a command. -/
def parseLetters (verbose : Bool) : List Char → Except Refusal Bool
  | [] => .ok verbose
  | 'v' :: rest => if verbose then .error .repeatedOption else parseLetters true rest
  | 'h' :: _ => .error .helpRequested
  | 'V' :: _ => .error .versionRequested
  | _ :: _ => .error .unknownArgument

/-- Reads an option in front of a command by its long name. -/
def parseLong (verbose : Bool) (name : String) (value : Option String) : Except Refusal Bool :=
  match name, value with
  | "verbose", none => if verbose then .error .repeatedOption else .ok true
  | "help", none => .error .helpRequested
  | "version", none => .error .versionRequested
  | "verbose", some _ | "help", some _ | "version", some _ => .error .unwantedValue
  | _, _ => .error .unknownArgument

/-- Reads the arguments in front of a command, and the command. -/
def parseCommand (verbose separated : Bool) : List String → Except Refusal Request
  | [] => .error (if verbose then .missingCommand else .noArguments)
  | text :: rest =>
    let isCommand := text = "compile" || text = "help"
    if separated then .error (if isCommand then .unknownArgument else .unknownCommand)
    else if text = "compile" then parseCompile rest
    else if text = "help" then .error (parseHelp rest)
    else
      match Argument.ofText text with
      | .separator => parseCommand verbose true rest
      | .long name value =>
        match parseLong verbose name value with
        | .ok verbose => parseCommand verbose separated rest
        | .error refusal => .error refusal
      | .short letters =>
        match parseLetters verbose letters with
        | .ok verbose => parseCommand verbose separated rest
        | .error refusal => .error refusal
      | .plain _ => .error .unknownCommand

/-- Reads all arguments, of which the first one is the name of the program. -/
def parse (arguments : List String) : Except Refusal Request :=
  parseCommand false false (arguments.drop 1)

/-- The settings of a compilation. -/
def Request.config (request : Request) : Except Failure Config :=
  let base : Config := {}
  let config := { base with
    cleanOutput := !request.keepOutput
    description := request.description.getD base.description }
  match request.version with
  | some version => config.forVersion version
  | none => .ok config

def Request.run (request : Request) (disk : Disk) : Disk × Except Failure Compiler.Run :=
  match request.config with
  | .error failure => (disk, .error failure)
  | .ok config =>
    let run := (Compiler.mk config {}).compileTo disk request.input request.output
    (run.disk, .ok run)

def exitCode : Except Failure Compiler.Run → Nat
  | .error _ => 1
  | .ok run =>
    match run.result with
    | .ok _ => 0
    | .error _ => 1

end Reskin.CommandLine
