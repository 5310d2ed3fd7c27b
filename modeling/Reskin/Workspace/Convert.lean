import Reskin.Files
import Reskin.Statement
import Reskin.Text.Integer
import Reskin.Variable.Resolution
import Reskin.Workspace

/-!
# From statements to rules

The names and files that a statement refers to are resolved, and what cannot be found is reported
at the text that refers to it. A texture or model may be written without its extension.
-/

namespace Reskin

/-- Runs a step for each element and puts the results together. -/
def Reported.gather {α β : Type} (xs : List α) (f : α → Reported (List β)) : Reported (List β) :=
  let results := xs.map f
  ⟨results.flatMap Reported.value, results.flatMap Reported.diagnostics⟩

/-- What a statement can refer to: the files below a directory, and variables. -/
structure Environment where
  files : Files
  root : Path
  locals : Variables
  globals : Variables

namespace Environment

/-- The value of a variable: that of the file itself, else the global one. -/
def lookup (env : Environment) (name : String) : Option String :=
  (env.locals.get? name <|> env.globals.get? name).map Variable.value

/-- The text that a literal stands for, with its references replaced. -/
def resolve (env : Environment) (token : Token) : Reported String :=
  ⟨Interpolation.fill env.lookup token.value,
    (Interpolation.unresolved env.lookup token.value).map fun name =>
      .located (.build (.unresolvedVariable name)) token.location⟩

/-- The diagnostic of a file that cannot be found. -/
def missing (env : Environment) (kind : AssetKind) (path : String) (token : Token) : Diagnostic :=
  .located (.build (.missingAsset kind path env.root)) token.location

/-! ## Assets -/

/-- A path with an extension, which is only added if it is not there. -/
def withExtension (path extension : String) : String :=
  if (Path.mk path).hasExtension extension then path else path ++ "." ++ extension

/-- The file that a path without or with its extension means. The empty path means none. -/
def findAsset? (env : Environment) (path extension : String) : Option String :=
  [withExtension path extension, path].find? fun candidate =>
    path ≠ "" && env.files.isFile (env.root.join candidate)

/-- The file that a literal names. -/
def resolveAsset (env : Environment) (kind : AssetKind) (extension : String) (token : Token) :
    Reported String := do
  let path ← env.resolve token
  match env.findAsset? path extension with
  | some found => return found
  | none =>
    Reported.report (env.missing kind path token)
    return withExtension path extension

def resolveTexture (env : Environment) (token : Token) : Reported String :=
  env.resolveAsset .texture "png" token

def resolveModel (env : Environment) (token : Token) : Reported String :=
  env.resolveAsset .model "json" token

/-! ## Statements -/

def copyEntry (env : Environment) (pair : CopyPair) : Reported CopyEntry := do
  let source ← env.resolve pair.source
  Reported.reportIf (source = "" || !env.files.present (env.root.join source))
    (env.missing .copySource source pair.source)
  let destination ← env.resolve pair.destination
  return ⟨source, destination, pair.source⟩

/-- The rules of a listing for the target `kind`. The keys are the identifiers in front of a
statement. -/
def listingRules (env : Environment) (kind : RuleKind) (mapAll : Option MapAll) :
    List Token → List Statement → Reported (List Rule)
  | keys, .identifiers first rest :: more =>
    listingRules env kind mapAll (Token.addNew keys (first :: rest)) more
  | keys, .predicate assignment :: more => do
    let texture ← env.resolveTexture assignment.value
    let rules ← listingRules env kind mapAll keys more
    return .entry ⟨assignment.key, texture, kind⟩ :: rules
  | keys, .model assignment :: more => do
    let model ← env.resolveModel assignment.value
    let rules ← listingRules env kind mapAll keys more
    return .model keys model assignment.value :: rules
  | keys, _ :: more => listingRules env kind mapAll keys more
  | keys, [] =>
    match mapAll with
    | none => return []
    | some mapAll => do
      let texture ← env.resolveTexture mapAll.value
      return [.mapAll kind keys texture mapAll.value]

def useRules (env : Environment) : Statement → Reported (List Rule)
  | .setAll target assignment => do
    let texture ← env.resolveTexture assignment.value
    return [.setAll (.target target) texture assignment.value]
  | .listing target _ body mapAll => env.listingRules (.target target) mapAll [] body
  | _ => return []

/-- What a statement contributes to the block it stands in. -/
inductive BlockPart where
  | condition (entry : Entry)
  | weight (weight : Int)

def BlockPart.condition? : BlockPart → Option Entry
  | condition entry => some entry
  | weight _ => none

def BlockPart.weight? : BlockPart → Option Int
  | condition _ => none
  | weight n => some n

/-- What a statement contributes to the block it stands in. A weight that is not an integer is
reported and left out. -/
def blockParts (env : Environment) : Statement → Reported (List BlockPart)
  | .predicate assignment => do
    let value ← env.resolve assignment.value
    return [.condition ⟨assignment.key, value, .condition⟩]
  | .weight assignment => do
    let text ← env.resolve assignment.value
    match Text.int32? text.toList with
    | some weight => return [.weight weight]
    | none =>
      Reported.report (.located (.build (.invalidWeight text)) assignment.value.location)
      return []
  | _ => return []

def scopeRules (env : Environment) : ForScope → Reported (List Rule)
  | .missing => return []
  | .present _ body => Reported.gather body env.useRules

/-- The block that starts with `keyword`. The last weight counts. -/
def block (env : Environment) (keyword : Token) (body : List Statement) (uses : ForScope) :
    Reported Block := do
  let parts ← Reported.gather body env.blockParts
  let rules ← env.scopeRules uses
  let weight := ((parts.filterMap BlockPart.weight?).getLast?).getD 0
  return ⟨parts.filterMap BlockPart.condition?, rules, weight, keyword⟩

def fileRules (env : Environment) : Statement → Reported (List Rule)
  | .matchBlock keyword body uses => do
    let block ← env.block keyword body uses
    return [block.toRule]
  | .anyBlock keyword uses => do
    let block ← env.block keyword [] uses
    return [block.toRule]
  | .copy _ pairs => do
    let entries ← Reported.gather pairs fun pair => do
      let entry ← env.copyEntry pair
      return [entry]
    return [.copy entries]
  | _ => return []

end Environment

end Reskin
