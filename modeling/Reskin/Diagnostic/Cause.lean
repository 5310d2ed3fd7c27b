import Reskin.Path

/-!
# What can go wrong

Each stage of a compilation has its own type of faults. `Cause` puts them together and gives every
one its message and its hints, so that the wording stands in this file alone.
-/

namespace Reskin

/-- Faults of the division into tokens. -/
inductive LexicalFault where
  | unterminatedText
  | newlineInText
  | invalidEscape (sequence : String)
  | unterminatedComment
deriving DecidableEq, Inhabited, Repr

/-- Faults of the arrangement of tokens into statements. -/
inductive GrammarFault where
  | unexpectedToken (got : String) (expected : List String)
  | unexpectedEnd (expected : List String)
  | unclosedScope (opener : String)
  | misplacedChain (keyword after : String)
  | valuesInMappedListing
deriving DecidableEq, Inhabited, Repr

/-- Faults of the placement of statements in scopes. -/
inductive ScopeFault where
  | wrongScope (token statement : String) (allowed : List String)
  | missingChain (scope missing : String)
  | missingTexture
  | ambiguousIdentifiers
deriving DecidableEq, Inhabited, Repr

/-- The kinds of files that a rule refers to. -/
inductive AssetKind where
  | texture
  | model
  | copySource
deriving DecidableEq, Inhabited, Repr

def AssetKind.name : AssetKind → String
  | texture => "texture"
  | model => "model"
  | copySource => "copy source"

/-- Faults of the resolution of names and files. -/
inductive BuildFault where
  | unresolvedVariable (name : String)
  | variableRedefined (name : String)
  | missingAsset (kind : AssetKind) (path : String) (root : Path)
  | invalidWeight (value : String)
  | unreadableFile (path : Path) (reason : String)
  | invalidInputDirectory (path : Path) (reason : String)
deriving DecidableEq, Inhabited, Repr

/-- Everything that can be reported. -/
inductive Cause where
  | lexical (fault : LexicalFault)
  | grammar (fault : GrammarFault)
  | scope (fault : ScopeFault)
  | build (fault : BuildFault)
  /-- A workspace that no source file can give rise to. -/
  | invalidWorkspace (reason : String)
  /-- A key that stands for no item, which does not keep the pack from being made. -/
  | noItemMatches (key : String)
deriving DecidableEq, Inhabited, Repr

/-- Whether a cause keeps the pack from being made. -/
inductive Severity where
  | error
  | warning
deriving DecidableEq, Inhabited, Repr

def Severity.name : Severity → String
  | error => "error"
  | warning => "warning"

/-! ## Wording of lists -/

/-- The items in quotes, with commas between them. -/
def quotedList (items : List String) : String :=
  ", ".intercalate (items.map fun item => "'" ++ item ++ "'")

/-- Says which of the items were expected; `many` introduces more than one. -/
def expectedPhrase (many : String) : List String → String
  | [] => "Did not expect anything"
  | [item] => "Expected " ++ item
  | items => many ++ " (" ++ ", ".intercalate items ++ ")"

def expectedOneOf (items : List String) : String :=
  expectedPhrase "Expected one of" items

/-! ## Messages -/

namespace LexicalFault

def message : LexicalFault → String
  | unterminatedText => "Expected text literal to end, but reached the end of the file"
  | newlineInText => "Expected text literal to end at the same line"
  | invalidEscape sequence => "Invalid escape sequence '" ++ sequence ++ "'"
  | unterminatedComment => "Expected block comment to end, but reached the end of the file"

def hints : LexicalFault → List String
  | unterminatedText | newlineInText =>
    ["All text literals (anything between \" or ') have to end with the same character " ++
      "on the same line"]
  | invalidEscape _ =>
    ["Valid escape sequences are \\n \\t \\b \\f \\r \\\" \\' \\\\, \\uXXXX " ++
      "and a single digit like \\0"]
  | unterminatedComment => ["Block comments have to be closed with '*/'"]

end LexicalFault

namespace GrammarFault

def message : GrammarFault → String
  | unexpectedToken got _ => "Unexpected token '" ++ got ++ "'"
  | unexpectedEnd _ => "Unexpected end of file"
  | unclosedScope opener => "The scope opened by '" ++ opener ++ "' is never closed"
  | misplacedChain keyword _ => "Unexpected token '" ++ keyword ++ "'"
  | valuesInMappedListing => "Expected an identifier list, not a map of predicates and values"

def hints : GrammarFault → List String
  | unexpectedToken _ expected | unexpectedEnd expected =>
    if expected.isEmpty then [] else [expectedOneOf expected]
  | unclosedScope _ => ["Expected '\x7d'"]
  | misplacedChain keyword after =>
    ["'" ++ keyword ++ "' can only be used directly after a " ++ after]
  | valuesInMappedListing =>
    ["Remove the values (e.g. '= \"texture\"') from the listing, or remove the assignment after it"]

end GrammarFault

namespace ScopeFault

def message : ScopeFault → String
  | wrongScope token _ _ => "Unexpected token '" ++ token ++ "' in wrong scope"
  | missingChain scope missing => "missing " ++ missing ++ " after " ++ scope
  | missingTexture => "missing MAPALL_PREDICATE or MODEL_STATEMENT after IDENTIFIER_LIST"
  | ambiguousIdentifiers =>
    "IDENTIFIER_LIST is completed by both a MAPALL_PREDICATE and a MODEL_STATEMENT"

def hints : ScopeFault → List String
  | wrongScope _ statement allowed =>
    [statement ++ " is only allowed inside of " ++ quotedList allowed]
  | missingChain scope missing => ["Every " ++ scope ++ " has to be followed by a " ++ missing]
  | missingTexture =>
    ["Assign a texture with '\x7b ... \x7d = \"texture\"' or a model with 'model = \"model.json\"'"]
  | ambiguousIdentifiers => ["Use either a texture or a model for an identifier list"]

end ScopeFault

namespace BuildFault

def message : BuildFault → String
  | unresolvedVariable name => "Variable '" ++ name ++ "' was not found"
  | variableRedefined name => "The variable '" ++ name ++ "' is already defined"
  | missingAsset kind path root =>
    "Could not find " ++ kind.name ++ " '" ++ path ++ "' in '" ++ root.text ++ "'"
  | invalidWeight value => "Could not parse weight '" ++ value ++ "', it is not a valid integer"
  | unreadableFile path reason => "Could not read file '" ++ path.text ++ "': " ++ reason
  | invalidInputDirectory path reason =>
    "Could not read input directory '" ++ path.text ++ "': " ++ reason

def assetHint : AssetKind → String
  | .texture => "Texture paths are relative to the input directory, '.png' may be omitted"
  | .model => "Model paths are relative to the input directory, '.json' may be omitted"
  | .copySource => "Copy sources are relative to the input directory"

def hints : BuildFault → List String
  | unresolvedVariable _ =>
    ["Did you spell the name correctly?",
      "Variables are defined with 'let name = \"value\"' or 'global name = \"value\"' " ++
        "and used like '$(name)'"]
  | variableRedefined _ =>
    ["Variables cannot be redefined in the same scope, try renaming this one"]
  | missingAsset kind _ _ => ["Did you spell the file name correctly?", assetHint kind]
  | invalidWeight _ => ["A weight has to be a whole number like \"5\" or \"-2\""]
  | unreadableFile _ _ | invalidInputDirectory _ _ => []

end BuildFault

namespace Cause

/-- The name of the stage that reports a cause. -/
def stage : Cause → String
  | lexical _ => "Lex"
  | grammar _ => "Parse"
  | scope _ => "Semantic"
  | build _ => "Build"
  | invalidWorkspace _ => "Codegen"
  | noItemMatches _ => "Warning"

/-- Only a key without items is not an error. -/
def severity : Cause → Severity
  | noItemMatches _ => .warning
  | _ => .error

/-- What is wrong, in one sentence. -/
def message : Cause → String
  | lexical fault => fault.message
  | grammar fault => fault.message
  | scope fault => fault.message
  | build fault => fault.message
  | invalidWorkspace reason => "Invalid workspace: " ++ reason
  | noItemMatches key => "No items match the predicate key '" ++ key ++ "'"

/-- What to do about it. -/
def hints : Cause → List String
  | lexical fault => fault.hints
  | grammar fault => fault.hints
  | scope fault => fault.hints
  | build fault => fault.hints
  | invalidWorkspace _ => ["This is a bug in the compiler, please report it"]
  | noItemMatches _ =>
    ["Use a full item id like 'diamond_sword', a family like 'sword' or a pattern like '*_sword'"]

end Cause

end Reskin
