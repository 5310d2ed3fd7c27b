import Reskin.Diagnostic
import Reskin.Interpolation
import Reskin.List
import Reskin.Statement
import Reskin.Token.Literal
import Reskin.Variable

/-!
# Final values of variables

All definitions of a workspace are registered before any value is looked at, so a value may refer
to variables that are defined later or in other files. Values are then resolved depth first: the
definitions that a value refers to come before it. A definition that is reached again while it is
being resolved has no value yet, so a cycle of references is reported as unresolved.

The search ends because every step down adds a definition to those being resolved:
`unvisited_cons_lt` is the measure.
-/

namespace Reskin

/-- A definition whose value has not been resolved. -/
structure Definition where
  scope : DefinitionScope
  file : Nat
  name : Token
  value : Token
deriving DecidableEq, Inhabited, Repr

namespace Definition

/-- Whether a definition belongs to the variables of a file, or to the global ones. -/
def belongsTo (definition : Definition) (scope : DefinitionScope) (file : Nat) : Bool :=
  definition.scope = scope && (scope = .global || definition.file = file)

/-- Whether two definitions compete for a name. -/
def clashes (a b : Definition) : Bool :=
  a.belongsTo b.scope b.file && a.name.text == b.name.text

/-- The definition that a statement makes in a file. -/
def ofStatement? (file : Nat) : Statement → Option Definition
  | .definition scope _ assignment => some ⟨scope, file, assignment.key, assignment.value⟩
  | _ => none

/-- Adds a definition unless its name is taken. -/
def register (definitions : List Definition) (definition : Definition) :
    Reported (List Definition) :=
  if definitions.any definition.clashes then do
    Reported.report
      (.located (.build (.variableRedefined definition.name.text)) definition.name.location)
    return definitions
  else return definitions ++ [definition]

/-- All definitions of a list of files, in order. -/
def written (files : List (List Statement)) : List Definition :=
  files.zipIdx.flatMap fun (statements, file) => statements.filterMap (ofStatement? file)

/-- The definitions that count: the first one of each name in its scope. -/
def collect (files : List (List Statement)) : Reported (List Definition) :=
  (written files).foldlM register []

/-- The definition that a name means in a file: that of the file itself, else the global one. -/
def lookup? (definitions : List Definition) (file : Nat) (name : String) :
    Option (Fin definitions.length) :=
  let find (scope : DefinitionScope) := definitions.findFinIdx? fun definition =>
    definition.belongsTo scope file && definition.name.text == name
  find .file <|> find .global

/-! ## Resolution -/

/-- The number of definitions that are not being resolved. -/
def unvisited {n : Nat} (visiting : List (Fin n)) : Nat :=
  (List.finRange n).countP fun i => !visiting.contains i

/-- One definition fewer is left after a new one is visited. This is what bounds the depth of
`resolve`, also if definitions refer to each other in a circle. -/
theorem unvisited_cons_lt {n : Nat} {visiting : List (Fin n)} {i : Fin n}
    (h : ¬visiting.contains i = true) : unvisited (i :: visiting) < unvisited visiting := by
  apply countP_lt_countP (a := i)
  · intro x hx
    simp only [List.contains_cons, Bool.not_or, Bool.and_eq_true] at hx
    exact hx.2
  · exact List.mem_finRange i
  · simpa using h
  · simp

abbrev Values (n : Nat) := List (Fin n × String)

/-- Resolves a definition and, before it, the definitions its value refers to. -/
def resolve (definitions : List Definition) (visiting : List (Fin definitions.length))
    (i : Fin definitions.length) (values : Values definitions.length) :
    Reported (Values definitions.length) :=
  if _h : visiting.contains i then pure values
  else if (values.lookup i).isSome then pure values
  else do
    let definition := definitions[i]
    let text := definition.value.value
    let values ← (Interpolation.references text).foldlM
      (fun values name =>
        match lookup? definitions definition.file name with
        | some j => resolve definitions (i :: visiting) j values
        | none => pure values)
      values
    let find (name : String) : Option String :=
      (lookup? definitions definition.file name).bind fun j => values.lookup j
    Reported.reportAll ((Interpolation.unresolved find text).map fun name =>
      .located (.build (.unresolvedVariable name)) definition.value.location)
    return (i, Interpolation.fill find text) :: values
termination_by unvisited visiting
decreasing_by exact unvisited_cons_lt _h

def resolveAll (definitions : List Definition) : Reported (Values definitions.length) :=
  (List.finRange definitions.length).foldlM
    (fun values i => resolve definitions [] i values) []

/-- The variables of the definitions that are selected, with their final values. -/
def toVariables (definitions : List Definition) (values : Values definitions.length)
    (selected : Definition → Bool) : Variables :=
  ⟨(List.finRange definitions.length).filterMap fun i =>
    let definition := definitions[i]
    if selected definition then
      some ⟨definition.name.text, (values.lookup i).getD "", definition.name⟩
    else none⟩

end Definition

/-- The variables of a workspace: the global ones, and those of each file. -/
structure Resolution where
  globals : Variables
  locals : List Variables
deriving DecidableEq, Inhabited, Repr

/-- The variables that a list of files defines. -/
def Resolution.ofFiles (files : List (List Statement)) : Reported Resolution := do
  let definitions ← Definition.collect files
  let values ← Definition.resolveAll definitions
  let select (scope : DefinitionScope) (file : Nat) :=
    Definition.toVariables definitions values fun definition => definition.belongsTo scope file
  return ⟨select .global 0, files.zipIdx.map fun (_, file) => select .file file⟩

end Reskin
