import Reskin.Diagnostic.Cause
import Reskin.Source

/-!
# Diagnostics

A diagnostic is a cause with the place it concerns. A step that stops at its first fault returns an
`Except Diagnostic`; a step that goes on collects what it reports in a `Reported` value.
-/

namespace Reskin

/-- A reported cause with its place and the hints shown with it. -/
structure Diagnostic where
  cause : Cause
  location : Option Location
  hints : List String
deriving DecidableEq, Inhabited, Repr

namespace Diagnostic

def general (cause : Cause) : Diagnostic :=
  ⟨cause, none, cause.hints⟩

def located (cause : Cause) (location : Location) : Diagnostic :=
  ⟨cause, some location, cause.hints⟩

/-- The severity follows from the cause. -/
def severity (diagnostic : Diagnostic) : Severity :=
  diagnostic.cause.severity

/-- Whether a diagnostic keeps the pack from being made. -/
def isError (diagnostic : Diagnostic) : Bool :=
  diagnostic.severity = .error

/-- A diagnostic in one line: severity, message and place. -/
def summary (diagnostic : Diagnostic) : String :=
  let head := diagnostic.severity.name ++ ": " ++ diagnostic.cause.message
  match diagnostic.location with
  | none => head
  | some location =>
    head ++ " (line " ++ toString location.line ++ ", column " ++ toString location.column ++ ")"

end Diagnostic

def hasErrors (diagnostics : List Diagnostic) : Bool :=
  diagnostics.any Diagnostic.isError

def errorCount (diagnostics : List Diagnostic) : Nat :=
  diagnostics.countP Diagnostic.isError

def warningCount (diagnostics : List Diagnostic) : Nat :=
  diagnostics.countP fun diagnostic => !diagnostic.isError

/-- A value together with what was reported while it was computed. -/
structure Reported (α : Type) where
  value : α
  diagnostics : List Diagnostic := []
deriving Inhabited

namespace Reported

def report (diagnostic : Diagnostic) : Reported Unit :=
  ⟨(), [diagnostic]⟩

def reportAll (diagnostics : List Diagnostic) : Reported Unit :=
  ⟨(), diagnostics⟩

def reportIf (condition : Bool) (diagnostic : Diagnostic) : Reported Unit :=
  if condition then report diagnostic else ⟨(), []⟩

instance : Monad Reported where
  pure value := ⟨value, []⟩
  bind step next :=
    let rest := next step.value
    ⟨rest.value, step.diagnostics ++ rest.diagnostics⟩

@[simp] theorem value_pure {α : Type} (a : α) : (pure a : Reported α).value = a := rfl

@[simp] theorem diagnostics_pure {α : Type} (a : α) : (pure a : Reported α).diagnostics = [] := rfl

@[simp] theorem value_bind {α β : Type} (x : Reported α) (f : α → Reported β) :
    (x >>= f).value = (f x.value).value := rfl

@[simp] theorem diagnostics_bind {α β : Type} (x : Reported α) (f : α → Reported β) :
    (x >>= f).diagnostics = x.diagnostics ++ (f x.value).diagnostics := rfl

end Reported

end Reskin
