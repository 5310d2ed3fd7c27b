import Reskin.Diagnostic
import Reskin.Statement

/-!
# Scoping rules

Every statement has to stand in a scope that is allowed for its kind, every block needs its `for`
scope, and a listing that names identifiers needs one texture or one model for them, not both. A
violation is reported at the first token of its statement; a statement comes before the statements
inside it.
-/

namespace Reskin

namespace Statement

/-- The violation of a statement that stands in a scope of the wrong kind. -/
def misplacement (scope : NodeKind) (statement : Statement) : List Diagnostic :=
  let allowed := statement.kind.allowedParents
  if allowed.contains scope then []
  else
    [.located
      (.scope (.wrongScope statement.firstToken.text statement.kind.name
        (allowed.map NodeKind.name)))
      statement.firstToken.location]

/-- The violation of a block without its `for` scope. -/
def missingFor (statement : Statement) (uses : ForScope) : List Diagnostic :=
  if uses.isPresent then []
  else
    [.located (.scope (.missingChain statement.kind.name NodeKind.forScope.name))
      statement.firstToken.location]

/-- The violation of a listing that names identifiers without giving them a texture or a model, or
gives them both. -/
def unclearListing (keyword : Token) (body : List Statement) (mapAll : Option MapAll) :
    List Diagnostic :=
  if body.any isIdentifiers then
    match mapAll.isSome, body.any isModel with
    | false, false => [.located (.scope .missingTexture) keyword.location]
    | true, true => [.located (.scope .ambiguousIdentifiers) keyword.location]
    | _, _ => []
  else []

/-- The violation of a statement that lacks a part. -/
def incompleteness (statement : Statement) : List Diagnostic :=
  match statement with
  | matchBlock _ _ uses | anyBlock _ uses => statement.missingFor uses
  | listing _ keyword body mapAll => unclearListing keyword body mapAll
  | _ => []

end Statement

mutual

def Statement.violations (scope : NodeKind) (statement : Statement) : List Diagnostic :=
  statement.misplacement scope ++ statement.incompleteness ++
    match statement with
    | .matchBlock _ body uses => Statement.violationsAll .matchBlock body ++ uses.violations
    | .anyBlock _ uses => uses.violations
    | .listing target _ body _ => Statement.violationsAll (.listing target) body
    | _ => []

def Statement.violationsAll (scope : NodeKind) (statements : List Statement) : List Diagnostic :=
  match statements with
  | [] => []
  | statement :: rest => statement.violations scope ++ Statement.violationsAll scope rest

def ForScope.violations (uses : ForScope) : List Diagnostic :=
  match uses with
  | .missing => []
  | .present _ body => Statement.violationsAll .forScope body

end

def Statement.check (statements : List Statement) : List Diagnostic :=
  Statement.violationsAll .file statements

end Reskin
