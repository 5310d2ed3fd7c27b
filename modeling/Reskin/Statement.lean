import Reskin.Statement.Kind
import Reskin.Token

/-!
# Statements

A source file is a list of statements. A block (`match { … }` or `any`) may be followed by a `for`
scope, and a listing by an assignment to everything it lists; both belong to the statement they
follow. Which statements may stand in which scope is not a matter of their type: it is checked
afterwards, so that the user gets a message about it.
-/

namespace Reskin

/-- A key, an equals sign and a text literal. -/
structure Assignment where
  key : Token
  equals : Token
  value : Token
deriving DecidableEq, Inhabited, Repr

/-- A file to copy and the place it is copied to. -/
structure CopyPair where
  source : Token
  arrow : Token
  destination : Token
deriving DecidableEq, Inhabited, Repr

/-- The assignment of one texture to everything that a listing names. -/
structure MapAll where
  equals : Token
  value : Token
deriving DecidableEq, Inhabited, Repr

mutual

/-- A statement of a source file. -/
inductive Statement where
  /-- A variable: `let name = "value"` or `global name = "value"`. -/
  | definition (scope : DefinitionScope) (keyword : Token) (assignment : Assignment)
  /-- A block with conditions: `match { … } for { … }`. -/
  | matchBlock (keyword : Token) (body : List Statement) (uses : ForScope)
  /-- A block without conditions: `any for { … }`. -/
  | anyBlock (keyword : Token) (uses : ForScope)
  /-- A listing: `items { … }` or `items { … } = "texture"`, and so for every target. -/
  | listing (target : Target) (keyword : Token) (body : List Statement) (mapAll : Option MapAll)
  /-- A texture for a whole target: `items = "texture"`. -/
  | setAll (target : Target) (assignment : Assignment)
  /-- A condition of a block or an entry of a listing: `key = "value"`. -/
  | predicate (assignment : Assignment)
  /-- A model for what a listing names: `model = "model"`. -/
  | model (assignment : Assignment)
  /-- A precedence of a block: `#weight = "5"`. -/
  | weight (assignment : Assignment)
  /-- Names in a listing: `a b c`. -/
  | identifiers (first : Token) (rest : List Token)
  /-- Files to copy: `copy { "from" => "to", … }`. -/
  | copy (keyword : Token) (pairs : List CopyPair)

/-- The scope after a block that says what the block is for, if it is there. -/
inductive ForScope where
  | missing
  | present (keyword : Token) (body : List Statement)

end

instance : Inhabited Statement := ⟨.identifiers default []⟩

instance : Inhabited ForScope := ⟨.missing⟩

namespace Statement

def kind : Statement → NodeKind
  | definition scope _ _ => .definition scope
  | matchBlock _ _ _ => .matchBlock
  | anyBlock _ _ => .anyBlock
  | listing target _ _ _ => .listing target
  | setAll target _ => .setAll target
  | predicate _ => .predicate
  | model _ => .model
  | weight _ => .weight
  | identifiers _ _ => .identifiers
  | copy _ _ => .copy

def firstToken : Statement → Token
  | definition _ keyword _ | matchBlock keyword _ _ | anyBlock keyword _ | listing _ keyword _ _
  | copy keyword _ => keyword
  | setAll _ assignment | predicate assignment | model assignment | weight assignment =>
    assignment.key
  | identifiers first _ => first

def isIdentifiers : Statement → Bool
  | identifiers _ _ => true
  | _ => false

def isModel : Statement → Bool
  | model _ => true
  | _ => false

end Statement

def ForScope.isPresent : ForScope → Bool
  | missing => false
  | present _ _ => true

end Reskin
