import Reskin.Token

/-!
# Variables

A scope holds one variable per name, in the order of their definitions. The first definition of a
name stays.
-/

namespace Reskin

/-- A variable with its final value and the token of its name. -/
structure Variable where
  name : String
  value : String
  token : Token
deriving DecidableEq, Inhabited, Repr

structure Variables where
  entries : List Variable := []
deriving DecidableEq, Inhabited, Repr

namespace Variables

def get? (scope : Variables) (name : String) : Option Variable :=
  scope.entries.find? fun entry => entry.name == name

/-- Adds a variable unless its name is taken. -/
def define (scope : Variables) (entry : Variable) : Option Variables :=
  if (scope.get? entry.name).isSome then none else some ⟨scope.entries ++ [entry]⟩

def size (scope : Variables) : Nat :=
  scope.entries.length

end Variables

end Reskin
