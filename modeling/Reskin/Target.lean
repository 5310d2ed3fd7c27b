/-!
# What a texture is put on

A rule replaces the texture of items in the inventory, of worn armor (both layers or one of them)
or of elytras.
-/

namespace Reskin

/-- The things that a texture can be put on. -/
inductive Target where
  | items
  | armor
  | armorLayer1
  | armorLayer2
  | elytras
deriving DecidableEq, Inhabited, Repr

namespace Target

/-- All targets, in the order in which they are listed to the user. -/
def all : List Target :=
  [items, armor, armorLayer1, armorLayer2, elytras]

def keyword : Target → String
  | items => "items"
  | armor => "armor"
  | armorLayer1 => "armor_l1"
  | armorLayer2 => "armor_l2"
  | elytras => "elytras"

def isArmor : Target → Bool
  | armor | armorLayer1 | armorLayer2 => true
  | items | elytras => false

def layers : Target → List Nat
  | armor => [1, 2]
  | armorLayer1 => [1]
  | armorLayer2 => [2]
  | items | elytras => []

end Target

end Reskin
