import Reskin.Text.Split

/-!
# Armor ids

The id of a piece of armor is made of its material and its piece, such as `golden_helmet`. Layer
textures are named after the material.
-/

namespace Reskin.ItemId

/-- The pieces of armor that are shown with layer textures. -/
def armorPieces : List String :=
  ["helmet", "chestplate", "leggings", "boots"]

def isArmorPiece (id : String) : Bool :=
  match Text.splitLast '_' id.toList with
  | some (_, piece) => armorPieces.contains (String.ofList piece)
  | none => false

/-- The material in an id: what stands between its namespace and its first underscore. The layer
textures of golden armor are named `gold`. -/
def material (id : String) : String :=
  let name := ((Text.splitLast ':' id.toList).map Prod.snd).getD id.toList
  let material := String.ofList (((Text.splitFirst '_' name).map Prod.fst).getD name)
  if material = "golden" then "gold" else material

end Reskin.ItemId
