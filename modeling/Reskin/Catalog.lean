import Reskin.Catalog.Glob
import Reskin.Text.Split

/-!
# Catalogs of items

A catalog turns a key such as `sword` or `diamond_*` into the item ids that it stands for. An id of
another namespace than `minecraft` belongs to a modification of the game and is never expanded.
-/

namespace Reskin

namespace Catalog

/-- The namespace of the unmodified game. -/
def vanillaNamespace : List Char :=
  "minecraft".toList

/-- Whether an id belongs to a modification of the game: it has a namespace, and that is not the one
of the unmodified game. -/
def isModded (id : String) : Bool :=
  match Text.splitFirst ':' id.toList with
  | some (space, _) => space ≠ vanillaNamespace
  | none => false

end Catalog

/-- A catalog: the items that a key stands for, in the order of the catalog, and the keys that are
never expanded. -/
structure Catalog where
  family : String → List String
  modded : String → Bool := Catalog.isModded

namespace Catalog

def withoutNamespace (id : String) : String :=
  match Text.splitFirst ':' id.toList with
  | some (space, rest) => if space = vanillaNamespace then String.ofList rest else id
  | none => id

/-- Whether an item belongs to the family `name`: its id starts with the name and an underscore, or
ends with an underscore and the name. -/
def inFamily (name item : String) : Bool :=
  (name.toList ++ ['_']).isPrefixOf item.toList || ('_' :: name.toList).isSuffixOf item.toList

/-- The catalog with the given items. A key with wildcards stands for all items that match it, an
item id for itself, and any other key for its family. -/
def ofItems (items : List String) : Catalog where
  family key :=
    let name := withoutNamespace key
    if name = "" then []
    else if Glob.hasWildcard name then items.filter (Glob.isMatch name)
    else if items.contains name then [name]
    else items.filter (inFamily name)

end Catalog

end Reskin
