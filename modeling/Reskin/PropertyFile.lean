import Reskin.ItemId
import Reskin.Path
import Reskin.Rule

/-!
# Property files

A property file tells the game which items get a texture or a model, and under which conditions. It
is written as lines `key=value`. Two property files that differ only in their items are one.
-/

namespace Reskin

/-- Whether a property file replaces a texture or a model. -/
inductive Variant where
  | texture
  | model
deriving DecidableEq, Inhabited, Repr

/-- The extension of the file beside the property file. -/
def Variant.extension : Variant → String
  | texture => "png"
  | model => "json"

/-- The items that a property file applies to. -/
inductive ItemSelection where
  /-- Everything of the kind. -/
  | all
  /-- The listed items, each of them once. -/
  | only (ids : List String)
deriving DecidableEq, Inhabited, Repr

namespace ItemSelection

/-- Adds the ids that do not occur yet, in their order. -/
def addNew (known ids : List String) : List String :=
  ids.foldl (fun known id => if known.contains id then known else known ++ [id]) known

def ofList (ids : List String) : ItemSelection :=
  only (addNew [] ids)

/-- The items of both selections. -/
def absorb : ItemSelection → ItemSelection → ItemSelection
  | all, _ | _, all => all
  | only ids, only others => only (addNew ids others)

def isEmpty : ItemSelection → Bool
  | all => false
  | only ids => ids.isEmpty

end ItemSelection

structure PropertyFile where
  variant : Variant
  kind : RuleKind
  /-- The texture or model, seen from the input directory. -/
  target : String
  items : ItemSelection
  conditions : List Entry
  weight : Int
deriving DecidableEq, Inhabited, Repr

def RuleKind.typeName? : RuleKind → Option String
  | target .items => some "item"
  | target .elytras => some "elytra"
  | target _ => some "armor"
  | condition => none

namespace PropertyFile

/-- What two property files that are one have in common. -/
structure Identity where
  variant : Variant
  kind : RuleKind
  target : String
  conditions : List (String × String)
  weight : Int
deriving DecidableEq, Inhabited, Repr

/-- What a property file has in common with those that are merged into it. -/
def identity (file : PropertyFile) : Identity :=
  ⟨file.variant, file.kind, file.target,
    file.conditions.map fun condition => (condition.key.text, condition.value), file.weight⟩

/-- The name of the target up to its first `.`, or all of it if nothing stands in front of that. -/
def baseName (file : PropertyFile) : String :=
  let name := ((Path.mk file.target).fileName?).getD file.target
  match Text.splitFirst '.' name.toList with
  | some (c :: stem, _) => String.ofList (c :: stem)
  | _ => name

/-! ## The text of a property file -/

/-- The lines that put the texture `name` on the items. Armor textures are given for each layer and
material. -/
def textureLines (file : PropertyFile) (name : String) : List String :=
  match file.items, file.kind with
  | .all, _ => ["texture=" ++ name]
  | .only ids, .target .items => ids.map fun id => "texture." ++ id ++ "=" ++ name
  | .only _, .target .elytras => ["texture.elytra=" ++ name]
  | .only ids, .target target =>
    (ItemSelection.addNew [] (ids.map ItemId.material)).flatMap fun material =>
      target.layers.map fun layer =>
        "texture." ++ material ++ "_layer_" ++ toString layer ++ "=" ++ name
  | .only _, .condition => []

/-- The lines of a property file whose texture or model is called `name`. -/
def lines (file : PropertyFile) (name : String) : List String :=
  (file.kind.typeName?.map ("type=" ++ ·)).toList
    ++ (match file.items with
      | .all => []
      | .only ids => ["items=" ++ " ".intercalate ids])
    ++ (match file.variant with
      | .texture => file.textureLines name
      | .model => ["model=" ++ name ++ ".json"])
    ++ (file.conditions.map fun condition =>
      "nbt." ++ condition.key.text ++ "=" ++ condition.value)
    ++ (if file.weight = 0 then [] else ["weight=" ++ toString file.weight])

/-- The text of a property file whose texture or model is called `name`. -/
def render (file : PropertyFile) (name : String) : String :=
  "\n".intercalate (file.lines name) ++ "\n"

/-! ## Merging -/

/-- Adds a property file to a list, merging it into one that has the same identity. -/
def addTo (file : PropertyFile) : List PropertyFile → List PropertyFile
  | [] => [file]
  | known :: rest =>
    if known.identity = file.identity then
      { known with items := known.items.absorb file.items } :: rest
    else known :: addTo file rest

end PropertyFile

end Reskin
