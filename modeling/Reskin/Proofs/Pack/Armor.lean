import Mathlib.Data.List.TakeWhile
import Reskin.Proofs.Pack.Merge
import Reskin.Proofs.Text.Split

/-!
# Materials of armor

The layer textures of a piece of armor are named after its material, which is meant to be the id
without its namespace and its piece. Whether an id is a piece of armor is told by its last
underscore, but the material is taken up to the first one. The two agree just if the material is a
single word. Modifications have others: the layers of `mod:dark_steel_helmet` are named after
`dark`.

* **`ItemId.material_ofPiece`** — the material of an id is the first word of what stands between its
  namespace and its piece.
* **`PropertyFile.layerLine_mem_lines_iff`** — the layers in a property file are those of the
  materials of its items.
* **`ItemId.layers_ofPiece`** — when a piece of armor gets the layers of its own material.
* **`ItemId.material_cut_short`** — a piece that does not.
-/

namespace Reskin

namespace ItemId

/-! ## Materials -/

/-- The id of a piece of armor, with or without a namespace. -/
def ofPiece (qualifier : Option String) (material piece : String) : String :=
  (qualifier.map (· ++ ":")).getD "" ++ (material ++ "_" ++ piece)

/-- An id without its namespace. -/
def unqualified (id : String) : String :=
  String.ofList (((Text.splitLast ':' id.toList).map Prod.snd).getD id.toList)

def firstWord (text : String) : String :=
  String.ofList (text.toList.takeWhile (· ≠ '_'))

/-- The spelling of a material in the names of layer textures. -/
def layerName (material : String) : String :=
  if material = "golden" then "gold" else material

variable {material piece : String}

theorem underscore_not_mem_firstWord (text : String) : '_' ∉ (firstWord text).toList := by
  rw [firstWord, String.toList_ofList]
  intro h
  exact absurd (List.mem_takeWhile_imp h) (by decide)

/-- A material is its own first word just if it is a single word. Everything below turns on this. -/
theorem firstWord_eq_self_iff : firstWord material = material ↔ '_' ∉ material.toList := by
  constructor
  · intro h
    rw [← h]
    exact underscore_not_mem_firstWord material
  · intro h
    have hall : material.toList.takeWhile (· ≠ '_') = material.toList := by
      rw [List.takeWhile_eq_self_iff]
      intro c hc
      rw [decide_eq_true_eq]
      rintro rfl
      exact h hc
    rw [firstWord, hall, String.ofList_toList]

/-- The spelling neither adds nor removes underscores. -/
theorem underscore_mem_layerName_iff :
    '_' ∈ (layerName material).toList ↔ '_' ∈ material.toList := by
  unfold layerName
  split
  · next h =>
    subst h
    decide
  · rfl

/-- The material of an id in three steps: the namespace goes, what follows the first underscore
goes, and gold is spelled in its own way. -/
theorem material_eq (id : String) :
    ItemId.material id = layerName (firstWord (unqualified id)) := by
  rw [firstWord, unqualified, String.toList_ofList, ← Text.fst_splitFirst]
  rfl

theorem toList_underscored (material piece : String) :
    (material ++ "_" ++ piece).toList = material.toList ++ '_' :: piece.toList := by
  rw [String.toList_append, String.toList_append, List.append_assoc]
  rfl

/-- What follows an underscore is no part of the first word, so the piece at the end of an id does
not show in its material. -/
theorem firstWord_underscored (material piece : String) :
    firstWord (material ++ "_" ++ piece) = firstWord material := by
  rw [firstWord, toList_underscored, firstWord]
  congr 1
  induction material.toList with
  | nil => exact List.takeWhile_cons_of_neg (by decide)
  | cons c cs ih => rw [List.cons_append, List.takeWhile_cons, List.takeWhile_cons, ih]

theorem not_mem_of_mem_armorPieces (h : piece ∈ armorPieces) :
    ':' ∉ piece.toList ∧ '_' ∉ piece.toList := by
  have hall : ∀ piece ∈ armorPieces, ':' ∉ piece.toList ∧ '_' ∉ piece.toList := by decide
  exact hall piece h

/-- The namespace of an id ends at its last colon, and there is none in the material or the
piece. -/
theorem unqualified_ofPiece (qualifier : Option String) (hmaterial : ':' ∉ material.toList)
    (hpiece : piece ∈ armorPieces) :
    unqualified (ofPiece qualifier material piece) = material ++ "_" ++ piece := by
  have hname : ':' ∉ (material ++ "_" ++ piece).toList := by
    rw [toList_underscored, List.mem_append, List.mem_cons]
    rintro (h | h | h)
    · exact hmaterial h
    · cases h
    · exact (not_mem_of_mem_armorPieces hpiece).1 h
  unfold unqualified ofPiece
  generalize material ++ "_" ++ piece = name at hname ⊢
  cases qualifier with
  | none =>
    have hid : (Option.map (· ++ ":") none).getD "" ++ name = name := String.empty_append
    rw [hid, Text.splitLast_eq_none_iff.mpr hname]
    exact String.ofList_toList
  | some qualifier =>
    have hid : ((Option.map (· ++ ":") (some qualifier)).getD "" ++ name).toList
        = qualifier.toList ++ ':' :: name.toList := by
      rw [Option.map_some, Option.getD_some, String.toList_append, String.toList_append,
        List.append_assoc]
      rfl
    rw [hid, Text.splitLast_append _ hname]
    exact String.ofList_toList

/-- The material in the id of a piece is only the first word of its material. The rest of a material
of several words is lost. -/
theorem material_ofPiece (qualifier : Option String) (hmaterial : ':' ∉ material.toList)
    (hpiece : piece ∈ armorPieces) :
    ItemId.material (ofPiece qualifier material piece) = layerName (firstWord material) := by
  rw [material_eq, unqualified_ofPiece qualifier hmaterial hpiece, firstWord_underscored]

/-- Whether an id is a piece of armor is told by its last underscore, however many there are in the
material. -/
theorem isArmorPiece_ofPiece (qualifier : Option String) (hpiece : piece ∈ armorPieces) :
    isArmorPiece (ofPiece qualifier material piece) = true := by
  have hid : (ofPiece qualifier material piece).toList
      = (((qualifier.map (· ++ ":")).getD "").toList ++ material.toList)
        ++ '_' :: piece.toList := by
    rw [ofPiece, String.toList_append, toList_underscored, List.append_assoc]
  rw [isArmorPiece, hid, Text.splitLast_append _ (not_mem_of_mem_armorPieces hpiece).2]
  show armorPieces.contains (String.ofList piece.toList) = true
  rw [String.ofList_toList]
  exact List.contains_iff_mem.mpr hpiece

/-- Whatever the id, its material is a single word. So no property file has a layer of a material of
several words. -/
theorem underscore_not_mem_material (id : String) : '_' ∉ (ItemId.material id).toList := by
  rw [material_eq, underscore_mem_layerName_iff]
  exact underscore_not_mem_firstWord _

end ItemId

/-! ## Layers in property files -/

namespace PropertyFile

variable {file : PropertyFile} {name : String} {target : Target} {ids : List String}

/-- The line that puts the texture `name` on a layer of a material. -/
def layerLine (material : String) (layer : Nat) (name : String) : String :=
  "texture." ++ material ++ "_layer_" ++ toString layer ++ "=" ++ name

/-- No other line of a property file looks like one of its textures. The five other kinds of lines
start in five other ways. -/
theorem mem_textureLines_of_mem_lines {rest : String}
    (h : "texture." ++ rest ∈ file.lines name) : "texture." ++ rest ∈ file.textureLines name := by
  have hother : ∀ start ∈ ["type=", "items=", "model=", "nbt.", "weight="], ∀ x : String,
      start ++ x ≠ "texture." ++ rest := by
    have hstarts : ∀ start ∈ ["type=", "items=", "model=", "nbt.", "weight="],
        Text.AreApart start "texture." := by
      decide
    intro start hstart x
    exact (hstarts start hstart).append_ne_append x rest
  rw [lines, List.mem_append, List.mem_append, List.mem_append, List.mem_append] at h
  obtain (((h | h) | h) | h) | h := h
  · obtain ⟨type, -, htype⟩ := Option.map_eq_some_iff.mp (Option.mem_toList.mp h)
    exact absurd htype (hother "type=" (by decide) _)
  · cases hitems : file.items with
    | all =>
      rw [hitems] at h
      cases h
    | only ids =>
      rw [hitems] at h
      exact absurd (List.mem_singleton.mp h).symm (hother "items=" (by decide) _)
  · cases hvariant : file.variant with
    | texture =>
      rw [hvariant] at h
      exact h
    | model =>
      rw [hvariant] at h
      have hmodel := (List.mem_singleton.mp h).symm
      rw [String.append_assoc] at hmodel
      exact absurd hmodel (hother "model=" (by decide) _)
  · obtain ⟨condition, -, hcondition⟩ := List.mem_map.mp h
    rw [String.append_assoc, String.append_assoc] at hcondition
    exact absurd hcondition (hother "nbt." (by decide) _)
  · split at h
    · cases h
    · exact absurd (List.mem_singleton.mp h).symm (hother "weight=" (by decide) _)

/-- The texture lines of armor: each material of the items once, in each layer that the target
covers. -/
theorem textureLines_armor (hkind : file.kind = .target target) (harmor : target.isArmor = true)
    (hitems : file.items = .only ids) (name : String) :
    file.textureLines name = (ItemSelection.addNew [] (ids.map ItemId.material)).flatMap
      fun material => target.layers.map fun layer => layerLine material layer name := by
  unfold textureLines
  rw [hitems, hkind]
  cases target with
  | items | elytras => cases harmor
  | armor | armorLayer1 | armorLayer2 => rfl

/-- Layers are numbered with one digit, so a line tells its material. Without that, a material could
end in what looks like the start of a layer. -/
theorem layerLine_inj {a b : String} {i j : Nat} (hi : i ∈ target.layers) (hj : j ∈ target.layers)
    (h : layerLine a i name = layerLine b j name) : a = b := by
  have hdigit : ∀ layer ∈ target.layers, (toString layer).toList.length = 1 := by
    cases target <;> decide
  have hline : ∀ (material : String) (layer : Nat), (layerLine material layer name).toList
      = "texture.".toList ++ (material.toList
        ++ ("_layer_".toList ++ ((toString layer).toList ++ ("=" ++ name).toList))) := by
    intro material layer
    simp only [layerLine, String.toList_append, List.append_assoc]
  have hlists := congrArg String.toList h
  rw [hline, hline] at hlists
  have hlengths : ("_layer_".toList ++ ((toString i).toList ++ ("=" ++ name).toList)).length
      = ("_layer_".toList ++ ((toString j).toList ++ ("=" ++ name).toList)).length := by
    simp only [List.length_append, hdigit i hi, hdigit j hj]
  exact String.toList_inj.mp (List.append_inj_left' (List.append_cancel_left hlists) hlengths)

/-- **The layers in a property file** are those of the materials of its items. From right to left it
says that none is missing, from left to right that none is there by accident. -/
theorem layerLine_mem_lines_iff (hvariant : file.variant = .texture)
    (hkind : file.kind = .target target) (harmor : target.isArmor = true)
    (hitems : file.items = .only ids) {layer : Nat} (hlayer : layer ∈ target.layers)
    {material : String} :
    layerLine material layer name ∈ file.lines name
      ↔ ∃ id ∈ ids, ItemId.material id = material := by
  have hmaterials : ∀ material, material ∈ ItemSelection.addNew [] (ids.map ItemId.material)
      ↔ ∃ id ∈ ids, ItemId.material id = material := by
    intro material
    rw [ItemSelection.mem_addNew, List.mem_map]
    exact or_iff_right List.not_mem_nil
  have htexture : layerLine material layer name ∈ file.textureLines name
      ↔ ∃ id ∈ ids, ItemId.material id = material := by
    rw [textureLines_armor hkind harmor hitems, List.mem_flatMap]
    constructor
    · rintro ⟨other, hother, hline⟩
      obtain ⟨otherLayer, hotherLayer, heq⟩ := List.mem_map.mp hline
      rw [← layerLine_inj hotherLayer hlayer heq]
      exact (hmaterials other).mp hother
    · intro h
      exact ⟨material, (hmaterials material).mpr h, List.mem_map_of_mem hlayer⟩
  rw [← htexture]
  constructor
  · intro h
    unfold layerLine at h ⊢
    simp only [String.append_assoc] at h ⊢
    exact mem_textureLines_of_mem_lines h
  · intro h
    rw [lines, hvariant]
    exact List.mem_append_left _ (List.mem_append_left _ (List.mem_append_right _ h))

end PropertyFile

open PropertyFile (layerLine)

namespace ItemId

/-- **Which layers a piece of armor gets.** The material in the id of a piece is the first word of
its material, and the property files for worn armor have the layers of this word for it. So the
material is the one that the piece is made of, and the property files have its layers, just if the
material is a single word. -/
theorem layers_ofPiece (qualifier : Option String) (material piece : String)
    (hmaterial : ':' ∉ material.toList) (hpiece : piece ∈ armorPieces) :
    isArmorPiece (ofPiece qualifier material piece) = true
      ∧ ItemId.material (ofPiece qualifier material piece) = layerName (firstWord material)
      ∧ (ItemId.material (ofPiece qualifier material piece) = layerName material
        ↔ '_' ∉ material.toList)
      ∧ ∀ (file : PropertyFile) (target : Target) (ids : List String) (name : String),
        file.variant = .texture → file.kind = .target target → target.isArmor = true →
        file.items = .only ids → ofPiece qualifier material piece ∈ ids →
        ∀ layer ∈ target.layers,
          layerLine (layerName (firstWord material)) layer name ∈ file.lines name
            ∧ (layerLine (layerName material) layer name ∈ file.lines name
              ↔ '_' ∉ material.toList) := by
  have heq := material_ofPiece qualifier hmaterial hpiece
  -- A material that an id gives is a single word, and so is what it is a spelling of.
  have hsingle : ∀ id, ItemId.material id = layerName material → '_' ∉ material.toList := by
    intro id hid
    rw [← underscore_mem_layerName_iff, ← hid]
    exact underscore_not_mem_material id
  have hown : '_' ∉ material.toList →
      ItemId.material (ofPiece qualifier material piece) = layerName material := by
    intro h
    rw [heq, firstWord_eq_self_iff.mpr h]
  refine ⟨isArmorPiece_ofPiece qualifier hpiece, heq, ⟨hsingle _, hown⟩, ?_⟩
  intro file target ids name hvariant hkind harmor hitems hid layer hlayer
  rw [PropertyFile.layerLine_mem_lines_iff hvariant hkind harmor hitems hlayer,
    PropertyFile.layerLine_mem_lines_iff hvariant hkind harmor hitems hlayer]
  refine ⟨⟨_, hid, heq⟩, ?_, fun h => ⟨_, hid, hown h⟩⟩
  rintro ⟨other, -, hother⟩
  exact hsingle other hother

/-- A property file for two pieces of armor, of which one has a material of two words. -/
def darkSteelFile : PropertyFile :=
  ⟨.texture, .target .armor, "t.png",
    .only ["minecraft:golden_boots", "mod:dark_steel_helmet"], [], 0⟩

theorem layers_ofPiece_darkSteelFile :
    ofPiece (some "minecraft") "golden" "boots" = "minecraft:golden_boots"
      ∧ ItemId.material (ofPiece (some "minecraft") "golden" "boots") = layerName "golden"
      ∧ layerName "golden" = "gold"
      ∧ layerLine (layerName "golden") 2 "t" ∈ darkSteelFile.lines "t" := by
  have hid : ofPiece (some "minecraft") "golden" "boots" = "minecraft:golden_boots" := by decide
  have hword : '_' ∉ "golden".toList := by decide
  obtain ⟨-, -, hmaterial, hlines⟩ :=
    layers_ofPiece (some "minecraft") "golden" "boots" (by decide) (by decide)
  refine ⟨hid, hmaterial.mpr hword, by decide, ?_⟩
  exact (hlines darkSteelFile .armor _ "t" rfl rfl rfl rfl (by rw [hid]; decide) 2
    (by decide)).2.mpr hword

/-- **A material is cut short.** The helmet of dark steel is a piece of armor, but its material is
said to be `dark`, and its property file has no layer of `dark_steel`. -/
theorem material_cut_short :
    ofPiece (some "mod") "dark_steel" "helmet" = "mod:dark_steel_helmet"
      ∧ isArmorPiece "mod:dark_steel_helmet" = true
      ∧ layerName "dark_steel" = "dark_steel"
      ∧ ItemId.material "mod:dark_steel_helmet" = "dark"
      ∧ layerLine "dark_steel" 1 "t" ∉ darkSteelFile.lines "t" := by
  decide +kernel

end ItemId

end Reskin
