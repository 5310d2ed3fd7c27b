import Reskin.Proofs.Pack.Lines

/-!
# Reading a property file back

A property file is read line by line, each line up to its first `=` as a key and from there on as a
value. Nothing that matters is lost on the way into the file: the type, the items, what is put on
them, the conditions in their order and the weight are read again, so files that say different
things do not become the same text. This needs texts that do not interfere with the format: no line
breaks, no `=` in a key, and no blanks or `=` in an item.

* **`Properties.read?`** — a reader of property files, said without how they are written.
* **`Parts`** — the properties of a file by what they are about. Each reader looks at its own part,
  since the keys of different parts start in different ways.
* **`PropertyFile.ofText_render`** — the properties in the text of a property file.
* **`PropertyFile.read_render`** — a property file is read back from its text.
-/

namespace Reskin

open Text (IsOneLine)

/-! ## A reader of property files -/

namespace Properties

/-- The key and the value of a line, if it has them. -/
def ofLine? (line : List Char) : Option (String × String) :=
  (Text.splitFirst '=' line).map fun parts => (String.ofList parts.1, String.ofList parts.2)

/-- The keys and values of a text, line by line. -/
def ofText (text : String) : List (String × String) :=
  (Text.splitAll '\n' text.toList).filterMap ofLine?

/-- What a property file says. -/
structure Content where
  type : String
  items : ItemSelection
  variant : Variant
  /-- The texture or model, without its extension. -/
  name : String
  conditions : List (String × String)
  weight : Int
deriving DecidableEq, Repr

/-- The items that are listed, or all. -/
def items (properties : List (String × String)) : ItemSelection :=
  match properties.lookup "items" with
  | none => .all
  | some ids => .only ((Text.splitAll ' ' ids.toList).map String.ofList)

/-- Whether a property is a texture. -/
def isTexture (property : String × String) : Bool :=
  "texture".toList.isPrefixOf property.1.toList

/-- The model, or else the first texture. -/
def asset? (properties : List (String × String)) : Option (Variant × String) :=
  match properties.lookup "model" with
  | some file =>
    (file.toList.dropSuffix? ".json".toList).map fun name => (.model, String.ofList name)
  | none => (properties.find? isTexture).map fun property => (.texture, property.2)

/-- The condition that a property is. -/
def condition? (property : String × String) : Option (String × String) :=
  (property.1.toList.dropPrefix? "nbt.".toList).map fun key => (String.ofList key, property.2)

/-- The weight, which is zero unless it is given. -/
def weight? (properties : List (String × String)) : Option Int :=
  match properties.lookup "weight" with
  | none => some 0
  | some weight => Text.integer? weight.toList

/-- What a property file with the given text says. -/
def read? (text : String) : Option Content :=
  let properties := ofText text
  (properties.lookup "type").bind fun type =>
    (asset? properties).bind fun asset =>
      (weight? properties).map fun weight =>
        ⟨type, items properties, asset.1, asset.2, properties.filterMap condition?, weight⟩

/-! ## Properties by what they are about -/

/-- The properties of a file, sorted by what they are about. -/
structure Parts where
  type : String
  items : List (String × String)
  assets : List (String × String)
  conditions : List (String × String)
  weight : List (String × String)

/-- The properties in their order. -/
def Parts.all (parts : Parts) : List (String × String) :=
  [("type", parts.type)]
    ++ (parts.items ++ (parts.assets ++ (parts.conditions ++ parts.weight)))

/-- All keys have the given start. -/
def StartWith (start : String) (properties : List (String × String)) : Prop :=
  ∀ property ∈ properties, start.toList <+: property.1.toList

def label : Variant → String
  | .texture => "texture"
  | .model => "model"

/-- Each part can be told by the starts of its keys. -/
structure Parts.AreLabelled (parts : Parts) (variant : Variant) : Prop where
  items : StartWith "items" parts.items
  assets : StartWith (label variant) parts.assets
  conditions : StartWith "nbt." parts.conditions
  weight : StartWith "weight" parts.weight

variable {properties : List (String × String)} {start key : String}

/-- A key that starts in another way is not among these. -/
theorem StartWith.lookup_eq_none (h : StartWith start properties)
    (hkey : ¬start.toList <+: key.toList) : properties.lookup key = none := by
  rw [List.lookup_eq_none_iff]
  intro property hproperty
  rw [bne_iff_ne]
  rintro rfl
  exact hkey (h property hproperty)

/-- Properties whose keys start in another way are no conditions. -/
theorem StartWith.filterMap_condition? (h : StartWith start properties)
    (hapart : Text.AreApart "nbt." start) : properties.filterMap condition? = [] := by
  rw [List.filterMap_eq_nil_iff]
  intro property hproperty
  rw [condition?, Option.map_eq_none_iff, Option.eq_none_iff_forall_ne_some]
  intro rest hrest
  obtain ⟨found, hfound, heq⟩ := List.dropPrefix?_eq_some_iff.mp hrest
  rw [eq_of_beq heq] at hfound
  exact hapart.not_prefix (h property hproperty) ⟨rest, hfound.symm⟩

theorem StartWith.find?_isTexture (h : StartWith start properties)
    (hapart : Text.AreApart "texture" start) : properties.find? isTexture = none := by
  rw [List.find?_eq_none]
  intro property hproperty hmatch
  exact hapart.not_prefix (h property hproperty) (List.isPrefixOf_iff_prefix.mp hmatch)

theorem startWith_singleton (key value : String) : StartWith key [(key, value)] :=
  List.forall_mem_singleton.mpr (List.prefix_refl key.toList)

namespace Parts

variable {parts : Parts} {variant : Variant}

/-- Looking up a key goes through the parts in their order. -/
theorem lookup_all (parts : Parts) (key : String) :
    parts.all.lookup key = (List.lookup key [("type", parts.type)]).or
      ((parts.items.lookup key).or ((parts.assets.lookup key).or
        ((parts.conditions.lookup key).or (parts.weight.lookup key)))) := by
  rw [all, List.lookup_append, List.lookup_append, List.lookup_append, List.lookup_append]

/-- A key of another part is looked up in vain. The two lemmas below say the same of the other
keys. -/
theorem lookup_items (h : parts.AreLabelled variant) :
    parts.all.lookup "items" = parts.items.lookup "items" := by
  have hassets : parts.assets.lookup "items" = none :=
    h.assets.lookup_eq_none (by cases variant <;> decide)
  rw [lookup_all, (startWith_singleton "type" _).lookup_eq_none (by decide), hassets,
    h.conditions.lookup_eq_none (by decide), h.weight.lookup_eq_none (by decide)]
  exact Option.or_none

theorem lookup_model (h : parts.AreLabelled variant) :
    parts.all.lookup "model" = parts.assets.lookup "model" := by
  rw [lookup_all, (startWith_singleton "type" _).lookup_eq_none (by decide),
    h.items.lookup_eq_none (by decide), h.conditions.lookup_eq_none (by decide),
    h.weight.lookup_eq_none (by decide)]
  exact Option.or_none

theorem lookup_weight (h : parts.AreLabelled variant) :
    parts.all.lookup "weight" = parts.weight.lookup "weight" := by
  have hassets : parts.assets.lookup "weight" = none :=
    h.assets.lookup_eq_none (by cases variant <;> decide)
  rw [lookup_all, (startWith_singleton "type" _).lookup_eq_none (by decide),
    h.items.lookup_eq_none (by decide), hassets, h.conditions.lookup_eq_none (by decide)]
  rfl

/-- The conditions are among the conditions: no other part has a key that starts with `nbt.`. -/
theorem filterMap_condition?_all (h : parts.AreLabelled variant) :
    parts.all.filterMap condition? = parts.conditions.filterMap condition? := by
  have hassets : parts.assets.filterMap condition? = [] :=
    h.assets.filterMap_condition? (by cases variant <;> decide)
  rw [all, List.filterMap_append, List.filterMap_append, List.filterMap_append,
    List.filterMap_append,
    (startWith_singleton "type" _).filterMap_condition? (by decide),
    h.items.filterMap_condition? (by decide), hassets,
    h.weight.filterMap_condition? (by decide)]
  exact List.append_nil _

/-- The first texture is found, since nothing in front of it looks like one. What stands behind it
is not looked at. -/
theorem find?_isTexture_all (h : parts.AreLabelled .texture) {first : String × String}
    {rest : List (String × String)} (hassets : parts.assets = first :: rest) :
    parts.all.find? isTexture = some first := by
  have hfirst : isTexture first = true := by
    rw [isTexture, List.isPrefixOf_iff_prefix]
    exact h.assets first (by rw [hassets]; exact List.mem_cons_self)
  rw [all, List.find?_append, List.find?_append,
    (startWith_singleton "type" _).find?_isTexture (by decide),
    h.items.find?_isTexture (by decide), hassets, List.cons_append,
    List.find?_cons_of_pos hfirst]
  rfl

end Parts

end Properties

/-! ## The text of a property file -/

namespace PropertyFile

open Properties

/-- A property file whose texts do not interfere with the format. -/
structure IsLegible (file : PropertyFile) (name : String) : Prop where
  kind : file.kind ≠ .condition
  nonempty : file.items.isEmpty = false
  name : IsOneLine name
  ids : ∀ id ∈ file.items.ids, IsOneLine id ∧ ' ' ∉ id.toList ∧ '=' ∉ id.toList
  conditions : ∀ condition ∈ file.conditions, IsOneLine condition.key.text
    ∧ '=' ∉ condition.key.text.toList ∧ IsOneLine condition.value

/-- The properties of a property file. -/
def parts (file : PropertyFile) (type name : String) : Parts where
  type := type
  items :=
    match file.items with
    | .all => []
    | .only ids => [("items", " ".intercalate ids)]
  assets :=
    match file.variant with
    | .texture => (file.textureLines name).filterMap fun line => ofLine? line.toList
    | .model => [("model", name ++ ".json")]
  conditions := file.conditions.map fun condition => ("nbt." ++ condition.key.text, condition.value)
  weight := if file.weight = 0 then [] else [("weight", toString file.weight)]

variable {file : PropertyFile} {name : String}

theorem IsLegible.exists_target (h : file.IsLegible name) :
    ∃ target, file.kind = .target target := by
  cases hkind : file.kind with
  | target target => exact ⟨target, rfl⟩
  | condition => exact absurd hkind h.kind

theorem IsLegible.isTame (h : file.IsLegible name) : file.IsTame where
  exists_target := h.exists_target
  nonempty := h.nonempty
  ids id hid := (h.ids id hid).1
  keys condition hcondition := (h.conditions condition hcondition).1

/-- A key and a value with `=` between them are told apart, if the key has none. The value may have
any number of them. -/
theorem ofLine?_append {start key : String} (hstart : start.toList = key.toList ++ ['='])
    (hkey : '=' ∉ key.toList) (value : String) :
    ofLine? (start ++ value).toList = some (key, value) := by
  have hline : (start ++ value).toList = key.toList ++ '=' :: value.toList := by
    rw [String.toList_append, hstart, List.append_assoc]
    rfl
  rw [ofLine?, hline, Text.splitFirst_append hkey]
  show some (String.ofList key.toList, String.ofList value.toList) = _
  rw [String.ofList_toList, String.ofList_toList]

theorem ofLine?_textureLine (key name : String) (hkey : '=' ∉ key.toList) :
    ofLine? ("texture" ++ key ++ "=" ++ name).toList = some ("texture" ++ key, name) := by
  refine ofLine?_append ?_ ?_ name
  · rw [String.toList_append]
    rfl
  · rw [String.toList_append, List.mem_append, not_or]
    exact ⟨by decide, hkey⟩

/-- A texture line is read as a texture with its name. -/
theorem exists_ofLine?_of_mem_textureLines (h : file.IsLegible name) {line : String}
    (hline : line ∈ file.textureLines name) :
    ∃ key, ofLine? line.toList = some ("texture" ++ key, name) := by
  obtain ⟨target, hkind⟩ := h.exists_target
  obtain ⟨key, rfl, hkey⟩ := exists_key_of_mem_textureLines (by decide) hkind
    (fun id hid => (h.ids id hid).2.2) hline
  exact ⟨key, ofLine?_textureLine key name hkey⟩

/-- The text of a property file is read as its properties. The text falls apart into the intended
lines, and each of them is cut at its first `=`. -/
theorem ofText_render (h : file.IsLegible name) {type : String}
    (htype : file.kind.typeName? = some type) :
    ofText (file.render name) = (file.parts type name).all := by
  have hlines := (splitAll_render_eq_iff h.isTame htype).mpr
    ⟨h.name, fun condition hcondition => (h.conditions condition hcondition).2.2⟩
  have hempty : [[]].filterMap ofLine? = [] := rfl
  rw [ofText, hlines, List.filterMap_append, hempty, List.append_nil, List.filterMap_map, layout,
    Parts.all]
  simp only [List.filterMap_append, List.append_assoc]
  -- The lines of each kind give the properties of one part.
  refine congrArg₂ (· ++ ·) ?_ (congrArg₂ (· ++ ·) ?_ (congrArg₂ (· ++ ·) ?_
    (congrArg₂ (· ++ ·) ?_ ?_)))
  · exact List.filterMap_cons_some (ofLine?_append (by decide) (by decide) type)
  · unfold parts
    cases file.items with
    | all => rfl
    | only ids => exact List.filterMap_cons_some (ofLine?_append (by decide) (by decide) _)
  · unfold parts
    cases file.variant with
    | texture => rfl
    | model =>
      rw [String.append_assoc]
      exact List.filterMap_cons_some (ofLine?_append (by decide) (by decide) _)
  · show _ = file.conditions.map _
    rw [List.filterMap_map, ← List.filterMap_eq_map]
    refine List.filterMap_congr fun condition hcondition => ofLine?_append ?_ ?_ _
    · rw [String.toList_append]
      rfl
    · rw [String.toList_append, List.mem_append, not_or]
      exact ⟨by decide, (h.conditions condition hcondition).2.1⟩
  · unfold parts
    dsimp only
    split
    · rfl
    · exact List.filterMap_cons_some (ofLine?_append (by decide) (by decide) _)

/-- The textures of a property file have keys that start alike, and all have its name. -/
theorem exists_key_of_mem_assets (h : file.IsLegible name) (hvariant : file.variant = .texture)
    {type : String} {property : String × String}
    (hproperty : property ∈ (file.parts type name).assets) :
    ∃ key, property = ("texture" ++ key, name) := by
  unfold parts at hproperty
  rw [hvariant] at hproperty
  obtain ⟨line, hline, hread⟩ := List.mem_filterMap.mp hproperty
  obtain ⟨key, hkey⟩ := exists_ofLine?_of_mem_textureLines h hline
  exact ⟨key, Option.some.inj (hread.symm.trans hkey)⟩

/-- There is at least one texture, since some item is listed or all are meant. -/
theorem assets_ne_nil (h : file.IsLegible name) (hvariant : file.variant = .texture)
    (type : String) : (file.parts type name).assets ≠ [] := by
  obtain ⟨line, hline⟩ := exists_mem_textureLines h.isTame name
  obtain ⟨key, hkey⟩ := exists_ofLine?_of_mem_textureLines h hline
  unfold parts
  rw [hvariant]
  exact List.ne_nil_of_mem (List.mem_filterMap.mpr ⟨line, hline, hkey⟩)

/-- Each part of a property file can be told by the starts of its keys, so the lemmas on `Parts`
apply. -/
theorem areLabelled_parts (h : file.IsLegible name) (type : String) :
    (file.parts type name).AreLabelled file.variant where
  items := by
    unfold parts
    cases file.items with
    | all => exact List.forall_mem_nil _
    | only ids => exact startWith_singleton "items" _
  assets := by
    cases hvariant : file.variant with
    | texture =>
      intro property hproperty
      obtain ⟨key, rfl⟩ := exists_key_of_mem_assets h hvariant hproperty
      rw [String.toList_append]
      exact List.prefix_append _ _
    | model =>
      unfold parts
      rw [hvariant]
      exact startWith_singleton "model" _
  conditions := by
    intro property hproperty
    obtain ⟨condition, -, rfl⟩ := List.mem_map.mp hproperty
    rw [String.toList_append]
    exact List.prefix_append _ _
  weight := by
    unfold parts
    dsimp only
    split
    · exact List.forall_mem_nil _
    · exact startWith_singleton "weight" _

/-! ## Reading it back -/

/-- The items are read back. No id has a blank in it, and the list is not empty, so splitting at
blanks gives back the ids. -/
theorem items_parts (h : file.IsLegible name) (type : String) :
    Properties.items (file.parts type name).all = file.items := by
  have hids := h.ids
  have hnonempty := h.nonempty
  rw [Properties.items, Parts.lookup_items (areLabelled_parts h type)]
  unfold parts
  cases hitems : file.items with
  | all => rfl
  | only ids =>
    rw [hitems] at hids hnonempty
    have hne : ids.map String.toList ≠ [] := by
      rw [Ne, List.map_eq_nil_iff]
      exact List.isEmpty_eq_false_iff.mp hnonempty
    have hblanks : ∀ part ∈ ids.map String.toList, ' ' ∉ part :=
      List.forall_mem_map.mpr fun id hid => (hids id hid).2.1
    have hblank : " ".toList = [' '] := by decide
    show ItemSelection.only
      ((Text.splitAll ' ' (" ".intercalate ids).toList).map String.ofList) = .only ids
    rw [String.toList_intercalate, hblank, Text.splitAll_intercalate hne hblanks, List.map_map]
    congr 1
    exact (List.map_congr_left fun id _ => String.ofList_toList).trans (List.map_id ids)

/-- The texture or model is read back, with its name. A model is looked for first, and a texture
file has none. -/
theorem asset?_parts (h : file.IsLegible name) (type : String) :
    asset? (file.parts type name).all = some (file.variant, name) := by
  have hlabelled := areLabelled_parts h type
  rw [asset?, Parts.lookup_model hlabelled]
  cases hvariant : file.variant with
  | texture =>
    rw [hvariant] at hlabelled
    -- There is a texture, and the first one has the name that all of them have.
    obtain ⟨first, rest, hfirst⟩ := List.exists_cons_of_ne_nil (assets_ne_nil h hvariant type)
    have hmem : first ∈ (file.parts type name).assets := by
      rw [hfirst]
      exact List.mem_cons_self
    obtain ⟨key, rfl⟩ := exists_key_of_mem_assets h hvariant hmem
    rw [hlabelled.assets.lookup_eq_none (by decide), Parts.find?_isTexture_all hlabelled hfirst]
    rfl
  | model =>
    have hassets : (file.parts type name).assets = [("model", name ++ ".json")] := by
      unfold parts
      rw [hvariant]
    have hsuffix : (name ++ ".json").toList.dropSuffix? ".json".toList = some name.toList := by
      rw [List.dropSuffix?_eq_some_iff]
      exact ⟨".json".toList, String.toList_append, BEq.rfl⟩
    rw [hassets, List.lookup_cons_self]
    dsimp only
    rw [hsuffix]
    show some (Variant.model, String.ofList name.toList) = _
    rw [String.ofList_toList]

/-- The conditions are read back in their order, with repetitions. -/
theorem conditions_parts (h : file.IsLegible name) (type : String) :
    (file.parts type name).all.filterMap condition?
      = file.conditions.map fun condition => (condition.key.text, condition.value) := by
  rw [Parts.filterMap_condition?_all (areLabelled_parts h type)]
  show (file.conditions.map _).filterMap condition? = _
  rw [List.filterMap_map, ← List.filterMap_eq_map]
  refine List.filterMap_congr fun condition _ => ?_
  show condition? ("nbt." ++ condition.key.text, condition.value) = _
  rw [condition?, String.toList_append, List.dropPrefix?_append_of_beq _ (BEq.rfl)]
  show some (String.ofList condition.key.text.toList, condition.value) = _
  rw [String.ofList_toList]
  rfl

/-- The weight is read back, also a negative one and zero, which has no line. -/
theorem weight?_parts (h : file.IsLegible name) (type : String) :
    weight? (file.parts type name).all = some file.weight := by
  rw [weight?, Parts.lookup_weight (areLabelled_parts h type)]
  unfold parts
  dsimp only
  split
  · next hzero =>
    split at hzero
    · next h => rw [h]
    · cases hzero
  · next hsome =>
    split at hsome
    · cases hsome
    · cases hsome
      exact Text.integer?_toString file.weight

/-- **A property file is read back from its text.** If nothing in it interferes with the format, a
reader that splits its text into lines, each line at its first `=` and the items at blanks finds the
type of its kind, all items or the listed ones in their order, whether it is about a texture or a
model, the name of that, the conditions in their order and the weight. -/
theorem read_render (h : file.IsLegible name) :
    ∃ type, file.kind.typeName? = some type
      ∧ Properties.read? (file.render name) = some ⟨type, file.items, file.variant, name,
        file.conditions.map fun condition => (condition.key.text, condition.value),
        file.weight⟩ := by
  obtain ⟨target, hkind⟩ := h.exists_target
  obtain ⟨type, htype⟩ : ∃ type, file.kind.typeName? = some type := by
    rw [hkind]
    cases target <;> exact ⟨_, rfl⟩
  have hfirst : (file.parts type name).all.lookup "type" = some type := rfl
  refine ⟨type, htype, ?_⟩
  rw [read?, ofText_render h htype, hfirst, asset?_parts h, weight?_parts h, items_parts h,
    conditions_parts h]
  rfl

/-- A property file with `=` in its name and its values, a condition that looks like a weight, a
repeated condition and a negative weight. -/
def crowdedFile : PropertyFile :=
  ⟨.texture, .target .armorLayer2, "t.png", .only ["golden_boots", "mod:dark_steel_boots"],
    [⟨⟨"n", 1, 1, none⟩, "weight=9", .condition⟩, ⟨⟨"weight", 1, 2, none⟩, "", .condition⟩,
      ⟨⟨"n", 1, 3, none⟩, "weight=9", .condition⟩], -7⟩

theorem read_render_crowdedFile :
    crowdedFile.render "x=y"
        = "type=armor\nitems=golden_boots mod:dark_steel_boots\ntexture.gold_layer_2=x=y\n"
          ++ "texture.dark_layer_2=x=y\nnbt.n=weight=9\nnbt.weight=\nnbt.n=weight=9\nweight=-7\n"
      ∧ ∃ type, crowdedFile.kind.typeName? = some type
        ∧ Properties.read? (crowdedFile.render "x=y") = some ⟨type, crowdedFile.items, .texture,
          "x=y", [("n", "weight=9"), ("weight", ""), ("n", "weight=9")], -7⟩ :=
  ⟨by decide +kernel,
    read_render ⟨by decide, by decide, by decide, by decide, by decide⟩⟩

end PropertyFile

end Reskin
