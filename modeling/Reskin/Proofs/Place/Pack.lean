import Reskin.Pack
import Reskin.Proofs.Place.Conversion

/-!
# Packs do not depend on places

Keys are expanded by their texts, rules are grouped by their assets, and property files are merged
by their identities, which hold the texts of keys. So a pack is the same for a workspace without
places, and so are its reports up to their places.

* **`Pack.blockFiles_unplaced`** — the property files of a block.
* **`Pack.ofWorkspace_unplaced`** — the pack of a workspace.
-/

namespace Reskin

namespace Rule

@[simp] theorem keys_unplaced (rule : Rule) :
    rule.unplaced.keys = rule.keys.map Token.unplaced := by
  cases rule <;> rfl

@[simp] theorem kind_unplaced (rule : Rule) : rule.unplaced.kind = rule.kind := by
  cases rule <;> rfl

@[simp] theorem asset?_unplaced (rule : Rule) : rule.unplaced.asset? = rule.asset? := by
  cases rule <;> rfl

@[simp] theorem isSetAll_unplaced (rule : Rule) : rule.unplaced.isSetAll = rule.isSetAll := by
  cases rule <;> rfl

end Rule

namespace PropertyFile

/-- A property file without the places of its conditions. -/
def unplaced (file : PropertyFile) : PropertyFile :=
  { file with conditions := file.conditions.map Entry.unplaced }

/-- Files are merged by what their conditions say, and not by where it is said. -/
theorem identity_unplaced (file : PropertyFile) : file.unplaced.identity = file.identity := by
  unfold identity unplaced
  rw [List.map_map]
  rfl

/-- The text of a property file has no places in it. -/
theorem render_unplaced (file : PropertyFile) (name : String) :
    file.unplaced.render name = file.render name := by
  unfold render lines unplaced
  rw [List.map_map]
  rfl

/-- So merging does not depend on places. The places that are kept are those of the first file. -/
theorem addTo_unplaced (file : PropertyFile) (files : List PropertyFile) :
    file.unplaced.addTo (files.map unplaced) = (file.addTo files).map unplaced := by
  induction files with
  | nil => rfl
  | cons known rest ih =>
    rw [List.map_cons, addTo, addTo, identity_unplaced, identity_unplaced, ih]
    split <;> rfl

end PropertyFile

theorem Workspace.blocks_unplaced (workspace : Workspace) :
    workspace.unplaced.blocks = workspace.blocks.map Block.unplaced := by
  unfold blocks unplaced
  rw [List.flatMap_map, List.map_flatMap]
  congr 1
  funext source
  unfold PackSource.blocks PackSource.unplaced
  rw [List.filterMap_map, List.map_filterMap]
  congr 1
  funext rule
  cases rule <;> simp [Rule.unplaced, Block.ofRule?, Block.unplaced]

theorem Workspace.copies_unplaced (workspace : Workspace) :
    workspace.unplaced.copies = workspace.copies.map CopyEntry.unplaced := by
  unfold copies unplaced
  rw [List.flatMap_map, List.map_flatMap]
  congr 1
  funext source
  unfold PackSource.unplaced
  rw [List.flatMap_map, List.map_flatMap]
  congr 1
  funext rule
  cases rule <;> rfl

namespace Pack

open Workspace (blocks_unplaced copies_unplaced)

/-! ## Groups -/

/-- A key stands for the same items wherever it is written. -/
theorem expandKey_unplaced (catalog : Catalog) (kind : RuleKind) (key : Token) :
    (expandKey catalog kind key).unplaced (List.map id) = expandKey catalog kind key.unplaced := by
  unfold expandKey
  rw [Token.text_unplaced, List.map_id_fun]
  split
  · rfl
  · simp only [Reported.unplaced, apply_ite (List.map Diagnostic.unplaced), List.map_cons,
      List.map_nil, Diagnostic.unplaced_located, id_eq]

theorem expandKeys_unplaced (catalog : Catalog) (kind : RuleKind) (keys : List Token) :
    (expandKeys catalog kind keys).unplaced id
      = expandKeys catalog kind (keys.map Token.unplaced) := by
  have hgather := Reported.unplaced_gather Token.unplaced id (expandKey_unplaced catalog kind) keys
  rw [List.map_id_fun] at hgather
  exact congrArg (fun ids : Reported (List String) =>
    (⟨.ofList ids.value, ids.diagnostics⟩ : Reported ItemSelection)) hgather

/-- A group without the places of its rules. -/
def Group.unplaced (group : Group) : Group :=
  { group with rules := group.rules.map Rule.unplaced }

namespace Group

theorem addTo_unplaced (asset : Asset) (rule : Rule) (groups : List Group) :
    addTo asset rule.unplaced (groups.map unplaced) = (addTo asset rule groups).map unplaced := by
  induction groups with
  | nil => simp [addTo, unplaced]
  | cons group rest ih =>
    rw [List.map_cons, addTo, addTo, Rule.kind_unplaced, ih]
    show (if group.asset = asset ∧ group.kind = rule.kind then _ else _) = _
    split
    · simp [unplaced]
    · rfl

/-- Grouping goes by files and kinds, which have no places. -/
theorem ofRules_unplaced (rules : List Rule) :
    ofRules (rules.map Rule.unplaced) = (ofRules rules).map unplaced := by
  unfold ofRules
  rw [List.foldl_map]
  show List.foldl _ (List.map unplaced []) rules = _
  apply List.foldl_hom (List.map unplaced)
  intro groups rule
  rw [Rule.asset?_unplaced]
  cases rule.asset? with
  | none => rfl
  | some asset => exact addTo_unplaced asset rule groups

theorem keys_unplaced (group : Group) : group.unplaced.keys = group.keys.map Token.unplaced := by
  unfold keys unplaced
  rw [List.flatMap_map, List.map_flatMap]
  simp only [Rule.keys_unplaced]

theorem matchesAll_unplaced (group : Group) : group.unplaced.matchesAll = group.matchesAll := by
  have hsetAll : group.unplaced.rules.any Rule.isSetAll = group.rules.any Rule.isSetAll := by
    rw [unplaced, List.any_map]
    exact List.any_congr rfl Rule.isSetAll_unplaced
  unfold matchesAll
  rw [keys_unplaced, hsetAll, List.isEmpty_map, List.any_map]
  rfl

/-- A group has the same items, and reports the same keys. -/
theorem items_unplaced (catalog : Catalog) (group : Group) :
    (group.items catalog).unplaced id = group.unplaced.items catalog := by
  unfold items
  rw [matchesAll_unplaced, keys_unplaced, ← expandKeys_unplaced]
  split <;> rfl

end Group

/-! ## Property files -/

theorem propertyFile_unplaced (block : Block) (group : Group) (items : ItemSelection) :
    propertyFile block.unplaced group.unplaced items
      = (propertyFile block group items).unplaced := by
  obtain ⟨asset, kind, rules⟩ := group
  cases asset <;> rfl

theorem invalidRules_unplaced (block : Block) :
    invalidRules block.unplaced = (invalidRules block).map Diagnostic.unplaced := by
  unfold invalidRules
  rw [Block.unplaced, List.filter_map, List.map_map, List.map_map]
  simp only [Function.comp_def, Rule.asset?_unplaced]
  rfl

/-- The property files of a block do not depend on places but for those of their conditions. -/
theorem blockFiles_unplaced (catalog : Catalog) (block : Block) :
    (blockFiles catalog block).unplaced (List.map PropertyFile.unplaced)
      = blockFiles catalog block.unplaced := by
  unfold blockFiles
  rw [show block.unplaced.rules = block.rules.map Rule.unplaced from rfl, Group.ofRules_unplaced,
    invalidRules_unplaced]
  simp only [Reported.unplaced, List.map_append, List.map_map, List.map_flatMap, List.flatMap_map,
    Function.comp_def, ← Group.items_unplaced, propertyFile_unplaced, id_eq]

theorem foldl_addTo_unplaced (files : List PropertyFile) :
    (files.map PropertyFile.unplaced).foldl (fun files file => file.addTo files) []
      = (files.foldl (fun files file => file.addTo files) []).map PropertyFile.unplaced := by
  rw [List.foldl_map]
  show List.foldl _ (List.map PropertyFile.unplaced []) files = _
  apply List.foldl_hom (List.map PropertyFile.unplaced)
  intro known file
  exact file.addTo_unplaced known

/-- Nor do those of a workspace. -/
theorem propertyFiles_unplaced (catalog : Catalog) (workspace : Workspace) :
    (propertyFiles catalog workspace).unplaced (List.map PropertyFile.unplaced)
      = propertyFiles catalog workspace.unplaced := by
  unfold propertyFiles
  rw [blocks_unplaced]
  simp only [Reported.unplaced, List.map_map, List.map_flatMap, List.flatMap_map,
    Function.comp_def, ← blockFiles_unplaced, ← foldl_addTo_unplaced]

/-! ## Layout -/

/-- The last places, those of conditions, are lost when a property file is written. -/
theorem insertProperty_unplaced (root : Path) (tree : PackTree) (file : PropertyFile) :
    insertProperty root tree file.unplaced = insertProperty root tree file := by
  unfold insertProperty
  simp only [PropertyFile.render_unplaced]
  rfl

theorem insertCopies_unplaced (root : Path) (copies : List CopyEntry) (tree : PackTree) :
    insertCopies root (copies.map CopyEntry.unplaced) tree = insertCopies root copies tree := by
  unfold insertCopies
  rw [List.foldl_map]
  rfl

/-- The pack of a workspace does not depend on places. With the lemmas on reading and on conversion,
neither does a whole compilation. -/
theorem ofWorkspace_unplaced (catalog : Catalog) (config : Config) (workspace : Workspace) :
    (ofWorkspace catalog config workspace).unplaced id
      = ofWorkspace catalog config workspace.unplaced := by
  unfold ofWorkspace
  rw [← propertyFiles_unplaced]
  refine Reported.unplaced_bind (List.map PropertyFile.unplaced) ?_
  simp only [copies_unplaced, insertCopies_unplaced, List.filter_map, List.foldl_map,
    insertProperty_unplaced]
  rfl

end Pack

end Reskin
