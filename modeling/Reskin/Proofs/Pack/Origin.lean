import Reskin.Proofs.Pack.Coverage
import Reskin.Proofs.Pack.Emission
import Reskin.Proofs.Pack.Listing

/-!
# Where the contents of a pack come from

Grouping and merging invent nothing: a property file has the texture or model of a rule, the
conditions and the weight of the block of that rule, and items that keys of such rules stand for.
The pack itself is a run of files that are put at places: the metadata, the copies, and two files
for each property file that lists any item.

* **`exists_isAbout`** — the rule that a property file is about.
* **`exists_key_of_mem_ids`** — the key that an item of a property file comes from.
* **`value_ofWorkspace`** — the pack as a run of files that are put at places.
* **`mem_listing_ofWorkspace`** — what a pack can hold.
-/

namespace Reskin

/-- The file that a property file puts on items. -/
def PropertyFile.asset (file : PropertyFile) : Asset :=
  match file.variant with
  | .texture => .texture file.target
  | .model => .model file.target

namespace Pack

open PackTree
open PropertyFile (mergeAll firsts gather)

variable {catalog : Catalog} {config : Config} {workspace : Workspace} {file : PropertyFile}

/-! ## Groups -/

/-- A group comes from a rule that puts its file on its kind of things. -/
theorem Group.exists_rule_of_mem_ofRules {rules : List Rule} {group : Group}
    (h : group ∈ Group.ofRules rules) :
    ∃ rule ∈ rules, rule.asset? = some group.asset ∧ rule.kind = group.kind := by
  rw [ofRules_eq] at h
  obtain ⟨subject, hsubject, rfl⟩ := List.mem_map.mp h
  obtain ⟨rule, hrule, hsame⟩ := List.mem_filterMap.mp (List.mem_eraseDups.mp hsubject)
  obtain ⟨asset, hasset, rfl⟩ := Option.map_eq_some_iff.mp hsame
  exact ⟨rule, hrule, hasset, rfl⟩

/-- A key of a group is a key of a rule. -/
theorem Group.exists_rule_of_mem_keys {rules : List Rule} {group : Group}
    (h : group ∈ Group.ofRules rules) {key : Token} (hkey : key ∈ group.keys) :
    ∃ rule ∈ rules, key ∈ rule.keys := by
  rw [ofRules_eq] at h
  obtain ⟨subject, -, rfl⟩ := List.mem_map.mp h
  obtain ⟨rule, hrule, hkey⟩ := List.mem_flatMap.mp hkey
  exact ⟨rule, (List.mem_filter.mp hrule).1, hkey⟩

/-- All that the property file of a group has from the group and from its block. -/
theorem asset_groupFile (catalog : Catalog) (block : Block) (group : Group) :
    (groupFile catalog block group).asset = group.asset
      ∧ (groupFile catalog block group).kind = group.kind
      ∧ (groupFile catalog block group).conditions = block.conditions
      ∧ (groupFile catalog block group).weight = block.weight
      ∧ (groupFile catalog block group).items = (group.items catalog).value := by
  unfold groupFile propertyFile
  split
  · next hasset => exact ⟨hasset.symm, rfl, rfl, rfl, rfl⟩
  · next hasset => exact ⟨hasset.symm, rfl, rfl, rfl, rfl⟩

/-- An item that a group lists comes from one of its keys. -/
theorem Group.exists_key_of_mem_items {group : Group} {id : String}
    (h : id ∈ (group.items catalog).value.ids) :
    ∃ key ∈ group.keys, id ∈ (expandKey catalog group.kind key).value := by
  unfold items at h
  split at h
  · cases h
  · have hid : id ∈ ItemSelection.addNew []
        ((group.keys.map (expandKey catalog group.kind)).flatMap Reported.value) := h
    rw [ItemSelection.mem_addNew] at hid
    rcases hid with hnone | hid
    · cases hnone
    · rw [List.flatMap_map] at hid
      exact List.mem_flatMap.mp hid

/-! ## Property files -/

theorem firsts_subset (files : List PropertyFile) : firsts files ⊆ files := by
  induction files using List.reverseRecOn with
  | nil => exact List.Subset.refl _
  | append_singleton files file ih =>
    rw [PropertyFile.firsts_snoc]
    split
    · exact List.subset_append_of_subset_left [file] ih
    · exact List.append_subset.mpr ⟨List.subset_append_of_subset_left [file] ih,
        List.subset_append_right files [file]⟩

/-- The rule that a property file is about, with its block. -/
structure IsAbout (file : PropertyFile) (block : Block) (rule : Rule) : Prop where
  mem : rule ∈ block.rules
  asset?_eq : rule.asset? = some file.asset
  kind_eq : rule.kind = file.kind
  conditions_eq : file.conditions = block.conditions
  weight_eq : file.weight = block.weight

/-- Every property file is about a rule. Merging keeps the first file of each identity, which is
that of some group, and a group comes from a rule. -/
theorem exists_isAbout (h : file ∈ (propertyFiles catalog workspace).value) :
    ∃ block ∈ workspace.blocks, ∃ rule, IsAbout file block rule := by
  rw [propertyFiles_eq_mergeAll_groups] at h
  obtain ⟨first, hfirst, rfl⟩ := List.mem_map.mp h
  -- Merging changes the items of the first file only.
  obtain ⟨block, hblock, hfile⟩ := List.mem_flatMap.mp (firsts_subset _ hfirst)
  obtain ⟨group, hgroup, rfl⟩ := List.mem_map.mp hfile
  obtain ⟨rule, hrule, hasset, hkind⟩ := Group.exists_rule_of_mem_ofRules hgroup
  obtain ⟨hasset', hkind', hconditions, hweight, -⟩ := asset_groupFile catalog block group
  refine ⟨block, hblock, rule, hrule, ?_, hkind.trans hkind'.symm, hconditions, hweight⟩
  exact hasset.trans (congrArg some hasset'.symm)

theorem mem_ids_union {selections : List ItemSelection} {id : String}
    (h : id ∈ (ItemSelection.union selections).ids) :
    ∃ selection ∈ selections, id ∈ selection.ids := by
  unfold ItemSelection.union at h
  split at h
  · cases h
  · exact List.mem_flatMap.mp (List.mem_eraseDups.mp h)

/-- Every item of a property file comes from a key of a rule. The rule need not be the one that the
file is about, since files are merged. -/
theorem exists_key_of_mem_ids (h : file ∈ (propertyFiles catalog workspace).value) {id : String}
    (hid : id ∈ file.items.ids) :
    ∃ block ∈ workspace.blocks, ∃ rule ∈ block.rules, ∃ key ∈ rule.keys,
      id ∈ (expandKey catalog file.kind key).value := by
  rw [propertyFiles_eq_mergeAll_groups] at h
  obtain ⟨first, -, rfl⟩ := List.mem_map.mp h
  obtain ⟨items, hitems, hid⟩ := mem_ids_union hid
  obtain ⟨other, hother, rfl⟩ := List.mem_map.mp hitems
  obtain ⟨hother, hsame⟩ := List.mem_filter.mp hother
  obtain ⟨block, hblock, hfile⟩ := List.mem_flatMap.mp hother
  obtain ⟨group, hgroup, rfl⟩ := List.mem_map.mp hfile
  -- The files that are merged are of one kind.
  obtain ⟨-, hkind, -, -, hitems⟩ := asset_groupFile catalog block group
  have hsame' : group.kind = (gather (workspace.blocks.flatMap fun block =>
      (Group.ofRules block.rules).map (groupFile catalog block)) first).kind :=
    hkind.symm.trans (of_decide_eq_true hsame).2.1
  rw [hitems] at hid
  obtain ⟨key, hkey, hid⟩ := Group.exists_key_of_mem_items hid
  obtain ⟨rule, hrule, hkey⟩ := Group.exists_rule_of_mem_keys hgroup hkey
  exact ⟨block, hblock, rule, hrule, key, hkey, hsame' ▸ hid⟩

/-! ## The pack as a run of files -/

/-- The pack before property files are written into it. -/
def base (config : Config) (workspace : Workspace) : PackTree :=
  insertCopies workspace.root workspace.copies (skeleton config)

/-- The property files that list any item. -/
def listed (catalog : Catalog) (workspace : Workspace) : List PropertyFile :=
  (propertyFiles catalog workspace).value.filter fun file => !file.items.isEmpty

/-- The property files that are written, each with its name. -/
def emitted (catalog : Catalog) (config : Config) (workspace : Workspace) :
    List (PropertyFile × String) :=
  (listed catalog workspace).zip
    (names workspace.root (base config workspace) (listed catalog workspace))

theorem mem_propertyFiles_of_mem_emitted {entry : PropertyFile × String}
    (h : entry ∈ emitted catalog config workspace) :
    entry.1 ∈ (propertyFiles catalog workspace).value ∧ entry.1.items.isEmpty = false := by
  have hlisted : entry.1 ∈ listed catalog workspace := (List.of_mem_zip h).1
  obtain ⟨hfile, hitems⟩ := List.mem_filter.mp hlisted
  exact ⟨hfile, (Bool.not_eq_true' _).mp hitems⟩

/-- A file is written under one of the candidates for its name. -/
theorem exists_candidate_of_mem_emitted {entry : PropertyFile × String}
    (h : entry ∈ emitted catalog config workspace) :
    ∃ n, entry.2 = candidate entry.1.baseName n := by
  obtain ⟨i, hi⟩ := List.mem_iff_getElem?.mp h
  obtain ⟨hfile, hname⟩ := List.getElem?_zip_eq_some.mp hi
  obtain ⟨n, hcandidate, -⟩ := isFirstFree_names hfile hname
  exact ⟨n, hcandidate⟩

/-- The metadata of a pack, with its place. -/
def metadataPlacements (config : Config) : List (Place × PackFile) :=
  config.packFormat.toList.map fun format =>
    (([], "pack.mcmeta"), .text (metadata format config.description))

/-- The copies of a workspace, with their places. -/
def copyPlacements (workspace : Workspace) : List (Place × PackFile) :=
  workspace.copies.map fun entry =>
    (splitPath entry.destination, .copy (workspace.root.join entry.source))

/-- The files of the property files of a workspace, with their places. -/
def propertyPlacements (catalog : Catalog) (config : Config) (workspace : Workspace) :
    List (Place × PackFile) :=
  (emitted catalog config workspace).flatMap fun entry => written workspace.root entry.1 entry.2

/-- Before property files, a pack is its metadata and its copies, put at their places. -/
theorem base_eq_putAll (config : Config) (workspace : Workspace) :
    base config workspace = putAll (metadataPlacements config ++ copyPlacements workspace)
      (empty.createDirectory propertyDirectory) := by
  have hskeleton : skeleton config
      = putAll (metadataPlacements config) (empty.createDirectory propertyDirectory) := by
    unfold skeleton metadataPlacements
    cases config.packFormat with
    | none => rfl
    | some format =>
      have hsplit : splitPath "pack.mcmeta" = ([], "pack.mcmeta") := by decide
      show modifyAt _ _ _ = putAll [_] _
      rw [modifyAt_eq, hsplit]
      rfl
  rw [putAll_append, ← hskeleton, base, insertCopies, copyPlacements, putAll, List.foldl_map]
  rfl

/-- **A pack is a run of files that are put at places**, starting with the empty property directory.
What is known about such runs is known about packs from here on. -/
theorem value_ofWorkspace (catalog : Catalog) (config : Config) (workspace : Workspace) :
    (ofWorkspace catalog config workspace).value
      = putAll (metadataPlacements config ++ copyPlacements workspace
          ++ propertyPlacements catalog config workspace)
        (empty.createDirectory propertyDirectory) := by
  have hemit := (emit_eq_putAll workspace.root (base config workspace) (listed catalog workspace)).1
  rw [putAll_append, ← base_eq_putAll]
  exact hemit

theorem diagnostics_ofWorkspace (catalog : Catalog) (config : Config) (workspace : Workspace) :
    (ofWorkspace catalog config workspace).diagnostics
      = workspace.blocks.flatMap fun block => (blockFiles catalog block).diagnostics := by
  show (workspace.blocks.map (blockFiles catalog)).flatMap Reported.diagnostics ++ [] = _
  rw [List.append_nil, List.flatMap_map]

/-- A written property file is found under its name, with a copy of its target beside it. Both were
new when they were written, so nothing has replaced them. -/
theorem get?_of_mem_emitted {entry : PropertyFile × String}
    (h : entry ∈ emitted catalog config workspace) :
    (ofWorkspace catalog config workspace).value.get? (propertyPath entry.2 "properties")
        = some (.text (entry.1.render entry.2))
      ∧ (ofWorkspace catalog config workspace).value.get?
          (propertyPath entry.2 entry.1.variant.extension)
        = some (.copy (workspace.root.join entry.1.target)) := by
  obtain ⟨hemit, hfresh⟩ :=
    emit_eq_putAll workspace.root (base config workspace) (listed catalog workspace)
  have hvalue : (ofWorkspace catalog config workspace).value
      = putAll (propertyPlacements catalog config workspace) (base config workspace) := hemit
  rw [hvalue, get?_propertyPath _ _ slash_not_mem_properties,
    get?_propertyPath _ _ (slash_not_mem_extension entry.1.variant)]
  constructor
  · exact hfresh.file?_putAll_of_mem (List.mem_flatMap.mpr ⟨entry, h, List.mem_cons_self⟩)
  · refine hfresh.file?_putAll_of_mem (List.mem_flatMap.mpr ⟨entry, h, ?_⟩)
    exact List.mem_cons_of_mem _ List.mem_cons_self

/-- What a pack holds was put there, or is a directory on the way to it. -/
theorem mem_listing_ofWorkspace {entry : List String × Option PackFile}
    (h : entry ∈ (ofWorkspace catalog config workspace).value.listing) :
    (entry.2 = none ∧ entry.1 ≠ [] ∧ entry.1 <+: segments propertyDirectory)
      ∨ ∃ placement ∈ metadataPlacements config ++ copyPlacements workspace
          ++ propertyPlacements catalog config workspace,
        (entry.2 = none ∧ entry.1 ≠ [] ∧ entry.1 <+: placement.1.1)
          ∨ entry = (placement.1.1 ++ [placement.1.2], some placement.2) := by
  rw [value_ofWorkspace] at h
  rcases mem_listing_putAll h with hstart | hplaced
  · rcases mem_listing_createDirectory hstart with hempty | hway
    · rw [listing_empty] at hempty
      cases hempty
    · exact .inl hway
  · exact .inr hplaced

end Pack

end Reskin
