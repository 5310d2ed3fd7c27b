import Reskin.Proofs.Pack.Origin

/-!
# Rules that leave no trace

A property file that lists no item is not written. The rules that went into it are then without
effect, and the user learns why: each of their keys was reported as one that no item matches.

Keys are expanded and reported group by group, while files are left out much later, when the groups
of all blocks have been merged. The two go together since a merged file lists nothing just if no
group that went into it does, and a group lists nothing just if none of its keys does.

* **`ItemSelection.isEmpty_union_iff`**, **`isEmpty_items_iff`** — when a merged file and a group
  list nothing.
* **`forall_emitted_ne_iff`** — when no property file of a given identity is written.
* **`mem_diagnostics_of_isEmpty`** — the reports about a group that lists nothing.
* **`ofWorkspace_vanished`** — a rule without a property file, and what is reported about it.
-/

namespace Reskin

/-- What the property file of a rule of a block has in common with those that are merged into it. -/
def Block.identity? (block : Block) (rule : Rule) : Option PropertyFile.Identity :=
  rule.asset?.map fun asset =>
    let conditions := block.conditions.map fun condition => (condition.key.text, condition.value)
    match asset with
    | .texture path => ⟨.texture, rule.kind, path, conditions, block.weight⟩
    | .model path => ⟨.model, rule.kind, path, conditions, block.weight⟩

namespace ItemSelection

/-! ## Selections without items -/

theorem isEmpty_eq_false_iff {selection : ItemSelection} :
    selection.isEmpty = false ↔ selection = .all ∨ ∃ id ids, selection = .only (id :: ids) := by
  cases selection with
  | all => simp [isEmpty]
  | only ids => cases ids <;> simp [isEmpty]

theorem isEmpty_ofList {ids : List String} : (ofList ids).isEmpty = true ↔ ids = [] := by
  show (addNew [] ids).isEmpty = true ↔ ids = []
  simp only [List.isEmpty_iff, List.eq_nil_iff_forall_not_mem, mem_addNew, List.not_mem_nil,
    false_or]

/-- A union lists nothing just if none of its parts does. So a merged file is empty only if all that
went into it is. -/
theorem isEmpty_union_iff {selections : List ItemSelection} :
    (union selections).isEmpty = true ↔ ∀ selection ∈ selections, selection.isEmpty = true := by
  unfold union
  split
  · next hall =>
    obtain ⟨selection, hselection, hisAll⟩ := List.any_eq_true.mp hall
    refine iff_of_false Bool.false_ne_true fun hempty => ?_
    have hnone := hempty selection hselection
    cases selection with
    | all => cases hnone
    | only ids => cases hisAll
  · next hall =>
    have hids : ((selections.flatMap ids).eraseDups = []) ↔ ∀ selection ∈ selections,
        selection.ids = [] := by
      rw [← List.flatMap_eq_nil_iff]
      simp only [List.eq_nil_iff_forall_not_mem, List.mem_eraseDups]
    show ((selections.flatMap ids).eraseDups).isEmpty = true ↔ _
    rw [List.isEmpty_iff, hids]
    refine forall₂_congr fun selection hselection => ?_
    cases selection with
    | all => exact absurd (List.any_eq_true.mpr ⟨.all, hselection, rfl⟩) hall
    | only ids => exact List.isEmpty_iff.symm

end ItemSelection

namespace Pack

open PropertyFile (mergeAll firsts gather)

variable {catalog : Catalog} {config : Config} {workspace : Workspace} {block : Block}
  {rule : Rule} {rules : List Rule} {group : Group} {key : Token} {identity : PropertyFile.Identity}

/-! ## Keys -/

/-- A key that stands for no item. -/
structure IsUnknown (catalog : Catalog) (kind : RuleKind) (key : Token) : Prop where
  text_ne : key.text ≠ "*"
  not_modded : catalog.modded key.text = false
  matchingItems_eq : matchingItems catalog kind key.text = []

theorem value_expandKey_eq_nil_iff {kind : RuleKind} :
    (expandKey catalog kind key).value = []
      ↔ catalog.modded key.text = false ∧ matchingItems catalog kind key.text = [] := by
  unfold expandKey
  split
  · next hmodded => simp [hmodded]
  · next hmodded => simp [hmodded]

/-- A key without items is reported where it stands, with its text. -/
theorem mem_diagnostics_expandKey {kind : RuleKind}
    (h : (expandKey catalog kind key).value = []) :
    .located (.noItemMatches key.text) key.location ∈ (expandKey catalog kind key).diagnostics := by
  obtain ⟨hmodded, hitems⟩ := value_expandKey_eq_nil_iff.mp h
  rw [expandKey, if_neg (Bool.eq_false_iff.mp hmodded)]
  simp [hitems]

/-! ## Groups -/

/-- A group lists nothing just if it does not apply to everything and none of its keys stands for an
item. -/
theorem isEmpty_items_iff :
    (group.items catalog).value.isEmpty = true
      ↔ group.matchesAll = false
        ∧ ∀ key ∈ group.keys, (expandKey catalog group.kind key).value = [] := by
  unfold Group.items
  split
  · next hall => simp [hall, ItemSelection.isEmpty]
  · next hall =>
    show (ItemSelection.ofList ((group.keys.map (expandKey catalog group.kind)).flatMap
      Reported.value)).isEmpty = true ↔ _
    rw [ItemSelection.isEmpty_ofList, List.flatMap_map, List.flatMap_eq_nil_iff]
    exact (and_iff_right (Bool.eq_false_iff.mpr hall)).symm

theorem matchesAll_eq_false_iff :
    rule.matchesAll = false ↔ rule.isSetAll = false ∧ ∀ key ∈ rule.keys, key.text ≠ "*" := by
  rw [Rule.matchesAll, Bool.or_eq_false_iff, List.any_eq_false]
  simp only [beq_iff_eq, ne_eq]

/-- A group of keyed rules lists nothing just if all its rules name keys that stand for nothing. A
rule for everything would make the group apply to everything. -/
theorem isEmpty_items_iff_rules (h : group.IsSound) :
    (group.items catalog).value.isEmpty = true
      ↔ ∀ rule ∈ group.rules, rule.isSetAll = false
        ∧ ∀ key ∈ rule.keys, IsUnknown catalog group.kind key := by
  rw [isEmpty_items_iff, Group.matchesAll_eq h, List.any_eq_false]
  constructor
  · rintro ⟨hall, hkeys⟩ rule hrule
    obtain ⟨hset, hstar⟩ := matchesAll_eq_false_iff.mp (Bool.eq_false_iff.mpr (hall rule hrule))
    refine ⟨hset, fun key hkey => ?_⟩
    have hkey' : key ∈ group.keys := List.mem_flatMap.mpr ⟨rule, hrule, hkey⟩
    obtain ⟨hmodded, hitems⟩ := value_expandKey_eq_nil_iff.mp (hkeys key hkey')
    exact ⟨hstar key hkey, hmodded, hitems⟩
  · intro hrules
    refine ⟨fun rule hrule => Bool.eq_false_iff.mp ?_, fun key hkey => ?_⟩
    · obtain ⟨hset, hkeys⟩ := hrules rule hrule
      exact matchesAll_eq_false_iff.mpr ⟨hset, fun key hkey => (hkeys key hkey).text_ne⟩
    · obtain ⟨rule, hrule, hkey⟩ := List.mem_flatMap.mp hkey
      obtain ⟨-, hmodded, hitems⟩ := (hrules rule hrule).2 key hkey
      exact value_expandKey_eq_nil_iff.mpr ⟨hmodded, hitems⟩

/-- A rule that puts a file on items belongs to a group, that of its file and kind. -/
theorem exists_group_of_mem {asset : Asset} (hrule : rule ∈ rules)
    (hasset : rule.asset? = some asset) :
    ∃ group ∈ Group.ofRules rules, rule ∈ group.rules ∧ group.asset = asset
      ∧ group.kind = rule.kind := by
  have hsubject : rule.subject? = some (asset, rule.kind) := by
    rw [Rule.subject?, hasset]
    rfl
  refine ⟨Group.bucket rules (asset, rule.kind), ?_, ?_, rfl, rfl⟩
  · rw [Group.ofRules_eq]
    refine List.mem_map_of_mem (List.mem_eraseDups.mpr ?_)
    exact List.mem_filterMap.mpr ⟨rule, hrule, hsubject⟩
  · exact List.mem_filter.mpr ⟨hrule, decide_eq_true hsubject⟩

/-- The rules of a group are rules about what the group is about. -/
theorem mem_of_mem_group (hgroup : group ∈ Group.ofRules rules) (hrule : rule ∈ group.rules) :
    rule ∈ rules ∧ rule.asset? = some group.asset ∧ rule.kind = group.kind := by
  rw [Group.ofRules_eq] at hgroup
  obtain ⟨subject, -, rfl⟩ := List.mem_map.mp hgroup
  obtain ⟨hmem, hsubject⟩ := List.mem_filter.mp hrule
  obtain ⟨asset, hasset, heq⟩ := Option.map_eq_some_iff.mp (of_decide_eq_true hsubject)
  subst heq
  exact ⟨hmem, hasset, rfl⟩

/-- A rule and the group it belongs to have one identity, so that rules can be compared across
blocks without their groups. -/
theorem identity?_eq (catalog : Catalog) (block : Block) (hasset : rule.asset? = some group.asset)
    (hkind : rule.kind = group.kind) :
    block.identity? rule = some (groupFile catalog block group).identity := by
  obtain ⟨asset, kind, rules⟩ := group
  rw [Block.identity?, hasset, hkind]
  cases asset <;> rfl

/-! ## Files that are not written -/

/-- None of the merged files that list anything has a given identity just if no file of that
identity lists anything. Merging neither loses items nor moves them to another identity. -/
theorem forall_mergeAll_ne_iff {files : List PropertyFile} :
    (∀ file ∈ mergeAll files, file.items.isEmpty = false → file.identity ≠ identity)
      ↔ ∀ file ∈ files, file.identity = identity → file.items.isEmpty = true := by
  constructor
  · rintro hnone file hfile rfl
    have hmem : file.identity ∈ (mergeAll files).map PropertyFile.identity := by
      rw [PropertyFile.map_identity_mergeAll, List.mem_eraseDups]
      exact List.mem_map_of_mem hfile
    obtain ⟨merged, hmerged, hsame⟩ := List.mem_map.mp hmem
    -- The merged file of this identity lists nothing, so none of the files that went into it does.
    have hempty : merged.items.isEmpty = true := by
      refine Decidable.byContradiction fun hitems => ?_
      exact hnone merged hmerged (Bool.eq_false_iff.mpr hitems) hsame
    obtain ⟨first, -, rfl⟩ := List.mem_map.mp hmerged
    refine ItemSelection.isEmpty_union_iff.mp hempty _ (List.mem_map_of_mem ?_)
    exact List.mem_filter.mpr ⟨hfile, decide_eq_true (PropertyFile.isLike_iff.mpr hsame.symm)⟩
  · rintro hempty merged hmerged hitems rfl
    obtain ⟨first, -, rfl⟩ := List.mem_map.mp hmerged
    have hunion : (gather files first).items.isEmpty = true := by
      refine ItemSelection.isEmpty_union_iff.mpr fun items hmem => ?_
      obtain ⟨file, hfile, rfl⟩ := List.mem_map.mp hmem
      obtain ⟨hfile, hsame⟩ := List.mem_filter.mp hfile
      exact hempty file hfile (PropertyFile.isLike_iff.mp (of_decide_eq_true hsame))
    rw [hunion] at hitems
    cases hitems

theorem items_groupFile (catalog : Catalog) (block : Block) (group : Group) :
    (groupFile catalog block group).items = (group.items catalog).value := by
  obtain ⟨-, -, -, -, hitems⟩ := asset_groupFile catalog block group
  exact hitems

/-- What holds of all written files holds of all property files that list anything. Names are given
to these and to no others. -/
theorem forall_emitted_iff {P : PropertyFile → Prop} :
    (∀ entry ∈ emitted catalog config workspace, P entry.1)
      ↔ ∀ file ∈ (propertyFiles catalog workspace).value, file.items.isEmpty = false → P file := by
  have hfiles : (emitted catalog config workspace).map Prod.fst = listed catalog workspace :=
    List.map_fst_zip (Nat.le_of_eq (length_names _ _ _).symm)
  constructor
  · intro hemitted file hfile hitems
    have hlisted : file ∈ (emitted catalog config workspace).map Prod.fst := by
      rw [hfiles]
      exact List.mem_filter.mpr ⟨hfile, by rw [hitems]; rfl⟩
    obtain ⟨entry, hentry, rfl⟩ := List.mem_map.mp hlisted
    exact hemitted entry hentry
  · intro hproperty entry hentry
    obtain ⟨hfile, hitems⟩ := mem_propertyFiles_of_mem_emitted hentry
    exact hproperty entry.1 hfile hitems

/-- No property file of an identity is written just if no group of that identity lists anything, in
whatever block the group is. -/
theorem forall_emitted_ne_iff_groups :
    (∀ entry ∈ emitted catalog config workspace, entry.1.identity ≠ identity)
      ↔ ∀ block ∈ workspace.blocks, ∀ group ∈ Group.ofRules block.rules,
        (groupFile catalog block group).identity = identity →
          (group.items catalog).value.isEmpty = true := by
  refine (forall_emitted_iff (P := fun file => file.identity ≠ identity)).trans ?_
  rw [propertyFiles_eq_mergeAll_groups, forall_mergeAll_ne_iff]
  constructor
  · intro hempty block hblock group hgroup hidentity
    rw [← items_groupFile catalog block group]
    refine hempty _ (List.mem_flatMap.mpr ⟨block, hblock, ?_⟩) hidentity
    exact List.mem_map_of_mem hgroup
  · intro hempty file hfile hidentity
    obtain ⟨block, hblock, hfile⟩ := List.mem_flatMap.mp hfile
    obtain ⟨group, hgroup, rfl⟩ := List.mem_map.mp hfile
    rw [items_groupFile]
    exact hempty block hblock group hgroup hidentity

/-- No property file of an identity is written just if all rules of that identity name keys that
stand for nothing. This is the lemma on groups read back in terms of rules. -/
theorem forall_emitted_ne_iff
    (hkeyed : ∀ block ∈ workspace.blocks, ∀ rule ∈ block.rules, rule.IsKeyed) :
    (∀ entry ∈ emitted catalog config workspace, entry.1.identity ≠ identity)
      ↔ ∀ block ∈ workspace.blocks, ∀ rule ∈ block.rules, block.identity? rule = some identity →
        rule.isSetAll = false ∧ ∀ key ∈ rule.keys, IsUnknown catalog rule.kind key := by
  rw [forall_emitted_ne_iff_groups]
  constructor
  · intro hempty block hblock rule hrule hidentity
    obtain ⟨asset, hasset, -⟩ := Option.map_eq_some_iff.mp hidentity
    obtain ⟨group, hgroup, hmem, rfl, hkind⟩ := exists_group_of_mem hrule hasset
    have hsound := (grouped_ofRules (hkeyed block hblock)).sound group hgroup
    have hsame := identity?_eq catalog block hasset hkind.symm
    rw [← hkind]
    refine (isEmpty_items_iff_rules hsound).mp ?_ rule hmem
    exact hempty block hblock group hgroup (Option.some.inj (hsame.symm.trans hidentity))
  · intro hunknown block hblock group hgroup hidentity
    have hsound := (grouped_ofRules (hkeyed block hblock)).sound group hgroup
    rw [isEmpty_items_iff_rules hsound]
    intro rule hrule
    obtain ⟨hmem, hasset, hkind⟩ := mem_of_mem_group hgroup hrule
    have hsame := identity?_eq catalog block hasset hkind
    rw [← hkind]
    exact hunknown block hblock rule hmem (hsame.trans (congrArg some hidentity))

/-! ## Reports -/

/-- A group that lists nothing has all its keys reported, because none of them stands for an
item. -/
theorem mem_diagnostics_of_isEmpty (hblock : block ∈ workspace.blocks)
    (hgroup : group ∈ Group.ofRules block.rules)
    (hempty : (group.items catalog).value.isEmpty = true) (hkey : key ∈ group.keys) :
    .located (.noItemMatches key.text) key.location
      ∈ (ofWorkspace catalog config workspace).diagnostics := by
  obtain ⟨hall, hkeys⟩ := isEmpty_items_iff.mp hempty
  have hitems : .located (.noItemMatches key.text) key.location
      ∈ (group.items catalog).diagnostics := by
    rw [Group.items, if_neg (Bool.eq_false_iff.mp hall)]
    refine List.mem_flatMap.mpr ⟨_, List.mem_map_of_mem hkey, ?_⟩
    exact mem_diagnostics_expandKey (hkeys key hkey)
  rw [diagnostics_ofWorkspace]
  refine List.mem_flatMap.mpr ⟨block, hblock, List.mem_append_right _ ?_⟩
  exact List.mem_flatMap.mpr ⟨_, List.mem_map_of_mem hgroup, hitems⟩

/-- **No rule vanishes without a report.** Every property file that is written applies to everything
of its kind or lists an item. None is written for the file, the kind, the conditions and the weight
of a rule just if all the rules for them, in whatever block, name keys that stand for nothing. Then
the rule does not apply to everything, it has keys, and each of them is reported as one that no item
matches, with its text and place. -/
theorem ofWorkspace_vanished (catalog : Catalog) (config : Config) (workspace : Workspace)
    (hrules : ∀ block ∈ workspace.blocks, ∀ rule ∈ block.rules,
      rule.asset?.isSome = true ∧ rule.IsKeyed) :
    (∀ entry ∈ emitted catalog config workspace,
      (ofWorkspace catalog config workspace).value.get? (propertyPath entry.2 "properties")
          = some (.text (entry.1.render entry.2))
        ∧ (entry.1.items = .all ∨ ∃ id ids, entry.1.items = .only (id :: ids)))
      ∧ ∀ block ∈ workspace.blocks, ∀ rule ∈ block.rules,
        ∃ identity, block.identity? rule = some identity
          ∧ ((∀ entry ∈ emitted catalog config workspace, entry.1.identity ≠ identity)
            ↔ ∀ other ∈ workspace.blocks, ∀ r ∈ other.rules, other.identity? r = some identity →
              r.isSetAll = false ∧ ∀ key ∈ r.keys, IsUnknown catalog r.kind key)
          ∧ ((∀ entry ∈ emitted catalog config workspace, entry.1.identity ≠ identity) →
            rule.isSetAll = false ∧ rule.keys ≠ []
              ∧ ∀ key ∈ rule.keys, .located (.noItemMatches key.text) key.location
                ∈ (ofWorkspace catalog config workspace).diagnostics) := by
  have hkeyed : ∀ block ∈ workspace.blocks, ∀ rule ∈ block.rules, rule.IsKeyed :=
    fun block hblock rule hrule => (hrules block hblock rule hrule).2
  constructor
  · intro entry hentry
    obtain ⟨-, hitems⟩ := mem_propertyFiles_of_mem_emitted hentry
    exact ⟨(get?_of_mem_emitted hentry).1, ItemSelection.isEmpty_eq_false_iff.mp hitems⟩
  · intro block hblock rule hrule
    obtain ⟨asset, hasset⟩ := Option.isSome_iff_exists.mp (hrules block hblock rule hrule).1
    obtain ⟨group, hgroup, hmem, rfl, hkind⟩ := exists_group_of_mem hrule hasset
    have hidentity := identity?_eq catalog block hasset hkind.symm
    refine ⟨_, hidentity, forall_emitted_ne_iff hkeyed, fun hnone => ?_⟩
    obtain ⟨hset, -⟩ :=
      (forall_emitted_ne_iff hkeyed).mp hnone block hblock rule hrule hidentity
    have hempty := forall_emitted_ne_iff_groups.mp hnone block hblock group hgroup rfl
    refine ⟨hset, fun hnil => ?_, fun key hkey => ?_⟩
    · -- A rule without keys would apply to everything.
      have hall := matchesAll_of_keys_eq_nil (hkeyed block hblock rule hrule) hasset hnil
      rw [Rule.matchesAll, hset, hnil] at hall
      cases hall
    · exact mem_diagnostics_of_isEmpty hblock hgroup hempty
        (List.mem_flatMap.mpr ⟨rule, hmem, hkey⟩)

/-- Weapons that are in no catalog, with a texture. -/
def unmatched : Rule :=
  .mapAll (.target .items) [⟨"mace", 2, 3, none⟩, ⟨"halberd", 2, 9, none⟩] "a.png"
    ⟨"items", 2, 1, none⟩

/-- A block with rules for two textures. Its rules for the first one name unknown weapons only, its
rule for the second one an axe as well. -/
def partlyUnmatched : Block where
  conditions := []
  rules :=
    [unmatched,
      .mapAll (.target .items) [⟨"mace", 3, 3, none⟩, ⟨"gold_axe", 3, 9, none⟩] "b.png"
        ⟨"items", 3, 1, none⟩,
      .entry ⟨⟨"flail", 4, 3, none⟩, "a.png", .target .items⟩]
  weight := 0
  token := ⟨"any", 1, 1, none⟩

theorem ofWorkspace_vanished_partlyUnmatched :
    let workspace : Workspace :=
      { root := ⟨"pack"⟩, files := [⟨⟨"pack/first"⟩, 0, ⟨"pack"⟩, {}, [partlyUnmatched.toRule]⟩] }
    (∀ block ∈ workspace.blocks, ∀ rule ∈ block.rules, rule.asset?.isSome = true ∧ rule.IsKeyed)
      ∧ (emitted weapons {} workspace).map (fun entry => (entry.1.target, entry.1.items))
        = [("b.png", .only ["gold_axe"])]
      ∧ unmatched.keys.map Token.text = ["mace", "halberd"]
      ∧ ∀ key ∈ unmatched.keys, .located (.noItemMatches key.text) key.location
        ∈ (ofWorkspace weapons {} workspace).diagnostics := by
  intro workspace
  have hrules : ∀ block ∈ workspace.blocks, ∀ rule ∈ block.rules,
      rule.asset?.isSome = true ∧ rule.IsKeyed := by
    decide +kernel
  have hemitted : (emitted weapons {} workspace).map (fun entry => (entry.1.target, entry.1.items))
      = [("b.png", .only ["gold_axe"])] := by
    decide +kernel
  obtain ⟨identity, hidentity, -, hreported⟩ :=
    (ofWorkspace_vanished weapons {} workspace hrules).2 partlyUnmatched List.mem_cons_self
      unmatched List.mem_cons_self
  have htarget : identity.target = "a.png" := by
    rw [← Option.some.inj hidentity]
  have hnone : ∀ entry ∈ emitted weapons {} workspace, entry.1.identity ≠ identity := by
    rintro entry hentry rfl
    have hpair := List.mem_map_of_mem (f := fun entry => (entry.1.target, entry.1.items)) hentry
    rw [hemitted, List.mem_singleton] at hpair
    have hdifferent : "b.png" = "a.png" := (congrArg Prod.fst hpair).symm.trans htarget
    revert hdifferent
    decide
  exact ⟨hrules, hemitted, rfl, (hreported hnone).2.2⟩

end Pack

end Reskin
