import Reskin.Compiler
import Reskin.Files.Memory
import Reskin.Proofs.Pack.Grouping

/-!
# Models for every item

A rule for a model that names no items is meant for all of them. Whether it gets them is decided for
the group of rules of its block that put the same model on items, from all their keys together: one
rule with keys next to it takes the group down to those keys.

* **`Group.ofRules_eq`**: the groups of some rules without the process of grouping, one for each
  subject in the order in which subjects come up, with all the rules about it.
* **`filter_mergeAll`**: of the merged files exactly one has a given identity, and it applies to
  everything just if one of the files that went into it does.
* **`modelFile_all_iff`**: when the property file of a model without keys applies to everything.
* **`unkeyedModel_restricted`**: a source file whose model without keys is put on a bow only.
-/

namespace Reskin

open PropertyFile (addAll mergeAll)

/-- What a rule puts on which kind of things. -/
def Rule.subject? (rule : Rule) : Option (Asset × RuleKind) :=
  rule.asset?.map fun asset => (asset, rule.kind)

namespace Pack

variable {catalog : Catalog} {block : Block} {asset : Asset} {rule : Rule} {rules : List Rule}

/-! ## Groups without grouping -/

namespace Group

/-- The rules about a subject as a group. -/
def bucket (rules : List Rule) (subject : Asset × RuleKind) : Group :=
  ⟨subject.1, subject.2, rules.filter fun rule => rule.subject? = some subject⟩

theorem bucket_snoc_of_eq {subject : Asset × RuleKind} (h : rule.subject? = some subject) :
    bucket (rules ++ [rule]) subject = (bucket rules subject).snoc rule := by
  simp [bucket, snoc, h]

theorem bucket_snoc_of_ne {subject : Asset × RuleKind} (h : rule.subject? ≠ some subject) :
    bucket (rules ++ [rule]) subject = bucket rules subject := by
  simp [bucket, h]

/-- A rule about a new subject starts a group of its own, behind the groups that are there. -/
theorem addTo_buckets_of_not_mem {subjects : List (Asset × RuleKind)}
    (h : rule.subject? = some (asset, rule.kind)) (hnew : (asset, rule.kind) ∉ subjects) :
    addTo asset rule (subjects.map (bucket rules))
      = subjects.map (bucket (rules ++ [rule])) ++ [ofRule asset rule] := by
  induction subjects with
  | nil => rfl
  | cons subject rest ih =>
    rw [List.mem_cons, not_or] at hnew
    have hsubject : rule.subject? ≠ some subject := fun hsame =>
      hnew.1 (Option.some.inj (h.symm.trans hsame))
    have hbucket : (bucket rules subject).subject ≠ (asset, rule.kind) := Ne.symm hnew.1
    rw [List.map_cons, List.map_cons, addTo_cons_of_ne hbucket, ih hnew.2,
      bucket_snoc_of_ne hsubject, List.cons_append]

/-- A rule about a known subject joins the group of that subject. There is one such group, and the
others do not see the rule. -/
theorem addTo_buckets_of_mem {subjects : List (Asset × RuleKind)} (hdistinct : subjects.Nodup)
    (h : rule.subject? = some (asset, rule.kind)) (hmem : (asset, rule.kind) ∈ subjects) :
    addTo asset rule (subjects.map (bucket rules)) = subjects.map (bucket (rules ++ [rule])) := by
  induction subjects with
  | nil => cases hmem
  | cons subject rest ih =>
    obtain ⟨hnew, hrest⟩ := List.nodup_cons.mp hdistinct
    rw [List.map_cons, List.map_cons]
    by_cases heq : subject = (asset, rule.kind)
    · -- The rule stays in the first bucket, and the others are about other subjects.
      subst heq
      have hothers : rest.map (bucket rules) = rest.map (bucket (rules ++ [rule])) := by
        refine List.map_congr_left fun other hother => (bucket_snoc_of_ne fun hsame => ?_).symm
        exact hnew (Option.some.inj (h.symm.trans hsame) ▸ hother)
      rw [addTo_cons_of_eq rfl, bucket_snoc_of_eq h, hothers]
    · have hsubject : rule.subject? ≠ some subject := fun hsame =>
        heq (Option.some.inj (h.symm.trans hsame)).symm
      have hmem' : (asset, rule.kind) ∈ rest :=
        (List.mem_cons.mp hmem).resolve_left fun hsame => heq hsame.symm
      have hbucket : (bucket rules subject).subject ≠ (asset, rule.kind) := heq
      rw [addTo_cons_of_ne hbucket, ih hrest hmem', bucket_snoc_of_ne hsubject]

/-- The groups of some rules: for each subject, all the rules about it. Induction from the end of
the list, since grouping takes the rules as they come. -/
theorem ofRules_eq (rules : List Rule) :
    ofRules rules = (rules.filterMap Rule.subject?).eraseDups.map (bucket rules) := by
  induction rules using List.reverseRecOn with
  | nil => rfl
  | append_singleton rules rule ih =>
    rw [ofRules_snoc, ih, List.filterMap_append]
    cases hasset : rule.asset? with
    | none =>
      have hsubject : rule.subject? = none := by rw [Rule.subject?, hasset]; rfl
      rw [List.filterMap_cons_none hsubject, List.filterMap_nil, List.append_nil]
      refine List.map_congr_left fun subject _ => (bucket_snoc_of_ne ?_).symm
      rw [hsubject]
      exact Option.some_ne_none subject |>.symm
    | some asset =>
      have hsubject : rule.subject? = some (asset, rule.kind) := by rw [Rule.subject?, hasset]; rfl
      rw [List.filterMap_cons_some hsubject, List.filterMap_nil, eraseDups_snoc]
      dsimp only
      split
      · next hknown =>
        exact addTo_buckets_of_mem (nodup_eraseDups _) hsubject (List.contains_iff_mem.mp hknown)
      · next hnew =>
        rw [List.contains_iff_mem] at hnew
        have hnone : rules.filter (fun r => r.subject? = some (asset, rule.kind)) = [] := by
          rw [List.filter_eq_nil_iff]
          intro other hother hsame
          refine hnew (List.mem_eraseDups.mpr ?_)
          exact List.mem_filterMap.mpr ⟨other, hother, of_decide_eq_true hsame⟩
        have hlast : bucket (rules ++ [rule]) (asset, rule.kind) = ofRule asset rule := by
          rw [bucket_snoc_of_eq hsubject, bucket, hnone]
          rfl
        rw [addTo_buckets_of_not_mem hsubject hnew, List.map_append, List.map_singleton, hlast]

end Group

/-! ## Files of one identity -/

/-- Selections add up to everything just if one of them is everything. Listed items never do,
however many there are. -/
theorem union_eq_all_iff {selections : List ItemSelection} :
    ItemSelection.union selections = .all ↔ .all ∈ selections := by
  have hany : selections.any ItemSelection.isAll = true ↔ .all ∈ selections := by
    rw [List.any_eq_true]
    constructor
    · rintro ⟨selection, hmem, hall⟩
      cases selection with
      | all => exact hmem
      | only ids => cases hall
    · exact fun hmem => ⟨.all, hmem, rfl⟩
  rw [ItemSelection.union, ← hany]
  split <;> simp_all

/-- Of the merged files one has the identity of a given file, and it applies to everything just if a
file of that identity does. So what a block does to a file can be undone by no other block. -/
theorem filter_mergeAll {files : List PropertyFile} {identity : PropertyFile.Identity}
    (h : identity ∈ files.map PropertyFile.identity) :
    ∃ file, (mergeAll files).filter (fun f => f.identity = identity) = [file]
      ∧ (file.items = .all ↔ ∃ f ∈ files, f.identity = identity ∧ f.items = .all) := by
  have hidentities := PropertyFile.map_identity_mergeAll files
  have hdistinct : ((mergeAll files).map PropertyFile.identity).Nodup := by
    rw [hidentities]
    exact nodup_eraseDups _
  obtain ⟨file, hfile, rfl⟩ : ∃ file ∈ mergeAll files, file.identity = identity := by
    rw [← List.mem_eraseDups, ← hidentities] at h
    exact List.mem_map.mp h
  refine ⟨file, filter_eq_singleton_of_nodup hdistinct hfile, ?_⟩
  obtain ⟨first, -, rfl⟩ := List.mem_map.mp hfile
  show ItemSelection.union _ = .all ↔ _
  rw [union_eq_all_iff, List.mem_map]
  simp only [List.mem_filter, decide_eq_true_eq, PropertyFile.isLike_iff, and_assoc]
  rfl

theorem Group.items_eq_all_iff {group : Group} :
    (group.items catalog).value = .all ↔ group.matchesAll = true := by
  rw [items]
  split
  · next hall => exact iff_of_true rfl hall
  · next hall => exact iff_of_false (fun heq => by cases heq) hall

/-- A group lists no item twice, so files may be merged by adding what is new. -/
theorem isDistinct_groupFile (catalog : Catalog) (block : Block) (group : Group) :
    (groupFile catalog block group).items.IsDistinct := by
  have hitems : (groupFile catalog block group).items = (group.items catalog).value := by
    unfold groupFile propertyFile
    split <;> rfl
  rw [hitems, Group.items]
  split
  · exact ItemSelection.isDistinct_all
  · exact ItemSelection.isDistinct_ofList _

/-- The property files of a workspace are the files of the groups of its blocks, merged. With
`Group.ofRules_eq`, neither the grouping nor the merging is left as a process. -/
theorem propertyFiles_eq_mergeAll_groups (catalog : Catalog) (workspace : Workspace) :
    (propertyFiles catalog workspace).value
      = mergeAll (workspace.blocks.flatMap fun block =>
          (Group.ofRules block.rules).map (groupFile catalog block)) := by
  have hfiles : (propertyFiles catalog workspace).value
      = addAll (workspace.blocks.flatMap fun block =>
          (Group.ofRules block.rules).map (groupFile catalog block)) [] := by
    simp only [propertyFiles, List.flatMap_map, value_blockFiles]
    rfl
  rw [hfiles]
  refine PropertyFile.addAll_nil_eq_mergeAll fun file hfile => ?_
  obtain ⟨block, -, hfile⟩ := List.mem_flatMap.mp hfile
  obtain ⟨group, -, rfl⟩ := List.mem_map.mp hfile
  exact isDistinct_groupFile catalog block group

/-! ## Models -/

/-- The identity of the property file that puts a model on items under the conditions of a block. -/
def modelIdentity (block : Block) (path : String) : PropertyFile.Identity :=
  ⟨.model, .target .items, path,
    block.conditions.map fun condition => (condition.key.text, condition.value), block.weight⟩

/-- What a block does to put a model on every item: it has rules for the model, and none of them
names an item or one of them names `*`. -/
structure PutsOnAll (block : Block) (path : String) : Prop where
  exists_rule : ∃ keys token, Rule.model keys path token ∈ block.rules
  unkeyed_or_star : (∀ keys token, Rule.model keys path token ∈ block.rules → keys = [])
    ∨ ∃ keys token, Rule.model keys path token ∈ block.rules ∧ ∃ key ∈ keys, key.text = "*"

theorem subject?_eq_model_iff {path : String} :
    rule.subject? = some (.model path, .target .items)
      ↔ ∃ keys token, rule = .model keys path token := by
  cases rule <;> simp [Rule.subject?, Rule.asset?, Rule.kind]

/-- The rules in the group of a model are the rules for that model. -/
theorem mem_bucket_model_iff {path : String} :
    rule ∈ (Group.bucket rules (.model path, .target .items)).rules
      ↔ ∃ keys token, rule = .model keys path token ∧ .model keys path token ∈ rules := by
  rw [Group.bucket, List.mem_filter, decide_eq_true_eq, subject?_eq_model_iff]
  constructor
  · rintro ⟨hmem, keys, token, rfl⟩
    exact ⟨keys, token, rfl, hmem⟩
  · rintro ⟨keys, token, rfl, hmem⟩
    exact ⟨hmem, keys, token, rfl⟩

/-- When the group of a model applies to everything. Its rules are never of the kind that sets
everything, so either there are no keys at all or one of them is `*`. -/
theorem matchesAll_bucket_model_iff {path : String} :
    (Group.bucket rules (.model path, .target .items)).matchesAll = true
      ↔ (∀ keys token, Rule.model keys path token ∈ rules → keys = [])
        ∨ ∃ keys token, Rule.model keys path token ∈ rules ∧ ∃ key ∈ keys, key.text = "*" := by
  let group := Group.bucket rules (.model path, .target .items)
  have hkeys : group.keys.isEmpty = true
      ↔ ∀ keys token, Rule.model keys path token ∈ rules → keys = [] := by
    rw [List.isEmpty_iff, Group.keys, List.flatMap_eq_nil_iff]
    constructor
    · intro h keys token hmem
      exact h _ (mem_bucket_model_iff.mpr ⟨keys, token, rfl, hmem⟩)
    · intro h rule hrule
      obtain ⟨keys, token, rfl, hmem⟩ := mem_bucket_model_iff.mp hrule
      exact h keys token hmem
  have hset : group.rules.any Rule.isSetAll = false := by
    rw [List.any_eq_false]
    intro rule hrule
    obtain ⟨keys, token, rfl, -⟩ := mem_bucket_model_iff.mp hrule
    exact Bool.false_ne_true
  have hstar : (group.keys.any fun key => key.text == "*") = true
      ↔ ∃ keys token, Rule.model keys path token ∈ rules ∧ ∃ key ∈ keys, key.text = "*" := by
    rw [List.any_eq_true, Group.keys]
    constructor
    · rintro ⟨key, hkey, htext⟩
      obtain ⟨rule, hrule, hkey⟩ := List.mem_flatMap.mp hkey
      obtain ⟨keys, token, rfl, hmem⟩ := mem_bucket_model_iff.mp hrule
      exact ⟨keys, token, hmem, key, hkey, beq_iff_eq.mp htext⟩
    · rintro ⟨keys, token, hmem, key, hkey, htext⟩
      have hrule := mem_bucket_model_iff.mpr ⟨keys, token, rfl, hmem⟩
      exact ⟨key, List.mem_flatMap.mpr ⟨_, hrule, hkey⟩, beq_iff_eq.mpr htext⟩
  show (group.keys.isEmpty || group.rules.any Rule.isSetAll
    || group.keys.any fun key => key.text == "*") = true ↔ _
  rw [hset, Bool.or_false, Bool.or_eq_true, hkeys, hstar]

/-- The file of a group has the identity of a model file just if the group is that of the model, in
a block with the same conditions and weight. -/
theorem identity_groupFile_eq_model_iff {other : Block} {group : Group} {path : String} :
    (groupFile catalog other group).identity = modelIdentity block path
      ↔ group.subject = (.model path, .target .items)
        ∧ modelIdentity other path = modelIdentity block path := by
  obtain ⟨asset, kind, rules⟩ := group
  cases asset with
  | texture path' =>
    simp [groupFile, propertyFile, PropertyFile.identity, Group.subject, modelIdentity]
  | model path' =>
    simp only [PropertyFile.identity, groupFile, propertyFile, modelIdentity,
      PropertyFile.Identity.mk.injEq, true_and, Group.subject, Prod.mk.injEq, Asset.model.injEq]
    tauto

/-- The group of the rules for a model is there just if there are such rules. -/
theorem mem_ofRules_model_iff {group : Group} {path : String} :
    group ∈ Group.ofRules rules ∧ group.subject = (.model path, .target .items)
      ↔ group = Group.bucket rules (.model path, .target .items)
        ∧ ∃ keys token, Rule.model keys path token ∈ rules := by
  rw [Group.ofRules_eq, List.mem_map]
  constructor
  · rintro ⟨⟨subject, hsubject, rfl⟩, hmodel⟩
    have heq : subject = (.model path, .target .items) := hmodel
    subst heq
    obtain ⟨rule, hrule, hsame⟩ := List.mem_filterMap.mp (List.mem_eraseDups.mp hsubject)
    obtain ⟨keys, token, rfl⟩ := subject?_eq_model_iff.mp hsame
    exact ⟨rfl, keys, token, hrule⟩
  · rintro ⟨rfl, keys, token, hmem⟩
    refine ⟨⟨(.model path, .target .items), List.mem_eraseDups.mpr ?_, rfl⟩, rfl⟩
    exact List.mem_filterMap.mpr ⟨_, hmem, subject?_eq_model_iff.mpr ⟨keys, token, rfl⟩⟩

/-- A file that puts a model on everything comes from a block that does. This is `filter_mergeAll`
read back in terms of blocks and rules. -/
theorem exists_all_groupFile_iff {workspace : Workspace} {path : String} :
    (∃ file ∈ workspace.blocks.flatMap fun other =>
        (Group.ofRules other.rules).map (groupFile catalog other),
      file.identity = modelIdentity block path ∧ file.items = .all)
      ↔ ∃ other ∈ workspace.blocks, modelIdentity other path = modelIdentity block path
        ∧ PutsOnAll other path := by
  constructor
  · rintro ⟨file, hfile, hidentity, hall⟩
    obtain ⟨other, hother, hfile⟩ := List.mem_flatMap.mp hfile
    obtain ⟨group, hgroup, rfl⟩ := List.mem_map.mp hfile
    obtain ⟨hsubject, hsame⟩ := identity_groupFile_eq_model_iff.mp hidentity
    obtain ⟨rfl, hrule⟩ := mem_ofRules_model_iff.mp ⟨hgroup, hsubject⟩
    refine ⟨other, hother, hsame, hrule, ?_⟩
    exact matchesAll_bucket_model_iff.mp (Group.items_eq_all_iff.mp hall)
  · rintro ⟨other, hother, hsame, hrule, hall⟩
    obtain ⟨hgroup, hsubject⟩ := mem_ofRules_model_iff.mpr ⟨rfl, hrule⟩
    refine ⟨_, List.mem_flatMap.mpr ⟨other, hother, List.mem_map_of_mem hgroup⟩, ?_, ?_⟩
    · exact identity_groupFile_eq_model_iff.mpr ⟨hsubject, hsame⟩
    · exact Group.items_eq_all_iff.mpr (matchesAll_bucket_model_iff.mpr hall)

/-- A rule for a model that names no items: there is one property file for the model under the
conditions of the block, and it applies to everything just if some block with these conditions has
rules for the model none of which names an item, or one of which names `*`. -/
theorem modelFile_all_iff (catalog : Catalog) (workspace : Workspace) {block : Block}
    (hblock : block ∈ workspace.blocks) {path : String} {token : Token}
    (hrule : Rule.model [] path token ∈ block.rules) :
    ∃ file,
      (propertyFiles catalog workspace).value.filter
          (fun f => f.identity = modelIdentity block path) = [file]
        ∧ (file.items = .all
          ↔ ∃ other ∈ workspace.blocks, modelIdentity other path = modelIdentity block path
            ∧ PutsOnAll other path) := by
  have hmem : modelIdentity block path ∈ (workspace.blocks.flatMap fun other =>
      (Group.ofRules other.rules).map (groupFile catalog other)).map PropertyFile.identity := by
    obtain ⟨hgroup, hsubject⟩ := mem_ofRules_model_iff.mpr ⟨rfl, [], token, hrule⟩
    refine List.mem_map.mpr
      ⟨_, List.mem_flatMap.mpr ⟨block, hblock, List.mem_map_of_mem hgroup⟩, ?_⟩
    exact identity_groupFile_eq_model_iff.mpr ⟨hsubject, rfl⟩
  obtain ⟨file, hfile, hall⟩ := filter_mergeAll hmem
  refine ⟨file, ?_, hall.trans exists_all_groupFile_iff⟩
  rw [propertyFiles_eq_mergeAll_groups]
  exact hfile

/-- A block with a model for every item and the same model for a bow. -/
def mixedBlock : Block :=
  ⟨[], [.model [] "m.json" ⟨"'m'", 1, 27, none⟩,
    .model [⟨"bow", 1, 41, none⟩] "m.json" ⟨"'m'", 1, 53, none⟩], 0, ⟨"any", 1, 1, none⟩⟩

def unkeyedBlock : Block :=
  ⟨[], [.model [] "m.json" ⟨"'m'", 2, 27, none⟩], 0, ⟨"any", 2, 1, none⟩⟩

def mixedAndUnkeyed : Workspace :=
  ⟨⟨"pack"⟩, {}, [⟨⟨"pack/a.rep"⟩, 0, ⟨"pack"⟩, {}, [mixedBlock.toRule, unkeyedBlock.toRule]⟩]⟩

theorem modelFile_all_mixedAndUnkeyed :
    (mixedBlock ∈ mixedAndUnkeyed.blocks
        ∧ Rule.model [] "m.json" ⟨"'m'", 1, 27, none⟩ ∈ mixedBlock.rules)
      ∧ ∃ file,
        (propertyFiles weapons mixedAndUnkeyed).value.filter
            (fun f => f.identity = modelIdentity mixedBlock "m.json") = [file]
          ∧ file.items = .all := by
  have hmixed : mixedBlock ∈ mixedAndUnkeyed.blocks := List.mem_cons_self
  have hunkeyed : unkeyedBlock ∈ mixedAndUnkeyed.blocks := List.mem_cons_of_mem _ List.mem_cons_self
  have hall : PutsOnAll unkeyedBlock "m.json" := by
    refine ⟨⟨_, _, List.mem_cons_self⟩, .inl fun keys token hmem => ?_⟩
    cases List.mem_singleton.mp hmem
    rfl
  obtain ⟨file, hfile, hitems⟩ :=
    modelFile_all_iff weapons mixedAndUnkeyed hmixed List.mem_cons_self
  exact ⟨⟨hmixed, List.mem_cons_self⟩, file, hfile,
    hitems.mpr ⟨unkeyedBlock, hunkeyed, rfl, hall⟩⟩

/-- A source file whose only block puts a model on every item and, in another listing, on a bow. -/
def mixedFiles : MemoryFiles :=
  .ofList [(⟨"pack/m.json"⟩, ""), (⟨"pack/a.rep"⟩,
    "any for \x7b items \x7b model = 'm' \x7d items \x7b bow model = 'm' \x7d \x7d")]

/-- The model that is meant for every item ends up on the bow only. -/
theorem unkeyedModel_restricted :
    ∃ workspace ∈ (Workspace.build mixedFiles.view "rep" {} ⟨"pack"⟩).2.value,
      ∃ block ∈ workspace.blocks,
        (∃ rule ∈ block.rules, rule.asset? = some (.model "m.json") ∧ rule.keys = [])
          ∧ ∃ file ∈ (propertyFiles .vanilla workspace).value,
            file.identity = modelIdentity block "m.json" ∧ file.items = .only ["bow"] := by
  decide +kernel

end Pack

end Reskin
