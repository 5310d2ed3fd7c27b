import Reskin.Pack
import Reskin.Proofs.Pack.Merge

/-!
# Grouping rules is merging them

The rules of a block are grouped by the file and the kind of things they put it on, each group
becomes one property file, and the property files of all blocks are merged. The grouping leaves no
trace: the result is that of merging one property file for each rule, in order.

* **`Group.items_snoc`** — the items of a group absorb those of a rule that is added to it.
* **`addAll_groups_addTo`** — one step: adding a rule to the groups of a block and merging the files
  of the groups is merging the files of the groups and then the file of the rule.
* **`propertyFiles_eq_mergeAll`** — the property files of a workspace are the merged files of its
  rules.

The only way in which a group differs from its rules is that a group without keys applies to
everything. A rule that has a list of keys must therefore have one (`Rule.IsKeyed`).
-/

namespace Reskin

/-- Whether a rule that lists keys lists any. -/
def Rule.IsKeyed : Rule → Prop
  | .mapAll _ keys _ _ | .model keys _ _ => keys ≠ []
  | .entry _ | .setAll _ _ _ | .block _ _ _ _ | .copy _ => True

instance (rule : Rule) : Decidable rule.IsKeyed :=
  match rule with
  | .mapAll _ keys _ _ | .model keys _ _ => inferInstanceAs (Decidable (keys ≠ []))
  | .entry _ | .setAll _ _ _ | .block _ _ _ _ | .copy _ => inferInstanceAs (Decidable True)

/-- Whether a rule applies to everything of its kind. -/
def Rule.matchesAll (rule : Rule) : Bool :=
  rule.isSetAll || rule.keys.any fun key => key.text == "*"

namespace Pack

open PropertyFile (addAll addAll_cons addAll_append mergeAll)

/-- The items that a rule applies to. -/
def contribution (catalog : Catalog) (rule : Rule) : ItemSelection :=
  if rule.matchesAll then .all else (expandKeys catalog rule.kind rule.keys).value

/-- The property file of a rule on its own. -/
def ruleFile? (catalog : Catalog) (block : Block) (rule : Rule) : Option PropertyFile :=
  match rule.asset? with
  | some (.texture path) =>
    some ⟨.texture, rule.kind, path, contribution catalog rule, block.conditions, block.weight⟩
  | some (.model path) =>
    some ⟨.model, rule.kind, path, contribution catalog rule, block.conditions, block.weight⟩
  | none => none

/-- The property files of the rules of a workspace, each on its own. -/
def ruleFiles (catalog : Catalog) (workspace : Workspace) : List PropertyFile :=
  workspace.blocks.flatMap fun block => block.rules.filterMap (ruleFile? catalog block)

variable {catalog : Catalog} {block : Block} {asset : Asset} {rule : Rule}

/-! ## Items -/

/-- The items of two lists of keys are those of the first and what the second adds. This is why a
group may be expanded rule by rule. -/
theorem value_expandKeys_append (kind : RuleKind) (a b : List Token) :
    (expandKeys catalog kind (a ++ b)).value
      = (expandKeys catalog kind a).value.absorb (expandKeys catalog kind b).value := by
  simp only [expandKeys, List.map_append, List.flatMap_append, ItemSelection.ofList,
    ItemSelection.absorb, ItemSelection.addNew_addNew, ItemSelection.addNew_append,
    ItemSelection.addNew_nil]

theorem isDistinct_contribution (catalog : Catalog) (rule : Rule) :
    (contribution catalog rule).IsDistinct := by
  rw [contribution]
  split
  · exact ItemSelection.isDistinct_all
  · exact ItemSelection.isDistinct_ofList _

/-- A rule that puts a file on items names one of them, unless it applies to everything. This is
what `Rule.IsKeyed` is needed for. -/
theorem matchesAll_of_keys_eq_nil (hkeyed : rule.IsKeyed) (hasset : rule.asset? = some asset)
    (hkeys : rule.keys = []) : rule.matchesAll = true := by
  cases rule with
  | setAll kind texture token => rfl
  | entry entry => cases hkeys
  | mapAll kind keys texture token => exact absurd hkeys hkeyed
  | model keys path token => exact absurd hkeys hkeyed
  | block conditions rules weight token => cases hasset
  | copy entries => cases hasset

namespace Group

/-- A group of rules that put the same file on items. -/
structure IsSound (group : Group) : Prop where
  ne_nil : group.rules ≠ []
  asset_eq : ∀ rule ∈ group.rules, rule.asset? = some group.asset
  keyed : ∀ rule ∈ group.rules, rule.IsKeyed

/-- A group applies to everything just if one of its rules does. A group without keys applies to
everything as well, but then so does any of its rules. -/
theorem matchesAll_eq {group : Group} (h : group.IsSound) :
    group.matchesAll = group.rules.any Rule.matchesAll := by
  have hrules : (group.rules.any Rule.isSetAll || group.keys.any fun key => key.text == "*")
      = group.rules.any Rule.matchesAll := by
    rw [keys, List.any_flatMap]
    grind [Rule.matchesAll]
  rw [matchesAll, Bool.or_assoc, hrules]
  cases hkeys : group.keys.isEmpty with
  | false => rfl
  | true =>
    -- A group without keys has a rule, and that rule has no keys either.
    obtain ⟨rule, hrule⟩ := List.exists_mem_of_ne_nil _ h.ne_nil
    have hnil : rule.keys = [] :=
      List.flatMap_eq_nil_iff.mp (List.isEmpty_iff.mp hkeys) rule hrule
    have hall := matchesAll_of_keys_eq_nil (h.keyed rule hrule) (h.asset_eq rule hrule) hnil
    exact (List.any_eq_true.mpr ⟨rule, hrule, hall⟩).symm

/-- The group of a single rule. -/
def ofRule (asset : Asset) (rule : Rule) : Group :=
  ⟨asset, rule.kind, [rule]⟩

/-- A group with one more rule. -/
def snoc (group : Group) (rule : Rule) : Group :=
  { group with rules := group.rules ++ [rule] }

theorem isSound_ofRule (hkeyed : rule.IsKeyed) (hasset : rule.asset? = some asset) :
    (ofRule asset rule).IsSound where
  ne_nil := List.cons_ne_nil rule []
  asset_eq := List.forall_mem_singleton.mpr hasset
  keyed := List.forall_mem_singleton.mpr hkeyed

/-- A sound group stays sound with one more rule for the same file. -/
theorem IsSound.snoc {group : Group} (h : group.IsSound) (hkeyed : rule.IsKeyed)
    (hasset : rule.asset? = some group.asset) : (group.snoc rule).IsSound where
  ne_nil := List.append_ne_nil_of_left_ne_nil h.ne_nil _
  asset_eq := List.forall_mem_append.mpr ⟨h.asset_eq, List.forall_mem_singleton.mpr hasset⟩
  keyed := List.forall_mem_append.mpr ⟨h.keyed, List.forall_mem_singleton.mpr hkeyed⟩

/-- The group of a single rule has the items of that rule. -/
theorem items_ofRule (hkeyed : rule.IsKeyed) (hasset : rule.asset? = some asset) :
    ((ofRule asset rule).items catalog).value = contribution catalog rule := by
  have hall : (ofRule asset rule).matchesAll = rule.matchesAll := by
    rw [matchesAll_eq (isSound_ofRule hkeyed hasset)]
    exact Bool.or_false _
  have hkeys : (ofRule asset rule).keys = rule.keys := List.append_nil _
  rw [items, contribution, hall, hkeys]
  split <;> rfl

/-- The items of a group absorb those of a rule that is added to it. Everything absorbs and is
absorbed, and listed items are added if they are new. -/
theorem items_snoc {group : Group} (h : group.IsSound) (hkeyed : rule.IsKeyed)
    (hasset : rule.asset? = some group.asset) (hkind : rule.kind = group.kind) :
    ((group.snoc rule).items catalog).value
      = (group.items catalog).value.absorb (contribution catalog rule) := by
  have hall : (group.snoc rule).matchesAll = (group.matchesAll || rule.matchesAll) := by
    rw [matchesAll_eq (h.snoc hkeyed hasset), matchesAll_eq h]
    simp [Group.snoc]
  have hkeys : (group.snoc rule).keys = group.keys ++ rule.keys := by
    simp [Group.snoc, keys]
  rw [items, hall, hkeys, items, contribution, hkind]
  cases group.matchesAll with
  | true => rfl
  | false =>
    cases rule.matchesAll with
    | true => exact (ItemSelection.absorb_all _).symm
    | false => exact value_expandKeys_append group.kind group.keys rule.keys

end Group

/-! ## Files -/

/-- The property file of a group of a block. -/
def groupFile (catalog : Catalog) (block : Block) (group : Group) : PropertyFile :=
  propertyFile block group (group.items catalog).value

/-- What a group puts on which kind of things. -/
def Group.subject (group : Group) : Asset × RuleKind :=
  (group.asset, group.kind)

theorem value_blockFiles (catalog : Catalog) (block : Block) :
    (blockFiles catalog block).value = (Group.ofRules block.rules).map (groupFile catalog block) :=
  List.map_map

/-- Two groups of a block have files of one identity just if they are about the same. The conditions
and the weight are those of the block. -/
theorem identity_groupFile_eq_iff {group other : Group} :
    (groupFile catalog block group).identity = (groupFile catalog block other).identity
      ↔ group.subject = other.subject := by
  obtain ⟨asset, kind, rules⟩ := group
  obtain ⟨asset', kind', rules'⟩ := other
  cases asset <;> cases asset' <;>
    simp [groupFile, propertyFile, PropertyFile.identity, Group.subject, and_comm]

/-- The property file of a rule on its own is that of the group of this one rule. -/
theorem ruleFile?_eq (hkeyed : rule.IsKeyed) (hasset : rule.asset? = some asset) :
    ruleFile? catalog block rule = some (groupFile catalog block (.ofRule asset rule)) := by
  rw [groupFile, Group.items_ofRule hkeyed hasset, ruleFile?, hasset]
  cases asset <;> rfl

/-- Adding a rule to a group is absorbing the file of the rule into that of the group. -/
theorem groupFile_snoc {group : Group} (h : group.IsSound) (hkeyed : rule.IsKeyed)
    (hasset : rule.asset? = some group.asset) (hkind : rule.kind = group.kind) :
    groupFile catalog block (group.snoc rule)
      = (groupFile catalog block group).absorb
          (groupFile catalog block (.ofRule group.asset rule)) := by
  rw [groupFile, groupFile, groupFile, Group.items_snoc h hkeyed hasset hkind,
    Group.items_ofRule hkeyed hasset]
  obtain ⟨asset, kind, rules⟩ := group
  cases asset <;> rfl

/-! ## Steps and runs of the grouping -/

/-- The groups of some rules: each of them sound, and no two about the same. -/
structure Grouped (groups : List Group) : Prop where
  sound : ∀ group ∈ groups, group.IsSound
  distinct : (groups.map Group.subject).Nodup

theorem Group.addTo_cons_of_eq {group : Group} {rest : List Group}
    (h : group.subject = (asset, rule.kind)) :
    addTo asset rule (group :: rest) = group.snoc rule :: rest :=
  if_pos (Prod.mk.inj h)

theorem Group.addTo_cons_of_ne {group : Group} {rest : List Group}
    (h : group.subject ≠ (asset, rule.kind)) :
    addTo asset rule (group :: rest) = group :: addTo asset rule rest :=
  if_neg fun heq => h (Prod.ext heq.1 heq.2)

/-- Adding a rule adds its subject, if that is new, and no other. -/
theorem mem_subject_addTo {groups : List Group} {subject : Asset × RuleKind} :
    subject ∈ (Group.addTo asset rule groups).map Group.subject
      ↔ subject ∈ groups.map Group.subject ∨ subject = (asset, rule.kind) := by
  induction groups with
  | nil => simp [Group.addTo, Group.subject]
  | cons group rest ih =>
    by_cases h : group.subject = (asset, rule.kind)
    · have hsnoc : (group.snoc rule).subject = group.subject := rfl
      rw [Group.addTo_cons_of_eq h, List.map_cons, List.mem_cons, hsnoc, List.map_cons,
        List.mem_cons, ← h]
      tauto
    · rw [Group.addTo_cons_of_ne h, List.map_cons, List.mem_cons, ih, List.map_cons, List.mem_cons,
        or_assoc]

/-- Adding a rule keeps groups sound and about different subjects. This is the step of
`grouped_ofRules`. -/
theorem Grouped.addTo {groups : List Group} (h : Grouped groups) (hkeyed : rule.IsKeyed)
    (hasset : rule.asset? = some asset) : Grouped (Group.addTo asset rule groups) := by
  induction groups with
  | nil =>
    exact ⟨List.forall_mem_singleton.mpr (Group.isSound_ofRule hkeyed hasset),
      List.pairwise_singleton _ _⟩
  | cons group rest ih =>
    obtain ⟨hgroup, hrest⟩ := List.forall_mem_cons.mp h.sound
    obtain ⟨hnew, hdistinct⟩ := List.nodup_cons.mp h.distinct
    by_cases hsubject : group.subject = (asset, rule.kind)
    · rw [Group.addTo_cons_of_eq hsubject]
      have hgroup' : group.asset = asset := (Prod.mk.inj hsubject).1
      have hasset' : rule.asset? = some group.asset := hgroup' ▸ hasset
      exact ⟨List.forall_mem_cons.mpr ⟨hgroup.snoc hkeyed hasset', hrest⟩, h.distinct⟩
    · rw [Group.addTo_cons_of_ne hsubject]
      obtain ⟨hsound', hdistinct'⟩ := ih ⟨hrest, hdistinct⟩
      refine ⟨List.forall_mem_cons.mpr ⟨hgroup, hsound'⟩, List.nodup_cons.mpr ⟨?_, hdistinct'⟩⟩
      rw [mem_subject_addTo]
      exact not_or.mpr ⟨hnew, hsubject⟩

/-- Adding a rule to the groups and merging their files is merging the files of the groups and then
the file of the rule. Induction on the groups; behind the one that takes the rule in, all files are
of other identities and can be passed. -/
theorem addAll_groups_addTo {groups : List Group} (h : Grouped groups) (hkeyed : rule.IsKeyed)
    (hasset : rule.asset? = some asset) (known : List PropertyFile) :
    addAll ((Group.addTo asset rule groups).map (groupFile catalog block)) known
      = (groupFile catalog block (.ofRule asset rule)).addTo
          (addAll (groups.map (groupFile catalog block)) known) := by
  induction groups generalizing known with
  | nil => rfl
  | cons group rest ih =>
    obtain ⟨hgroup, hrest⟩ := List.forall_mem_cons.mp h.sound
    obtain ⟨hnew, hdistinct⟩ := List.nodup_cons.mp h.distinct
    by_cases hsubject : group.subject = (asset, rule.kind)
    · -- The group takes the rule in. The files that follow have other identities, so the file of
      -- the rule may as well come after them.
      obtain ⟨rfl, hkind⟩ := Prod.mk.inj hsubject
      have hidentity : (groupFile catalog block (.ofRule group.asset rule)).identity
          = (groupFile catalog block group).identity :=
        identity_groupFile_eq_iff.mpr hsubject.symm
      have hne : ∀ file ∈ rest.map (groupFile catalog block), file.identity
          ≠ (groupFile catalog block (.ofRule group.asset rule)).identity := by
        intro file hfile heq
        obtain ⟨other, hother, rfl⟩ := List.mem_map.mp hfile
        have hsame := identity_groupFile_eq_iff.mp (heq.trans hidentity)
        exact hnew (hsame ▸ List.mem_map_of_mem hother)
      have hmem : (groupFile catalog block (.ofRule group.asset rule)).identity
          ∈ ((groupFile catalog block group).addTo known).map PropertyFile.identity :=
        PropertyFile.mem_identity_addTo.mpr (.inr hidentity)
      rw [Group.addTo_cons_of_eq hsubject, List.map_cons, List.map_cons, addAll_cons, addAll_cons,
        groupFile_snoc hgroup hkeyed hasset hkind.symm,
        ← PropertyFile.addTo_addTo_same hidentity, PropertyFile.addAll_addTo_comm hne hmem]
    · rw [Group.addTo_cons_of_ne hsubject, List.map_cons, List.map_cons, addAll_cons, addAll_cons,
        ih ⟨hrest, hdistinct⟩]

theorem Group.ofRules_snoc (rules : List Rule) (rule : Rule) :
    ofRules (rules ++ [rule])
      = match rule.asset? with
        | some asset => addTo asset rule (ofRules rules)
        | none => ofRules rules := by
  rw [ofRules, List.foldl_append]
  rfl

/-- The groups of any rules are sound and about different subjects. Induction from the end, along
the process of grouping. -/
theorem grouped_ofRules {rules : List Rule} (h : ∀ rule ∈ rules, rule.IsKeyed) :
    Grouped (Group.ofRules rules) := by
  induction rules using List.reverseRecOn with
  | nil => exact ⟨fun group hgroup => absurd hgroup List.not_mem_nil, .nil⟩
  | append_singleton rules rule ih =>
    obtain ⟨hrules, hrule⟩ := List.forall_mem_append.mp h
    rw [Group.ofRules_snoc]
    cases hasset : rule.asset? with
    | none => exact ih hrules
    | some asset => exact (ih hrules).addTo (hrule rule List.mem_cons_self) hasset

/-- Merging the files of the groups of some rules is merging the files of the rules. Induction from
the end, with `addAll_groups_addTo` as the step. -/
theorem addAll_ofRules {rules : List Rule} (h : ∀ rule ∈ rules, rule.IsKeyed)
    (known : List PropertyFile) :
    addAll ((Group.ofRules rules).map (groupFile catalog block)) known
      = addAll (rules.filterMap (ruleFile? catalog block)) known := by
  induction rules using List.reverseRecOn with
  | nil => rfl
  | append_singleton rules rule ih =>
    obtain ⟨hrules, hrule⟩ := List.forall_mem_append.mp h
    have hkeyed : rule.IsKeyed := hrule rule List.mem_cons_self
    rw [Group.ofRules_snoc, List.filterMap_append, addAll_append, ← ih hrules]
    cases hasset : rule.asset? with
    | none =>
      -- A rule without a file changes no group and has no property file of its own.
      have hnone : ruleFile? catalog block rule = none := by rw [ruleFile?, hasset]
      rw [List.filterMap_cons_none hnone]
      rfl
    | some asset =>
      have hsome : ruleFile? catalog block rule
          = some (groupFile catalog block (.ofRule asset rule)) := ruleFile?_eq hkeyed hasset
      rw [List.filterMap_cons_some hsome]
      exact addAll_groups_addTo (grouped_ofRules hrules) hkeyed hasset known

/-- The same for the blocks of a workspace, one after the other. What was merged before does not
matter, since it is carried along. -/
theorem addAll_blockFiles {blocks : List Block}
    (h : ∀ block ∈ blocks, ∀ rule ∈ block.rules, rule.IsKeyed) (known : List PropertyFile) :
    addAll (blocks.flatMap fun block => (blockFiles catalog block).value) known
      = addAll (blocks.flatMap fun block => block.rules.filterMap (ruleFile? catalog block))
          known := by
  induction blocks generalizing known with
  | nil => rfl
  | cons block blocks ih =>
    obtain ⟨hblock, hblocks⟩ := List.forall_mem_cons.mp h
    rw [List.flatMap_cons, List.flatMap_cons, addAll_append, addAll_append, value_blockFiles,
      addAll_ofRules hblock, ih hblocks]

/-- The file of a rule lists no item twice. -/
theorem isDistinct_of_mem_ruleFiles {workspace : Workspace} {file : PropertyFile}
    (h : file ∈ ruleFiles catalog workspace) : file.items.IsDistinct := by
  obtain ⟨block, -, hfile⟩ := List.mem_flatMap.mp h
  obtain ⟨rule, -, hrule⟩ := List.mem_filterMap.mp hfile
  have hitems : file.items = contribution catalog rule := by
    rw [ruleFile?] at hrule
    split at hrule
    · cases hrule
      rfl
    · cases hrule
      rfl
    · cases hrule
  rw [hitems]
  exact isDistinct_contribution catalog rule

/-- The property files of a workspace are the files of its rules, merged without any grouping. -/
theorem propertyFiles_eq_mergeAll (catalog : Catalog) (workspace : Workspace)
    (h : ∀ block ∈ workspace.blocks, ∀ rule ∈ block.rules, rule.IsKeyed) :
    (propertyFiles catalog workspace).value = mergeAll (ruleFiles catalog workspace) := by
  calc (propertyFiles catalog workspace).value
    _ = addAll (workspace.blocks.flatMap fun block => (blockFiles catalog block).value) [] := by
      rw [propertyFiles, List.flatMap_map]
      rfl
    _ = addAll (ruleFiles catalog workspace) [] := addAll_blockFiles h []
    _ = mergeAll (ruleFiles catalog workspace) :=
      PropertyFile.addAll_nil_eq_mergeAll fun _ => isDistinct_of_mem_ruleFiles

/-- A condition on the name of an item. -/
def named (name : String) (line : Nat) : Entry :=
  ⟨⟨"name", line, 1, none⟩, name, .condition⟩

/-- Two files with two blocks each. The first block puts `a.png` on items in two rules that do not
follow each other. The second one has the same condition, at another place, and puts `b.png` on
everything. The last two put `a.png` on an axe, one under another condition and one with another
weight. -/
def interleaved : Workspace where
  root := ⟨"pack"⟩
  files :=
    [⟨⟨"pack/first"⟩, 0, ⟨"pack"⟩, {},
        [.block [named "x" 1]
          [.entry ⟨⟨"iron_sword", 2, 3, none⟩, "a.png", .target .items⟩,
            .mapAll (.target .items) [⟨"gold_*", 3, 3, none⟩] "b.png" ⟨"items", 3, 1, none⟩,
            .entry ⟨⟨"sword", 4, 3, none⟩, "a.png", .target .items⟩]
          0 ⟨"match", 1, 1, none⟩,
        .block [named "x" 5]
          [.setAll (.target .items) "b.png" ⟨"items", 6, 3, none⟩,
            .model [⟨"gold_axe", 7, 3, none⟩] "c.json" ⟨"model", 7, 1, none⟩]
          0 ⟨"match", 5, 1, none⟩]⟩,
      ⟨⟨"pack/second"⟩, 1, ⟨"pack"⟩, {},
        [.block [named "y" 1]
          [.entry ⟨⟨"gold_axe", 2, 3, none⟩, "a.png", .target .items⟩]
          0 ⟨"match", 1, 1, none⟩,
        .block [named "x" 3]
          [.entry ⟨⟨"gold_axe", 4, 3, none⟩, "a.png", .target .items⟩]
          5 ⟨"match", 3, 1, none⟩]⟩]

def weapons : Catalog :=
  .ofItems ["gold_axe", "gold_sword", "iron_sword"]

theorem propertyFiles_eq_mergeAll_interleaved :
    (∀ block ∈ interleaved.blocks, ∀ rule ∈ block.rules, rule.IsKeyed)
      ∧ (propertyFiles weapons interleaved).value = mergeAll (ruleFiles weapons interleaved)
      ∧ ((propertyFiles weapons interleaved).value.map fun file =>
          (file.target, file.conditions.map Entry.value, file.weight, file.items))
        = [("a.png", ["x"], 0, .only ["iron_sword", "gold_sword"]), ("b.png", ["x"], 0, .all),
          ("c.json", ["x"], 0, .only ["gold_axe"]), ("a.png", ["y"], 0, .only ["gold_axe"]),
          ("a.png", ["x"], 5, .only ["gold_axe"])] := by
  have hkeyed : ∀ block ∈ interleaved.blocks, ∀ rule ∈ block.rules, rule.IsKeyed := by
    decide +kernel
  exact ⟨hkeyed, propertyFiles_eq_mergeAll weapons interleaved hkeyed, by decide +kernel⟩

end Pack

end Reskin
