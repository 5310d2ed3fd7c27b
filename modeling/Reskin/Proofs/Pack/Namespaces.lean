import Mathlib.Data.List.Forall2
import Reskin.Proofs.Catalog.Family
import Reskin.Proofs.Pack.Coverage
import Reskin.Proofs.Workspace.Agreement
import Reskin.Proofs.Workspace.Keys

/-!
# The namespace of a key

The items of the unmodified game belong to the namespace `minecraft`, and a key for them may be
written with that namespace or without it. A key without a namespace is expanded to the same items
either way, as an id, as a family, as a pattern and as a material of armor. So the pack of a
workspace is the same, whichever of its keys are qualified.

* **`Rule.Qualifies`**, **`Workspace.Qualifies`** — some keys are written with their namespace.
* **`value_expandKey_of_qualifies`** — a qualified key stands for the same items.
* **`SameKeys`** — keys that no group can tell apart; they can be put together
  (**`SameKeys.append`**), so that a group is settled rule by rule.
* **`ofWorkspace_qualifies`** — the pack does not change.
-/

namespace Reskin

/-! ## Qualified keys -/

/-- A key as it is, or with the namespace of the unmodified game. A key that has a namespace and the
key for everything stay as they are. -/
def Token.Qualifies (key other : Token) : Prop :=
  other.text = key.text
    ∨ ':' ∉ key.text.toList ∧ key.text ≠ "*" ∧ other.text = "minecraft:" ++ key.text

/-- Keys of which some are qualified. They are an ordered set, so it does not matter whether one
that is then spelled like an earlier one is kept. -/
def Token.QualifiesAll (keys others : List Token) : Prop :=
  ∃ spelled, List.Forall₂ Token.Qualifies keys spelled
    ∧ Token.addNew [] others = Token.addNew [] spelled

/-- A rule of which some keys are qualified. The keys of conditions are no item keys. -/
inductive Rule.Qualifies : Rule → Rule → Prop where
  | entry {key other : Token} (value : String) (kind : RuleKind) (h : key.Qualifies other) :
    Qualifies (.entry ⟨key, value, kind⟩) (.entry ⟨other, value, kind⟩)
  | setAll (kind : RuleKind) (texture : String) (token : Token) :
    Qualifies (.setAll kind texture token) (.setAll kind texture token)
  | mapAll {keys others : List Token} (kind : RuleKind) (texture : String) (token : Token)
    (h : Token.QualifiesAll keys others) :
    Qualifies (.mapAll kind keys texture token) (.mapAll kind others texture token)
  | model {keys others : List Token} (path : String) (token : Token)
    (h : Token.QualifiesAll keys others) :
    Qualifies (.model keys path token) (.model others path token)
  | block {rules others : List Rule} (conditions : List Entry) (weight : Int) (token : Token)
    (h : List.Forall₂ Qualifies rules others) :
    Qualifies (.block conditions rules weight token) (.block conditions others weight token)
  | copy (entries : List CopyEntry) : Qualifies (.copy entries) (.copy entries)

/-- A workspace of which some keys are qualified. -/
structure Workspace.Qualifies (workspace other : Workspace) : Prop where
  root_eq : other.root = workspace.root
  rules : List.Forall₂
    (fun source target : PackSource => List.Forall₂ Rule.Qualifies source.rules target.rules)
    workspace.files other.files

/-! ## The items of a qualified key -/

namespace Catalog

variable {name : String}

theorem isModded_of_not_mem (h : ':' ∉ name.toList) : isModded name = false := by
  unfold isModded
  split
  · next space rest hsplit =>
    rw [Text.eq_of_splitFirst_eq_some hsplit] at h
    simp at h
  · rfl

/-- A key of the unmodified game is expanded, also if it is qualified. -/
theorem isModded_append (name : String) : isModded ("minecraft:" ++ name) = false := by
  rw [isModded, splitFirst_append]
  simp

theorem withoutNamespace_of_not_mem (h : ':' ∉ name.toList) : withoutNamespace name = name := by
  rcases withoutNamespace_cases name with hname | ⟨hname, -⟩
  · rw [hname] at h
    simp at h
  · exact hname.symm

/-- A qualified key asks for the same family, because the namespace is dropped before anything else
is looked at. -/
theorem family_append (items : List String) (h : ':' ∉ name.toList) :
    (ofItems items).family ("minecraft:" ++ name) = (ofItems items).family name := by
  simp only [ofItems, withoutNamespace_append, withoutNamespace_of_not_mem h]

end Catalog

namespace Pack

variable {items : List String} {kind : RuleKind} {key other : Token} {keys others : List Token}

/-- So it stands for the same items, also where a key may be a material. -/
theorem matchingItems_append {name : String} (h : ':' ∉ name.toList) :
    matchingItems (.ofItems items) kind ("minecraft:" ++ name)
      = matchingItems (.ofItems items) kind name := by
  have hwild : Glob.hasWildcard ("minecraft:" ++ name) = Glob.hasWildcard name := by
    simp [Glob.hasWildcard]
  -- The pattern for a material is built from the key with its namespace.
  have hmaterial : ':' ∉ (name ++ "_*").toList := by simp [h]
  simp only [matchingItems, hwild, String.append_assoc, Catalog.family_append items h,
    Catalog.family_append items hmaterial]

/-- A qualified key stands for the same items, whatever it is: an id, a family, a pattern or a
material. -/
theorem value_expandKey_of_qualifies (h : key.Qualifies other) :
    (expandKey (.ofItems items) kind other).value
      = (expandKey (.ofItems items) kind key).value := by
  unfold expandKey
  rcases h with htext | ⟨hcolon, -, htext⟩
  · rw [htext]
    split <;> rfl
  · have hother : (Catalog.ofItems items).modded ("minecraft:" ++ key.text) = false :=
      Catalog.isModded_append key.text
    have hkey : (Catalog.ofItems items).modded key.text = false :=
      Catalog.isModded_of_not_mem hcolon
    simp only [htext, hother, hkey, matchingItems_append hcolon, Bool.false_eq_true, if_false]

/-! ## Ordered sets of keys -/

/-- Items that are there already change nothing. -/
theorem addNew_of_subset {known ids : List String} (h : ids ⊆ known) :
    ItemSelection.addNew known ids = known := by
  induction ids with
  | nil => rfl
  | cons id ids ih =>
    obtain ⟨hid, hids⟩ := List.cons_subset.mp h
    show ItemSelection.addNew (if known.contains id then known else known ++ [id]) ids = known
    rw [if_pos (List.contains_iff_mem.mpr hid), ih hids]

/-- A key that is spelled like an earlier one adds no items, since it stands for the same. -/
theorem value_expandKeys_snoc_of_known {catalog : Catalog} (h : key.text ∈ keys.map Token.text) :
    (expandKeys catalog kind (keys ++ [key])).value = (expandKeys catalog kind keys).value := by
  obtain ⟨earlier, hearlier, htext⟩ := List.mem_map.mp h
  have hsame : (expandKey catalog kind key).value = (expandKey catalog kind earlier).value := by
    unfold expandKey
    rw [htext]
    split <;> rfl
  rw [value_expandKeys_append]
  refine congrArg ItemSelection.only (addNew_of_subset fun id hid => ?_)
  simp only [List.map_cons, List.map_nil, List.flatMap_cons, List.flatMap_nil, List.append_nil,
    ItemSelection.mem_addNew, List.not_mem_nil, false_or, hsame] at hid
  refine ItemSelection.mem_addNew.mpr (.inr ?_)
  exact List.mem_flatMap.mpr ⟨_, List.mem_map_of_mem hearlier, hid⟩

/-- A list of keys has the items of the ordered set of them. Induction from the end. -/
theorem value_expandKeys_addNew (catalog : Catalog) (kind : RuleKind) (keys : List Token) :
    (expandKeys catalog kind (Token.addNew [] keys)).value
      = (expandKeys catalog kind keys).value := by
  induction keys using List.reverseRecOn with
  | nil => rfl
  | append_singleton keys key ih =>
    have hsnoc : Token.addNew [] (keys ++ [key])
        = if (Token.addNew [] keys).any key.sameText then Token.addNew [] keys
          else Token.addNew [] keys ++ [key] :=
      List.foldl_append
    rw [hsnoc]
    split_ifs with hknown
    · obtain ⟨earlier, hearlier, hsame⟩ := List.any_eq_true.mp hknown
      have htext : key.text ∈ (Token.addNew [] keys).map Token.text :=
        List.mem_map.mpr ⟨earlier, hearlier, (beq_iff_eq.mp hsame).symm⟩
      rw [Token.mem_map_text_addNew] at htext
      rw [ih, value_expandKeys_snoc_of_known (htext.resolve_left List.not_mem_nil)]
    · rw [value_expandKeys_append, value_expandKeys_append, ih]

/-! ## Keys that no group can tell apart -/

/-- Keys that no group can tell apart: it applies to everything for both or for neither, and it has
the same items otherwise. -/
structure SameKeys (catalog : Catalog) (keys others : List Token) : Prop where
  nil_iff : others = [] ↔ keys = []
  star_iff : "*" ∈ others.map Token.text ↔ "*" ∈ keys.map Token.text
  value_eq : ∀ kind, (expandKeys catalog kind others).value = (expandKeys catalog kind keys).value

namespace SameKeys

variable {catalog : Catalog} {more moreKeys moreOthers : List Token}

theorem refl (catalog : Catalog) (keys : List Token) : SameKeys catalog keys keys :=
  ⟨Iff.rfl, Iff.rfl, fun _ => rfl⟩

theorem trans (h : SameKeys catalog keys others) (hmore : SameKeys catalog others more) :
    SameKeys catalog keys more :=
  ⟨hmore.nil_iff.trans h.nil_iff, hmore.star_iff.trans h.star_iff,
    fun kind => (hmore.value_eq kind).trans (h.value_eq kind)⟩

/-- Keys that cannot be told apart can be put together. For the items this needs that expansion goes
list by list. -/
theorem append (h : SameKeys catalog keys others) (hmore : SameKeys catalog moreKeys moreOthers) :
    SameKeys catalog (keys ++ moreKeys) (others ++ moreOthers) where
  nil_iff := by
    rw [List.append_eq_nil_iff, List.append_eq_nil_iff, h.nil_iff, hmore.nil_iff]
  star_iff := by
    rw [List.map_append, List.map_append, List.mem_append, List.mem_append, h.star_iff,
      hmore.star_iff]
  value_eq kind := by
    rw [value_expandKeys_append, value_expandKeys_append, h.value_eq kind, hmore.value_eq kind]

end SameKeys

/-- A list of keys and the ordered set of them. -/
theorem sameKeys_addNew (catalog : Catalog) (keys : List Token) :
    SameKeys catalog keys (Token.addNew [] keys)
      ∧ SameKeys catalog (Token.addNew [] keys) keys := by
  have htexts : ∀ text, text ∈ (Token.addNew [] keys).map Token.text ↔ text ∈ keys.map Token.text :=
    fun text => Token.mem_map_text_addNew.trans (by simp)
  have hnil : Token.addNew [] keys = [] ↔ keys = [] := by
    rw [← List.map_eq_nil_iff (f := Token.text), List.eq_nil_iff_forall_not_mem,
      ← List.map_eq_nil_iff (f := Token.text) (l := keys), List.eq_nil_iff_forall_not_mem]
    exact forall_congr' fun text => not_congr (htexts text)
  have hvalue := fun kind => value_expandKeys_addNew catalog kind keys
  exact ⟨⟨hnil, htexts "*", hvalue⟩, ⟨hnil.symm, (htexts "*").symm, fun kind => (hvalue kind).symm⟩⟩

/-- A key and its qualified form cannot be told apart. The key `*` is not qualified, so it stays
what it is. -/
theorem sameKeys_of_qualifies (h : key.Qualifies other) :
    SameKeys (.ofItems items) [key] [other] where
  nil_iff := by simp
  star_iff := by
    rw [List.map_singleton, List.map_singleton, List.mem_singleton, List.mem_singleton]
    rcases h with htext | ⟨-, hstar, htext⟩
    · rw [htext]
    · refine iff_of_false (fun hother => ?_) fun hkey => hstar hkey.symm
      simpa using congrArg String.toList (hother.trans htext)
  value_eq kind := by
    simp only [expandKeys, List.map_cons, List.map_nil, List.flatMap_cons, List.flatMap_nil,
      value_expandKey_of_qualifies h]

/-- Nor can lists of keys, even if keys that have become alike are left out. -/
theorem sameKeys_of_qualifiesAll (h : Token.QualifiesAll keys others) :
    SameKeys (.ofItems items) keys others := by
  obtain ⟨spelled, hspelled, hset⟩ := h
  have hkeys : SameKeys (.ofItems items) keys spelled := by
    clear hset
    induction hspelled with
    | nil => exact .refl _ []
    | cons hkey _ ih => exact (sameKeys_of_qualifies hkey).append ih
  have hothers := (sameKeys_addNew (.ofItems items) others).2
  rw [hset] at hothers
  exact (hkeys.trans (sameKeys_addNew _ spelled).1).trans hothers

/-! ## Groups -/

end Pack

namespace Rule.Qualifies

variable {rule other : Rule}

theorem isSetAll_eq (h : rule.Qualifies other) : other.isSetAll = rule.isSetAll := by
  cases h <;> rfl

theorem subject?_eq (h : rule.Qualifies other) : other.subject? = rule.subject? := by
  cases h <;> rfl

theorem sameKeys (h : rule.Qualifies other) (items : List String) :
    Pack.SameKeys (.ofItems items) rule.keys other.keys := by
  cases h with
  | entry _ _ hkey => exact Pack.sameKeys_of_qualifies hkey
  | mapAll _ _ _ hkeys => exact Pack.sameKeys_of_qualifiesAll hkeys
  | model _ _ hkeys => exact Pack.sameKeys_of_qualifiesAll hkeys
  | setAll | block | copy => exact .refl _ []

end Rule.Qualifies

namespace Pack

variable {items : List String} {rules others : List Rule}

/-- Nor can the keys of all rules of a group. -/
theorem sameKeys_of_rules (h : List.Forall₂ Rule.Qualifies rules others) :
    SameKeys (.ofItems items) (rules.flatMap Rule.keys) (others.flatMap Rule.keys) := by
  induction h with
  | nil => exact .refl _ []
  | cons hrule _ ih =>
    rw [List.flatMap_cons, List.flatMap_cons]
    exact (hrule.sameKeys items).append ih

namespace Group

/-- When a group applies to everything, in terms of what `SameKeys` keeps. -/
theorem matchesAll_iff {group : Group} :
    group.matchesAll = true
      ↔ group.keys = [] ∨ group.rules.any Rule.isSetAll = true
        ∨ "*" ∈ group.keys.map Token.text := by
  simp only [matchesAll, Bool.or_eq_true, List.isEmpty_iff, List.any_eq_true, beq_iff_eq,
    List.mem_map, or_assoc]

/-- A group has the same items, whichever keys of its rules are qualified. -/
theorem items_of_qualifies {asset : Asset} {kind : RuleKind}
    (h : List.Forall₂ Rule.Qualifies rules others) :
    (Group.items (.ofItems items) ⟨asset, kind, others⟩).value
      = (Group.items (.ofItems items) ⟨asset, kind, rules⟩).value := by
  have hkeys : SameKeys (.ofItems items) (keys ⟨asset, kind, rules⟩) (keys ⟨asset, kind, others⟩) :=
    sameKeys_of_rules h
  have hsetAll : others.any Rule.isSetAll = rules.any Rule.isSetAll := by
    clear hkeys
    induction h with
    | nil => rfl
    | cons hrule _ ih => rw [List.any_cons, List.any_cons, hrule.isSetAll_eq, ih]
  have hmatches : matchesAll ⟨asset, kind, others⟩ = matchesAll ⟨asset, kind, rules⟩ := by
    rw [Bool.eq_iff_iff, matchesAll_iff, matchesAll_iff, hkeys.nil_iff, hkeys.star_iff, hsetAll]
  rw [Group.items, Group.items, hmatches]
  split
  · rfl
  · exact hkeys.value_eq kind

end Group

/-! ## Packs -/

/-- Grouping does not see that keys are qualified: there are the same subjects, with the same rules
but for this. -/
theorem subjects_of_qualifies (h : List.Forall₂ Rule.Qualifies rules others) :
    others.filterMap Rule.subject? = rules.filterMap Rule.subject? := by
  induction h with
  | nil => rfl
  | cons hrule _ ih => rw [List.filterMap_cons, List.filterMap_cons, hrule.subject?_eq, ih]

/-- The property file of a subject is the same, because its group has the same items and everything
else is not about keys. -/
theorem groupFile_of_qualifies {conditions : List Entry} {weight : Int} {token : Token}
    (h : List.Forall₂ Rule.Qualifies rules others) (subject : Asset × RuleKind) :
    groupFile (.ofItems items) ⟨conditions, others, weight, token⟩ (Group.bucket others subject)
      = groupFile (.ofItems items) ⟨conditions, rules, weight, token⟩
          (Group.bucket rules subject) := by
  have hrules : List.Forall₂ Rule.Qualifies (rules.filter fun rule => rule.subject? = some subject)
      (others.filter fun rule => rule.subject? = some subject) := by
    refine List.rel_filter (fun rule other hrule => ?_) h
    dsimp only
    rw [hrule.subject?_eq]
  rw [groupFile, groupFile, Group.bucket, Group.bucket, Group.items_of_qualifies hrules]
  rfl

/-- So are the property files of a block. -/
theorem value_blockFiles_of_qualifies {conditions : List Entry} {weight : Int} {token : Token}
    (h : List.Forall₂ Rule.Qualifies rules others) :
    (blockFiles (.ofItems items) ⟨conditions, others, weight, token⟩).value
      = (blockFiles (.ofItems items) ⟨conditions, rules, weight, token⟩).value := by
  rw [value_blockFiles, value_blockFiles, Group.ofRules_eq, Group.ofRules_eq,
    subjects_of_qualifies h, List.map_map, List.map_map]
  exact List.map_congr_left fun subject _ => groupFile_of_qualifies h subject

/-- The property files of the blocks among some rules. -/
theorem filesOf_rules (h : List.Forall₂ Rule.Qualifies rules others) :
    ((others.filterMap Block.ofRule?).flatMap fun block =>
        (blockFiles (.ofItems items) block).value)
      = (rules.filterMap Block.ofRule?).flatMap fun block =>
          (blockFiles (.ofItems items) block).value := by
  induction h with
  | nil => rfl
  | cons hrule _ ih =>
    cases hrule with
    | block conditions weight token hrules =>
      simp only [List.filterMap_cons, Block.ofRule?, List.flatMap_cons, ih,
        value_blockFiles_of_qualifies hrules]
    | entry | setAll | mapAll | model | copy => exact ih

variable {workspace other : Workspace}

/-- So are those of the workspace, and with the copies nothing is left that a pack is made of. -/
theorem value_propertyFiles_of_qualifies (h : workspace.Qualifies other) :
    (propertyFiles (.ofItems items) other).value
      = (propertyFiles (.ofItems items) workspace).value := by
  have hfiles : other.blocks.flatMap (fun block => (blockFiles (.ofItems items) block).value)
      = workspace.blocks.flatMap fun block => (blockFiles (.ofItems items) block).value := by
    unfold Workspace.blocks
    rw [List.flatMap_assoc, List.flatMap_assoc]
    exact flatMap_eq_of_forall₂ (h.rules.imp fun _ _ hsource => filesOf_rules hsource)
  simp only [propertyFiles, List.flatMap_map, hfiles]

theorem copies_of_qualifies (h : workspace.Qualifies other) : other.copies = workspace.copies := by
  refine flatMap_eq_of_forall₂ (h.rules.imp fun _ _ hsource => ?_)
  refine flatMap_eq_of_forall₂ (hsource.imp fun _ _ hrule => ?_)
  cases hrule <;> rfl

/-- **The namespace of a key does not matter.** Whichever keys of a workspace are written with the
namespace of the unmodified game, except for keys that have a namespace and the key `*`, its pack is
the same. -/
theorem ofWorkspace_qualifies (config : Config) (h : workspace.Qualifies other) :
    (ofWorkspace .vanilla config other).value = (ofWorkspace .vanilla config workspace).value := by
  have hfiles : (propertyFiles .vanilla other).value = (propertyFiles .vanilla workspace).value :=
    value_propertyFiles_of_qualifies h
  simp only [ofWorkspace, Reported.value_bind, Reported.value_pure, hfiles, h.root_eq,
    copies_of_qualifies h]

/-- A workspace that puts a texture on what is worn, one on what is held, and a model on tools. -/
def wardrobe (worn : List String) (held : String) (tools : List String) : Workspace where
  root := ⟨"pack"⟩
  files := [⟨⟨"pack/a.rep"⟩, 0, ⟨"pack"⟩, {}, [.block []
    [.mapAll (.target .armor) (worn.map fun text => { text }) "worn.png" { text := "'worn'" },
      .entry ⟨{ text := held }, "held.png", .target .items⟩,
      .model (tools.map fun text => { text }) "tool.json" { text := "'tool'" }]
    0 { text := "any" }]⟩]

/-- A material for armor, a family and a pattern can be qualified. The material is then spelled like
the key behind it, and the key of a modification stays as it is. -/
theorem ofWorkspace_qualifies_wardrobe :
    (wardrobe ["diamond", "minecraft:diamond"] "sword" ["*bow", "create:wrench"]).Qualifies
        (wardrobe ["minecraft:diamond"] "minecraft:sword" ["minecraft:*bow", "create:wrench"])
      ∧ (ofWorkspace .vanilla {}
            (wardrobe ["minecraft:diamond"] "minecraft:sword"
              ["minecraft:*bow", "create:wrench"])).value
          = (ofWorkspace .vanilla {}
              (wardrobe ["diamond", "minecraft:diamond"] "sword"
                ["*bow", "create:wrench"])).value := by
  have hqualifies :
      (wardrobe ["diamond", "minecraft:diamond"] "sword" ["*bow", "create:wrench"]).Qualifies
        (wardrobe ["minecraft:diamond"] "minecraft:sword"
          ["minecraft:*bow", "create:wrench"]) := by
    refine ⟨rfl, .cons (.cons (.block _ _ _ (.cons (.mapAll _ _ _ ?_) (.cons (.entry _ _ ?_)
      (.cons (.model _ _ ?_) .nil)))) .nil) .nil⟩
    · refine ⟨[{ text := "minecraft:diamond" }, { text := "minecraft:diamond" }], ?_, by decide⟩
      exact .cons (.inr (by decide)) (.cons (.inl rfl) .nil)
    · exact .inr (by decide)
    · exact ⟨_, .cons (.inr (by decide)) (.cons (.inl rfl) .nil), rfl⟩
  exact ⟨hqualifies, ofWorkspace_qualifies {} hqualifies⟩

end Pack

end Reskin
