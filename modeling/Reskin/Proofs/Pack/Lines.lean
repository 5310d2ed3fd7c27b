import Reskin.Compiler
import Reskin.Proofs.Catalog.Family
import Reskin.Proofs.Pack.Origin
import Reskin.Proofs.Text.Lines
import Reskin.Proofs.Workspace.Assets

/-!
# The lines of a property file

A property file is read line by line, so its text must fall apart into the lines it was made of.
Most of what stands in these lines comes from lexemes and from the catalog, which have no line
breaks. The exceptions are the values of conditions, where a literal may write a line break as an
escape, and the name of the texture or model. Nothing is escaped on the way into the file.

* **`PropertyFile.layout`** — the lines that a property file is meant to have.
* **`PropertyFile.isOneLine_layout_iff`** — when each of them is one line.
* **`Compiler.lines_of_mem_emitted`** — a property file of a pack falls apart into its lines just if
  neither its name nor a value of a condition has a line break.
* **`Compiler.condition_forges_line`** — a condition that adds a line of its own to a property file.
-/

namespace Reskin

open Text (IsOneLine isOneLine_append)

/-- A line break never stands in a lexeme: literals write it as an escape. -/
theorem IsLexeme.isOneLine {text : String} (h : IsLexeme text.toList) : IsOneLine text :=
  h.newline_not_mem

/-! ## Items -/

namespace Catalog

/-- No id of the catalog has a line break. The kernel checks the bytes of all of them, since
decoding them would be slow. -/
theorem isOneLine_of_mem_vanillaItems {id : String} (h : id ∈ vanillaItems) : IsOneLine id := by
  have hall : vanillaItems.all (fun id => !id.toByteArray.data.toList.contains 10) = true := by
    decide +kernel
  have hid := List.all_eq_true.mp hall id h
  exact Text.not_mem_of_not_mem_bytes 10 (by decide) (by simpa using hid)

end Catalog

/-- A character that is not in an id is not in its material, unless it is one of `gold`. -/
theorem ItemId.not_mem_material {c : Char} (hc : c ∉ "gold".toList) {id : String}
    (h : c ∉ id.toList) : c ∉ (material id).toList := by
  -- The name is a part of the id, and the material is a part of the name.
  have hname : c ∉ ((Text.splitLast ':' id.toList).map Prod.snd).getD id.toList := by
    cases hsplit : Text.splitLast ':' id.toList with
    | none => exact h
    | some parts =>
      obtain ⟨hid, -⟩ := Text.eq_of_splitLast_eq_some hsplit
      rw [hid] at h
      exact fun hmem => h (List.mem_append_right _ (List.mem_cons_of_mem _ hmem))
  unfold material
  generalize ((Text.splitLast ':' id.toList).map Prod.snd).getD id.toList = name at hname ⊢
  dsimp only
  split
  · exact hc
  · rw [String.toList_ofList]
    cases hsplit : Text.splitFirst '_' name with
    | none => exact hname
    | some parts =>
      rw [Text.eq_of_splitFirst_eq_some hsplit] at hname
      exact fun hmem => hname (List.mem_append_left _ hmem)

/-! ## Property files -/

namespace PropertyFile

/-- The lines that a property file with the given type is meant to have. -/
def layout (file : PropertyFile) (type name : String) : List String :=
  ["type=" ++ type]
    ++ (match file.items with
      | .all => []
      | .only ids => ["items=" ++ " ".intercalate ids])
    ++ (match file.variant with
      | .texture => file.textureLines name
      | .model => ["model=" ++ name ++ ".json"])
    ++ (file.conditions.map fun condition =>
      "nbt." ++ condition.key.text ++ "=" ++ condition.value)
    ++ (if file.weight = 0 then [] else ["weight=" ++ toString file.weight])

/-- The lines are the intended ones, for every kind that has a type. -/
theorem lines_eq_layout {file : PropertyFile} {type : String}
    (h : file.kind.typeName? = some type) (name : String) :
    file.lines name = file.layout type name := by
  rw [lines, h]
  rfl

/-- Rendering loses nothing but where the lines were, and does not escape anything. So a line break
inside of a line ends it, for whoever reads the text. -/
theorem splitAll_render {file : PropertyFile} {type : String}
    (h : file.kind.typeName? = some type) (name : String) :
    Text.splitAll '\n' (file.render name).toList
      = ((file.layout type name).map String.toList).flatMap (Text.splitAll '\n') ++ [[]] := by
  have hne : (file.layout type name).map String.toList ≠ [] := by
    simp [layout]
  have hbreak : "\n".toList = ['\n'] := by decide
  rw [render, lines_eq_layout h, String.toList_append, String.toList_intercalate, hbreak,
    Text.intercalate_append_separator hne, Text.splitAll_flatMap_ended]

/-- A property file whose items and keys are of one line each. -/
structure IsTame (file : PropertyFile) : Prop where
  exists_target : ∃ target, file.kind = .target target
  nonempty : file.items.isEmpty = false
  ids : ∀ id ∈ file.items.ids, IsOneLine id
  keys : ∀ condition ∈ file.conditions, IsOneLine condition.key.text

variable {file : PropertyFile} {name line : String}

/-- A texture line has a key that is made of the ids of the items and of fixed texts. Neither of the
two characters that end a key or a line is in the fixed texts. -/
theorem exists_key_of_mem_textureLines {c : Char} (hc : c ∈ ['\n', '=']) {target : Target}
    (hkind : file.kind = .target target) (hids : ∀ id ∈ file.items.ids, c ∉ id.toList)
    (hline : line ∈ file.textureLines name) :
    ∃ key, line = "texture" ++ key ++ "=" ++ name ∧ c ∉ key.toList := by
  obtain ⟨hfixed, hgold, hdigit⟩ :
      (∀ text ∈ ["", ".", ".elytra", "_layer_"], c ∉ text.toList)
        ∧ c ∉ "gold".toList ∧ c.isDigit = false := by
    simp only [List.mem_cons, List.not_mem_nil, or_false] at hc
    rcases hc with rfl | rfl <;> decide
  unfold textureLines at hline
  cases hitems : file.items with
  | all =>
    rw [hitems] at hline
    refine ⟨"", ?_, hfixed "" (by decide)⟩
    rw [List.mem_singleton.mp hline]
    rfl
  | only ids =>
    rw [hitems] at hids
    rw [hitems, hkind] at hline
    cases target with
    | items =>
      obtain ⟨id, hid, rfl⟩ := List.mem_map.mp hline
      refine ⟨"." ++ id, ?_, ?_⟩
      · rw [← String.append_assoc]
        rfl
      · rw [String.toList_append, List.mem_append, not_or]
        exact ⟨hfixed "." (by decide), hids id hid⟩
    | elytras =>
      refine ⟨".elytra", ?_, hfixed ".elytra" (by decide)⟩
      rw [List.mem_singleton.mp hline]
      rfl
    | armor | armorLayer1 | armorLayer2 =>
      obtain ⟨material, hmaterial, hline⟩ := List.mem_flatMap.mp hline
      obtain ⟨layer, -, rfl⟩ := List.mem_map.mp hline
      rw [ItemSelection.mem_addNew] at hmaterial
      obtain ⟨id, hid, rfl⟩ := List.mem_map.mp (hmaterial.resolve_left List.not_mem_nil)
      refine ⟨"." ++ ItemId.material id ++ "_layer_" ++ toString layer, ?_, ?_⟩
      · simp only [← String.append_assoc]
        rfl
      · simp only [String.toList_append, List.mem_append, not_or]
        exact ⟨⟨⟨hfixed "." (by decide), ItemId.not_mem_material hgold (hids id hid)⟩,
          hfixed "_layer_" (by decide)⟩, Text.not_mem_toString_nat hdigit layer⟩

/-- A texture line is the name of the texture with something of one line in front of it. -/
theorem eq_append_of_mem_textureLines (h : file.IsTame) (hline : line ∈ file.textureLines name) :
    ∃ label, IsOneLine label ∧ line = label ++ name := by
  obtain ⟨target, hkind⟩ := h.exists_target
  obtain ⟨key, rfl, hkey⟩ := exists_key_of_mem_textureLines (by decide) hkind h.ids hline
  refine ⟨"texture" ++ key ++ "=", ?_, rfl⟩
  simp only [isOneLine_append]
  exact ⟨⟨by decide, hkey⟩, by decide⟩

/-- There is a texture line, so a line break in the name does break a line. -/
theorem exists_mem_textureLines (h : file.IsTame) (name : String) :
    ∃ line, line ∈ file.textureLines name := by
  obtain ⟨target, hkind⟩ := h.exists_target
  have hnonempty := h.nonempty
  unfold textureLines
  cases hitems : file.items with
  | all => exact ⟨_, List.mem_singleton_self _⟩
  | only ids =>
    rw [hitems] at hnonempty
    obtain ⟨id, hid⟩ := List.exists_mem_of_ne_nil ids (List.isEmpty_eq_false_iff.mp hnonempty)
    have hmaterial : ItemId.material id ∈ ItemSelection.addNew [] (ids.map ItemId.material) :=
      ItemSelection.mem_addNew.mpr (.inr (List.mem_map_of_mem hid))
    rw [hkind]
    cases target with
    | items => exact ⟨_, List.mem_map_of_mem hid⟩
    | elytras => exact ⟨_, List.mem_singleton_self _⟩
    | armor | armorLayer1 | armorLayer2 =>
      exact ⟨_, List.mem_flatMap.mpr ⟨_, hmaterial, List.mem_cons_self⟩⟩

/-- The texture lines are one line each just if the name is. It stands in all of them. -/
theorem isOneLine_textureLines_iff (h : file.IsTame) :
    (∀ line ∈ file.textureLines name, IsOneLine line) ↔ IsOneLine name := by
  constructor
  · intro hlines
    obtain ⟨line, hline⟩ := exists_mem_textureLines h name
    obtain ⟨label, -, rfl⟩ := eq_append_of_mem_textureLines h hline
    exact (isOneLine_append.mp (hlines _ hline)).2
  · intro hname line hline
    obtain ⟨label, hlabel, rfl⟩ := eq_append_of_mem_textureLines h hline
    exact isOneLine_append.mpr ⟨hlabel, hname⟩

/-- **What can break a line.** Each line of a property file is one line just if its name and the
values of its conditions are. All other texts in it are fixed, numbers, or known to have no line
break. -/
theorem isOneLine_layout_iff (h : file.IsTame) {type : String} (htype : IsOneLine type) :
    (∀ line ∈ file.layout type name, IsOneLine line)
      ↔ IsOneLine name ∧ ∀ condition ∈ file.conditions, IsOneLine condition.value := by
  -- The lines of the layout in turn. The name and the values are the only texts in them of which
  -- nothing is known.
  have hitems : ∀ line ∈ (match file.items with
      | .all => []
      | .only ids => ["items=" ++ " ".intercalate ids]), IsOneLine line := by
    have hids := h.ids
    cases hselection : file.items with
    | all => exact List.forall_mem_nil _
    | only ids =>
      rw [hselection] at hids
      refine List.forall_mem_singleton.mpr (isOneLine_append.mpr ⟨by decide, ?_⟩)
      exact Text.isOneLine_intercalate (by decide) hids
  have hasset : (∀ line ∈ (match file.variant with
      | .texture => file.textureLines name
      | .model => ["model=" ++ name ++ ".json"]), IsOneLine line) ↔ IsOneLine name := by
    cases file.variant with
    | texture => exact isOneLine_textureLines_iff h
    | model =>
      have hmodel : IsOneLine "model=" ∧ IsOneLine ".json" := by decide
      rw [List.forall_mem_singleton, isOneLine_append, isOneLine_append]
      exact ⟨fun hline => hline.1.2, fun hname => ⟨⟨hmodel.1, hname⟩, hmodel.2⟩⟩
  have hconditions : (∀ line ∈ file.conditions.map fun condition =>
      "nbt." ++ condition.key.text ++ "=" ++ condition.value, IsOneLine line)
        ↔ ∀ condition ∈ file.conditions, IsOneLine condition.value := by
    rw [List.forall_mem_map]
    refine forall₂_congr fun condition hcondition => ?_
    rw [isOneLine_append]
    refine and_iff_right ?_
    simp only [isOneLine_append]
    exact ⟨⟨by decide, h.keys condition hcondition⟩, by decide⟩
  have hweight : ∀ line ∈ (if file.weight = 0 then []
      else ["weight=" ++ toString file.weight]), IsOneLine line := by
    split
    · exact List.forall_mem_nil _
    · refine List.forall_mem_singleton.mpr (isOneLine_append.mpr ⟨by decide, ?_⟩)
      exact Text.isOneLine_toString_int file.weight
  have htypeLine : ∀ line ∈ ["type=" ++ type], IsOneLine line :=
    List.forall_mem_singleton.mpr (isOneLine_append.mpr ⟨by decide, htype⟩)
  simp only [layout, List.forall_mem_append, hasset, hconditions]
  exact ⟨fun hlines => ⟨hlines.1.1.2, hlines.1.2⟩,
    fun hparts => ⟨⟨⟨⟨htypeLine, hitems⟩, hparts.1⟩, hparts.2⟩, hweight⟩⟩

/-- The text falls apart into the intended lines just if none of them is broken. -/
theorem splitAll_render_eq_iff (h : file.IsTame) {type : String}
    (htype : file.kind.typeName? = some type) :
    Text.splitAll '\n' (file.render name).toList
        = (file.layout type name).map String.toList ++ [[]]
      ↔ IsOneLine name ∧ ∀ condition ∈ file.conditions, IsOneLine condition.value := by
  have htypes : ∀ kind, ∀ type ∈ RuleKind.typeName? kind, IsOneLine type := by
    intro kind
    cases kind with
    | target target => cases target <;> decide
    | condition => exact fun type hnone => nomatch hnone
  rw [splitAll_render htype, List.append_left_inj, Text.flatMap_splitAll_eq_iff,
    List.forall_mem_map]
  exact isOneLine_layout_iff h (htypes file.kind type htype)

end PropertyFile

namespace Pack

variable {files : Files} {catalog : Catalog} {config : Config} {workspace : Workspace}

/-- The items of a key are from the catalog, or the key itself is an id of a modification. -/
theorem isOneLine_of_mem_expandKey {kind : RuleKind} {key : Token} {id : String}
    (hcatalog : ∀ key, ∀ id ∈ catalog.family key, IsOneLine id) (hkey : IsOneLine key.text)
    (h : id ∈ (expandKey catalog kind key).value) : IsOneLine id := by
  unfold expandKey at h
  split at h
  · rw [List.mem_singleton.mp h]
    exact hkey
  · have hitems : id ∈ matchingItems catalog kind key.text := h
    unfold matchingItems at hitems
    dsimp only at hitems
    split at hitems
    · exact hcatalog _ id (List.mem_filter.mp hitems).1
    · exact hcatalog _ id (List.mem_filter.mp hitems).1

/-- The property files of a workspace that is built have items and keys of one line each. Both come
from lexemes or from the catalog. -/
theorem isTame_of_mem_emitted (hcatalog : ∀ key, ∀ id ∈ catalog.family key, IsOneLine id)
    (h : workspace.IsGrounded files) {entry : PropertyFile × String}
    (hentry : entry ∈ emitted catalog config workspace) : entry.1.IsTame := by
  obtain ⟨hfile, hnonempty⟩ := mem_propertyFiles_of_mem_emitted hentry
  obtain ⟨block, hblock, rule, habout⟩ := exists_isAbout hfile
  obtain ⟨target, htarget⟩ := (h.rule block hblock rule habout.mem).exists_target
  refine ⟨⟨target, habout.kind_eq.symm.trans htarget⟩, hnonempty, fun id hid => ?_,
    fun condition hcondition => ?_⟩
  · obtain ⟨block, hblock, rule, hrule, key, hkey, hid⟩ := exists_key_of_mem_ids hfile hid
    have hlexeme := (h.rule block hblock rule hrule).keys key hkey
    exact isOneLine_of_mem_expandKey hcatalog hlexeme.isOneLine hid
  · rw [habout.conditions_eq] at hcondition
    exact (h.condition block hblock condition hcondition).isOneLine

/-- Counters have no line breaks, so those of a name are those of the base name. -/
theorem isOneLine_candidate_iff {base : String} {n : Nat} :
    IsOneLine (candidate base n) ↔ IsOneLine base := by
  rw [candidate_eq, isOneLine_append]
  exact and_iff_left (Text.isOneLine_of_isDigit fun _ => isDigit_of_mem_counter)

end Pack

namespace Compiler

/-- **When a property file falls apart into its lines.** A property file of a pack has its type, its
items if they are listed, its textures or its model, its conditions in their order and its weight
unless that is zero, a line each, and nothing else, just if neither the name of its target nor a
value of a condition has a line break. Otherwise each line break there ends a line. -/
theorem lines_of_mem_emitted (compiler : Compiler) (files : Files) (root : Path)
    {workspace : Workspace} (h : (compiler.workspace files root).2.value = some workspace) :
    ∀ entry ∈ Pack.emitted .vanilla compiler.config workspace,
      (Pack.ofWorkspace .vanilla compiler.config workspace).value.get?
          (Pack.propertyPath entry.2 "properties") = some (.text (entry.1.render entry.2))
        ∧ ∃ type, entry.1.kind.typeName? = some type
          ∧ Text.splitAll '\n' (entry.1.render entry.2).toList
            = ((entry.1.layout type entry.2).map String.toList).flatMap (Text.splitAll '\n')
              ++ [[]]
          ∧ (Text.splitAll '\n' (entry.1.render entry.2).toList
              = (entry.1.layout type entry.2).map String.toList ++ [[]]
            ↔ IsOneLine entry.1.baseName
              ∧ ∀ condition ∈ entry.1.conditions, IsOneLine condition.value) := by
  intro entry hentry
  have hgrounded := (Workspace.isGrounded_of_build h).2
  have htame : entry.1.IsTame := Pack.isTame_of_mem_emitted
    (fun key id hid => Catalog.isOneLine_of_mem_vanillaItems
      ((Catalog.family_ofItems_sublist Catalog.vanillaItems key).subset hid)) hgrounded hentry
  obtain ⟨n, hname⟩ := Pack.exists_candidate_of_mem_emitted hentry
  obtain ⟨target, hkind⟩ := htame.exists_target
  obtain ⟨type, htype⟩ : ∃ type, entry.1.kind.typeName? = some type := by
    rw [hkind]
    cases target <;> exact ⟨_, rfl⟩
  refine ⟨(Pack.get?_of_mem_emitted hentry).1, type, htype, ?_, ?_⟩
  · exact PropertyFile.splitAll_render htype entry.2
  · rw [PropertyFile.splitAll_render_eq_iff htame htype, hname, Pack.isOneLine_candidate_iff]

/-- A condition with a line break in its value, and one without. -/
def forgingPack : MemoryFiles :=
  .ofList [(⟨"pack/t.png"⟩, ""), (⟨"pack/a.rep"⟩,
    "match\x7bn='a\\nweight=9'\x7dfor\x7bitems='t'\x7d match\x7bn='b'\x7dfor\x7bitems='t'\x7d")]

theorem emitted_forgingPack :
    ∃ workspace ∈ (Compiler.workspace ⟨{}, {}⟩ forgingPack.view ⟨"pack"⟩).2.value,
      ∃ forged ∈ Pack.emitted .vanilla {} workspace, ∃ plain ∈ Pack.emitted .vanilla {} workspace,
        (forged.1.weight = 0 ∧ forged.1.conditions.map Entry.value = ["a\nweight=9"]
          ∧ forged.1.render forged.2 = "type=item\ntexture=t\nnbt.n=a\nweight=9\n")
        ∧ plain.1.baseName = "t" ∧ plain.1.conditions.map Entry.value = ["b"] := by
  decide +kernel

theorem lines_of_mem_emitted_forgingPack :
    ∃ workspace, (Compiler.workspace ⟨{}, {}⟩ forgingPack.view ⟨"pack"⟩).2.value = some workspace
      ∧ ∃ entry ∈ Pack.emitted .vanilla {} workspace, ∃ type,
        entry.1.kind.typeName? = some type
          ∧ Text.splitAll '\n' (entry.1.render entry.2).toList
            = (entry.1.layout type entry.2).map String.toList ++ [[]] := by
  obtain ⟨workspace, hbuilt, -, -, entry, hentry, -, hname, hvalues⟩ := emitted_forgingPack
  obtain ⟨-, type, htype, -, hiff⟩ :=
    lines_of_mem_emitted ⟨{}, {}⟩ forgingPack.view ⟨"pack"⟩ hbuilt entry hentry
  refine ⟨workspace, hbuilt, entry, hentry, type, htype, hiff.mpr ⟨?_, fun condition h => ?_⟩⟩
  · rw [hname]
    decide
  · have hvalue : condition.value ∈ ["b"] := hvalues ▸ List.mem_map_of_mem h
    rw [List.mem_singleton.mp hvalue]
    decide

/-- **A condition can forge a line.** A property file without a weight has a line that gives it
one, since a line break in the value of its condition ends the line of the condition. -/
theorem condition_forges_line :
    ∃ workspace, (Compiler.workspace ⟨{}, {}⟩ forgingPack.view ⟨"pack"⟩).2.value = some workspace
      ∧ ∃ entry ∈ Pack.emitted .vanilla {} workspace, entry.1.weight = 0
        ∧ "weight=9".toList ∈ Text.splitAll '\n' (entry.1.render entry.2).toList := by
  obtain ⟨workspace, hbuilt, entry, hentry, -, -, ⟨hweight, -, htext⟩, -⟩ := emitted_forgingPack
  refine ⟨workspace, hbuilt, entry, hentry, hweight, ?_⟩
  rw [htext]
  decide +kernel

end Compiler

end Reskin
