import Reskin.Compiler
import Reskin.Proofs.Files.Memory
import Reskin.Proofs.Pack.Origin
import Reskin.Proofs.Workspace.Assets

/-!
# Compilations that succeed

A workspace that is built refers only to what is there, and every rule of its blocks has a texture
or a model. So nothing can go wrong after the workspace is built: the generation of the pack reports
keys without items, which are warnings, and everything that the pack copies is there.

* **`Pack.exists_key_of_mem_diagnostics`** — what is reported about a workspace that is built.
* **`Pack.present_of_mem_listing`**, **`Pack.isFile_of_mem_emitted`** — what a pack copies.
* **`Compiler.compile_isSome_iff`** — there is a pack just if no error was reported, and just if the
  workspace was built.
* **`Compiler.compile_copies_present`** — a pack copies only what is there.
-/

namespace Reskin

namespace Pack

variable {files : Files} {catalog : Catalog} {config : Config} {workspace : Workspace}

/-! ## Reports -/

/-- A block has no rule to complain about if all its rules put a file on items. -/
theorem invalidRules_eq_nil {block : Block}
    (h : ∀ rule ∈ block.rules, ∃ asset, rule.asset? = some asset) : invalidRules block = [] := by
  rw [invalidRules, List.map_eq_nil_iff, List.filter_eq_nil_iff]
  intro rule hrule hnone
  obtain ⟨asset, hasset⟩ := h rule hrule
  rw [hasset] at hnone
  cases hnone

/-- A group reports only its own keys, each at the place where the key was written. A group that
applies to everything looks no key up and reports nothing. -/
theorem Group.exists_key_of_mem_diagnostics {group : Group} {diagnostic : Diagnostic}
    (h : diagnostic ∈ (group.items catalog).diagnostics) :
    ∃ key ∈ group.keys, diagnostic = .located (.noItemMatches key.text) key.location := by
  unfold items at h
  split at h
  · cases h
  · have hkeys : diagnostic ∈ (group.keys.map (expandKey catalog group.kind)).flatMap
        Reported.diagnostics := h
    rw [List.flatMap_map] at hkeys
    obtain ⟨key, hkey, hreport⟩ := List.mem_flatMap.mp hkeys
    refine ⟨key, hkey, ?_⟩
    unfold expandKey at hreport
    split at hreport
    · cases hreport
    · dsimp only at hreport
      split at hreport
      · exact List.mem_singleton.mp hreport
      · cases hreport

/-- Reports about a workspace that refers only to what is there are about keys without items. Its
rules all put a file on items, so none of them is complained about. -/
theorem exists_key_of_mem_diagnostics (h : workspace.IsGrounded files) {diagnostic : Diagnostic}
    (hreport : diagnostic ∈ (ofWorkspace catalog config workspace).diagnostics) :
    ∃ block ∈ workspace.blocks, ∃ key ∈ block.keys,
      diagnostic = .located (.noItemMatches key.text) key.location := by
  rw [diagnostics_ofWorkspace] at hreport
  obtain ⟨block, hblock, hreport⟩ := List.mem_flatMap.mp hreport
  have hvalid : invalidRules block = [] := by
    refine invalidRules_eq_nil fun rule hrule => ?_
    obtain ⟨asset, hasset, -⟩ := (h.rule block hblock rule hrule).exists_asset
    exact ⟨asset, hasset⟩
  have hgroups : (blockFiles catalog block).diagnostics
      = (Group.ofRules block.rules).flatMap fun group => (group.items catalog).diagnostics := by
    rw [blockFiles, hvalid, List.nil_append, List.flatMap_map]
  rw [hgroups] at hreport
  obtain ⟨group, hgroup, hreport⟩ := List.mem_flatMap.mp hreport
  obtain ⟨key, hkey, heq⟩ := Group.exists_key_of_mem_diagnostics hreport
  obtain ⟨rule, hrule, hkey⟩ := Group.exists_rule_of_mem_keys hgroup hkey
  exact ⟨block, hblock, key, List.mem_flatMap.mpr ⟨rule, hrule, hkey⟩, heq⟩

/-- No such report is an error, so nothing can go wrong once the workspace is built. -/
theorem hasErrors_ofWorkspace (h : workspace.IsGrounded files) :
    hasErrors (ofWorkspace catalog config workspace).diagnostics = false := by
  rw [hasErrors, List.any_eq_false]
  intro diagnostic hreport
  obtain ⟨_, _, key, _, rfl⟩ := exists_key_of_mem_diagnostics h hreport
  exact Bool.false_ne_true

/-! ## Copies -/

theorem path_asset (file : PropertyFile) : file.asset.path = file.target := by
  unfold PropertyFile.asset
  cases file.variant <;> rfl

/-- What stands beside a property file is a copy of a file that is there. It is the file of some
rule of the workspace, and the builder has looked for that. -/
theorem isFile_of_mem_emitted (h : workspace.IsGrounded files) {entry : PropertyFile × String}
    (hentry : entry ∈ emitted catalog config workspace) :
    files.isFile (workspace.root.join entry.1.target) = true := by
  obtain ⟨block, hblock, rule, habout⟩ :=
    exists_isAbout (mem_propertyFiles_of_mem_emitted hentry).1
  obtain ⟨asset, hasset, hfile⟩ := (h.rule block hblock rule habout.mem).exists_asset
  -- The file that the rule puts on items is the target of the property file.
  have hsame : asset = entry.1.asset := Option.some.inj (hasset.symm.trans habout.asset?_eq)
  rw [hsame, path_asset] at hfile
  exact hfile

/-- Whatever a pack copies is there: the source of a copy, which may be a directory, or a texture or
model beside a property file. -/
theorem present_of_mem_listing (h : workspace.IsGrounded files)
    (hpresent : ∀ path, files.isFile path = true → files.present path = true)
    {names : List String} {source : Path}
    (hentry : (names, some (.copy source)) ∈ (ofWorkspace catalog config workspace).value.listing) :
    files.present source = true := by
  rcases mem_listing_ofWorkspace hentry with ⟨hnone, -⟩ | ⟨placement, hplacement, hcases⟩
  · cases hnone
  · rcases hcases with ⟨hnone, -⟩ | heq
    · cases hnone
    · have hsource : PackFile.copy source = placement.2 :=
        Option.some.inj (congrArg Prod.snd heq)
      rw [List.mem_append, List.mem_append] at hplacement
      rcases hplacement with (hmetadata | hcopy) | hproperty
      · obtain ⟨format, -, rfl⟩ := List.mem_map.mp hmetadata
        cases hsource
      · obtain ⟨copy, hmem, rfl⟩ := List.mem_map.mp hcopy
        cases hsource
        exact h.copy copy hmem
      · obtain ⟨emission, hmem, hwritten⟩ := List.mem_flatMap.mp hproperty
        simp only [written, List.mem_cons, List.not_mem_nil, or_false] at hwritten
        rcases hwritten with rfl | rfl
        · cases hsource
        · cases hsource
          exact hpresent _ (isFile_of_mem_emitted h hmem)

end Pack

/-- A file in memory is there. -/
theorem MemoryFiles.present_of_isFile (files : MemoryFiles) {path : Path}
    (h : files.view.isFile path = true) : files.view.present path = true := by
  rw [present_view_iff]
  refine ⟨path.components, isSome_read_iff.mp h, ?_⟩
  rw [List.isPrefixOf_iff_prefix]

namespace Compiler

/-- The two ways in which a compilation can end: the workspace was not built, or it was and the pack
is there. Everything below is read off from this. -/
theorem compile_cases (compiler : Compiler) (files : Files) (root : Path) :
    ((compiler.workspace files root).2.value = none
        ∧ (compiler.compile files root).2 = ⟨none, (compiler.workspace files root).2.diagnostics⟩)
      ∨ ∃ workspace, (compiler.workspace files root).2.value = some workspace
        ∧ workspace.root = root ∧ workspace.IsGrounded files
        ∧ (compiler.compile files root).2
          = ⟨some (Pack.ofWorkspace .vanilla compiler.config workspace).value,
            (compiler.workspace files root).2.diagnostics
              ++ (Pack.ofWorkspace .vanilla compiler.config workspace).diagnostics⟩ := by
  unfold compile
  cases hbuilt : (compiler.workspace files root).2.value with
  | none =>
    refine .inl ⟨rfl, ?_⟩
    simp only [hbuilt]
  | some workspace =>
    obtain ⟨hroot, hgrounded⟩ := Workspace.isGrounded_of_build hbuilt
    have hsilent : hasErrors (compiler.workspace files root).2.diagnostics = false :=
      Workspace.isSome_build_iff.mp (Option.isSome_of_mem hbuilt)
    refine .inr ⟨workspace, rfl, hroot, hgrounded, ?_⟩
    -- Neither the builder nor the generation has reported an error.
    have hconfig : (compiler.workspace files root).1.config = compiler.config := rfl
    simp only [hbuilt, hconfig, Reported.hasErrors_append, hsilent,
      Pack.hasErrors_ofWorkspace hgrounded, Bool.or_false, Bool.false_eq_true, if_false]

theorem value_compile {compiler : Compiler} {files : Files} {root : Path} {workspace : Workspace}
    (h : (compiler.workspace files root).2.value = some workspace) :
    (compiler.compile files root).2.value
      = some (Pack.ofWorkspace .vanilla compiler.config workspace).value := by
  rcases compile_cases compiler files root with ⟨hnone, -⟩ | ⟨other, hother, -, -, hcompile⟩
  · rw [h] at hnone
    cases hnone
  · cases h.symm.trans hother
    rw [hcompile]

/-- **The generation of a pack cannot fail.** If a workspace is built, all that is reported about it
are keys that stand for no item. So there is a pack just if no error was reported, and just if the
workspace was built. -/
theorem compile_isSome_iff (compiler : Compiler) (files : Files) (root : Path) :
    (∀ workspace, (compiler.workspace files root).2.value = some workspace →
      ∀ (catalog : Catalog) (config : Config),
        ∀ diagnostic ∈ (Pack.ofWorkspace catalog config workspace).diagnostics,
          ∃ block ∈ workspace.blocks, ∃ key ∈ block.keys,
            diagnostic = .located (.noItemMatches key.text) key.location)
      ∧ ((compiler.compile files root).2.value.isSome
        ↔ hasErrors (compiler.compile files root).2.diagnostics = false)
      ∧ (hasErrors (compiler.compile files root).2.diagnostics = false
        ↔ (compiler.workspace files root).2.value.isSome) := by
  refine ⟨?_, ?_⟩
  · intro workspace hbuilt catalog config diagnostic hreport
    have hgrounded := (Workspace.isGrounded_of_build hbuilt).2
    exact Pack.exists_key_of_mem_diagnostics hgrounded hreport
  · have hbuild : (compiler.workspace files root).2.value.isSome
        ↔ hasErrors (compiler.workspace files root).2.diagnostics = false :=
      Workspace.isSome_build_iff
    rcases compile_cases compiler files root with
      ⟨hnone, hcompile⟩ | ⟨workspace, hbuilt, -, hgrounded, hcompile⟩
    · rw [hcompile, ← hbuild, hnone]
      exact ⟨Iff.rfl, Iff.rfl⟩
    · have hsilent : hasErrors (compiler.compile files root).2.diagnostics = false := by
        rw [hcompile, Reported.hasErrors_append, Pack.hasErrors_ofWorkspace hgrounded,
          hbuild.mp (Option.isSome_of_mem hbuilt), Bool.or_false]
      have hsome : (compiler.compile files root).2.value.isSome := by
        rw [hcompile]
        rfl
      exact ⟨iff_of_true hsome hsilent, iff_of_true hsilent (Option.isSome_of_mem hbuilt)⟩

/-- A texture for bows, and a copied directory. -/
def bowPack : MemoryFiles :=
  .ofList [(⟨"pack/t.png"⟩, ""), (⟨"pack/d/e.txt"⟩, ""), (⟨"pack/a.rep"⟩,
    "any for\x7bitems\x7bbow='t'\x7d\x7d copy\x7b'd'=>'a/d'\x7d")]

theorem exists_workspace_bowPack :
    ∃ workspace ∈ (Compiler.workspace ⟨{}, {}⟩ bowPack.view ⟨"pack"⟩).2.value,
      (∃ diagnostic ∈ (Pack.ofWorkspace (.ofItems ["axe"]) {} workspace).diagnostics,
        diagnostic.cause = .noItemMatches "bow")
      ∧ (["a", "d"], some (.copy ⟨"pack/d"⟩))
        ∈ (Pack.ofWorkspace .vanilla {} workspace).value.listing
      ∧ ∃ entry ∈ Pack.emitted .vanilla {} workspace, entry.2 = "t" := by
  decide +kernel

theorem compile_isSome_iff_bowPack :
    ∃ workspace, (Compiler.workspace ⟨{}, {}⟩ bowPack.view ⟨"pack"⟩).2.value = some workspace
      ∧ (∃ diagnostic ∈ (Pack.ofWorkspace (.ofItems ["axe"]) {} workspace).diagnostics,
        diagnostic.cause = .noItemMatches "bow" ∧ ∃ block ∈ workspace.blocks,
          ∃ key ∈ block.keys, diagnostic = .located (.noItemMatches key.text) key.location)
      ∧ (Compiler.compile ⟨{}, {}⟩ bowPack.view ⟨"pack"⟩).2.value.isSome := by
  obtain ⟨workspace, hbuilt, ⟨diagnostic, hreport, hcause⟩, -⟩ := exists_workspace_bowPack
  obtain ⟨hreports, hpack, hworkspace⟩ := compile_isSome_iff ⟨{}, {}⟩ bowPack.view ⟨"pack"⟩
  refine ⟨workspace, hbuilt, ⟨diagnostic, hreport, hcause, ?_⟩, ?_⟩
  · exact hreports workspace hbuilt (.ofItems ["axe"]) {} diagnostic hreport
  · exact hpack.mpr (hworkspace.mpr (Option.isSome_of_mem hbuilt))

/-- **A pack copies only what is there.** Whatever a pack copies is a file or directory of the
input, and what stands beside a property file is a copy of a file. -/
theorem compile_copies_present (compiler : Compiler) (files : MemoryFiles) (root : Path)
    {pack : PackTree} (h : (compiler.compile files.view root).2.value = some pack) :
    (∀ names source, (names, some (.copy source)) ∈ pack.listing →
        files.view.present source = true)
      ∧ ∃ workspace, (compiler.workspace files.view root).2.value = some workspace
        ∧ ∀ entry ∈ Pack.emitted .vanilla compiler.config workspace,
          pack.get? (Pack.propertyPath entry.2 "properties")
              = some (.text (entry.1.render entry.2))
            ∧ ∃ source, pack.get? (Pack.propertyPath entry.2 entry.1.variant.extension)
                = some (.copy source)
              ∧ files.view.isFile source = true := by
  rcases compile_cases compiler files.view root with
    ⟨-, hcompile⟩ | ⟨workspace, hbuilt, -, hgrounded, hcompile⟩
  · rw [hcompile] at h
    cases h
  · rw [hcompile] at h
    cases h
    constructor
    · intro names source hentry
      exact Pack.present_of_mem_listing hgrounded (fun _ => files.present_of_isFile) hentry
    · refine ⟨workspace, hbuilt, fun entry hentry => ?_⟩
      obtain ⟨htext, hcopy⟩ := Pack.get?_of_mem_emitted hentry
      exact ⟨htext, _, hcopy, Pack.isFile_of_mem_emitted hgrounded hentry⟩

theorem compile_copies_present_bowPack :
    ∃ pack, (Compiler.compile ⟨{}, {}⟩ bowPack.view ⟨"pack"⟩).2.value = some pack
      ∧ (["a", "d"], some (.copy ⟨"pack/d"⟩)) ∈ pack.listing
      ∧ bowPack.view.present ⟨"pack/d"⟩ = true
      ∧ ∃ workspace, (Compiler.workspace ⟨{}, {}⟩ bowPack.view ⟨"pack"⟩).2.value = some workspace
        ∧ ∃ entry ∈ Pack.emitted .vanilla {} workspace,
          ∃ source, pack.get? (Pack.propertyPath entry.2 entry.1.variant.extension)
              = some (.copy source)
            ∧ bowPack.view.isFile source = true := by
  obtain ⟨workspace, hbuilt, -, hlisted, entry, hentry, -⟩ := exists_workspace_bowPack
  have hpack := value_compile hbuilt
  obtain ⟨hcopies, other, hother, hfiles⟩ :=
    compile_copies_present ⟨{}, {}⟩ bowPack ⟨"pack"⟩ hpack
  cases hbuilt.symm.trans hother
  refine ⟨_, hpack, hlisted, hcopies _ _ hlisted, workspace, hbuilt, entry, hentry, ?_⟩
  exact (hfiles entry hentry).2

end Compiler

end Reskin
