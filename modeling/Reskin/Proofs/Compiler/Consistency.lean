import Reskin.Proofs.Compiler.Success
import Reskin.Proofs.Pack.Contents

/-!
# Files and directories of the same name

A pack can be written if no name stands for a regular file and for a directory at once. Names for
property files are chosen so that no file is replaced, but a directory of that name is not looked
for, and the destinations of copies are not checked at all. So a copy below `t.png` and a texture
that is written as `t.png` can meet.

* **`PackTree.IsConsistent`** — no name stands for both.
* **`Pack.isConsistent_ofWorkspace_iff`** — which files and directories have to be kept apart.
* **`Pack.isConsistent_of_copies_eq_nil`** — what is generated keeps them apart by itself.
* **`Compiler.output_consistent_iff`** — the same of a compilation.
* **`Compiler.copy_crosses_texture`** — a copy and a texture that meet.
-/

namespace Reskin

/-- Whether a file of a pack is a regular file when it is written: a text, or a copy of a file. -/
def PackFile.IsRegular (files : Files) : PackFile → Prop
  | text _ => True
  | copy source => files.isFile source = true

/-- Whether no name of a tree stands for a regular file and for a directory. -/
def PackTree.IsConsistent (files : Files) (tree : PackTree) : Prop :=
  ∀ names file, (names, some file) ∈ tree.listing → file.IsRegular files →
    (names, none) ∉ tree.listing

namespace Pack

open PackTree

variable {files : Files} {catalog : Catalog} {config : Config} {workspace : Workspace}

/-- **When a pack is consistent**: if the regular files that were put last at their places are on
the way to no directory. -/
theorem isConsistent_ofWorkspace_iff :
    (ofWorkspace catalog config workspace).value.IsConsistent files
      ↔ ∀ placement, IsLast placement (placements catalog config workspace) →
        placement.2.IsRegular files → ∀ path ∈ directoryPaths catalog config workspace,
          ¬placement.1.1 ++ [placement.1.2] <+: path := by
  constructor
  · intro hconsistent placement hlast hregular path hpath hbegins
    have hfile := file_mem_listing_iff.mpr ⟨placement.1, rfl, hlast⟩
    have hdirectory := directory_mem_listing_iff.mpr
      ⟨List.concat_ne_nil placement.1.2 placement.1.1, path, hpath, hbegins⟩
    exact hconsistent _ _ hfile hregular hdirectory
  · intro hapart names file hfile hregular hdirectory
    obtain ⟨place, rfl, hlast⟩ := file_mem_listing_iff.mp hfile
    obtain ⟨-, path, hpath, hbegins⟩ := directory_mem_listing_iff.mp hdirectory
    exact hapart (place, file) hlast hregular path hpath hbegins

/-- The files of property files lie in the property directory itself, if no base name has a
directory in front of it. -/
theorem directory_of_mem_propertyPlacements
    (h : ∀ entry ∈ emitted catalog config workspace, (splitPath entry.1.baseName).1 = [])
    {placement : Place × PackFile}
    (hplacement : placement ∈ propertyPlacements catalog config workspace) :
    placement.1.1 = segments propertyDirectory := by
  obtain ⟨entry, hentry, hwritten⟩ := List.mem_flatMap.mp hplacement
  obtain ⟨n, hcandidate⟩ := exists_candidate_of_mem_emitted hentry
  rw [written, hcandidate, place_candidate, place_candidate, h entry hentry] at hwritten
  simp only [List.mem_cons, List.not_mem_nil, or_false, List.append_nil] at hwritten
  rcases hwritten with rfl | rfl <;> rfl

/-- **What is generated is consistent.** Only copies can bring a file and a directory together, and
base names with a directory in front of them. -/
theorem isConsistent_of_copies_eq_nil (hcopies : workspace.copies = [])
    (hbase : ∀ entry ∈ emitted catalog config workspace, (splitPath entry.1.baseName).1 = []) :
    (ofWorkspace catalog config workspace).value.IsConsistent files := by
  rw [isConsistent_ofWorkspace_iff]
  -- The metadata lies at the root and all else in the property directory.
  have hplaces : ∀ placement ∈ placements catalog config workspace,
      placement.1 = ([], "pack.mcmeta") ∨ placement.1.1 = segments propertyDirectory := by
    intro placement hplacement
    rw [placements, copyPlacements, hcopies, List.map_nil, List.append_nil,
      List.mem_append] at hplacement
    rcases hplacement with hmetadata | hproperty
    · obtain ⟨format, -, rfl⟩ := List.mem_map.mp hmetadata
      exact .inl rfl
    · exact .inr (directory_of_mem_propertyPlacements hbase hproperty)
  have hpaths : ∀ path ∈ directoryPaths catalog config workspace,
      path = [] ∨ path = segments propertyDirectory := by
    refine List.forall_mem_cons.mpr ⟨.inr rfl, List.forall_mem_map.mpr ?_⟩
    intro placement hplacement
    exact (hplaces placement hplacement).imp_left fun heq => congrArg Prod.fst heq
  intro placement hlast _ path hpath hbegins
  rcases hpaths path hpath with rfl | rfl
  · exact absurd (List.prefix_nil.mp hbegins) (List.concat_ne_nil _ _)
  · rcases hplaces placement hlast.mem with hmetadata | hproperty
    · rw [hmetadata] at hbegins
      revert hbegins
      decide
    · -- A file in a directory is not on the way to that directory.
      have hlength := hbegins.length_le
      rw [hproperty, List.length_append, List.length_singleton] at hlength
      omega

end Pack

namespace Compiler

open PackTree

/-- **When the output of a compilation is consistent.** A name stands for a regular file and for a
directory just if a regular file that was put last at its place is on the way to the property
directory or to some other file. Without copies, and without directories in base names, that does
not happen. -/
theorem output_consistent_iff (compiler : Compiler) (files : Files) (root : Path) {pack : PackTree}
    (h : (compiler.compile files root).2.value = some pack) :
    ∃ workspace, (compiler.workspace files root).2.value = some workspace
      ∧ (pack.IsConsistent files
        ↔ ∀ placement, IsLast placement (Pack.placements .vanilla compiler.config workspace) →
          placement.2.IsRegular files →
          ∀ path ∈ Pack.directoryPaths .vanilla compiler.config workspace,
            ¬placement.1.1 ++ [placement.1.2] <+: path)
      ∧ (workspace.copies = [] →
        (∀ entry ∈ Pack.emitted .vanilla compiler.config workspace,
          (splitPath entry.1.baseName).1 = []) → pack.IsConsistent files) := by
  rcases compile_cases compiler files root with
    ⟨-, hcompile⟩ | ⟨workspace, hbuilt, -, -, hcompile⟩
  · rw [hcompile] at h
    cases h
  · rw [hcompile] at h
    cases h
    exact ⟨workspace, hbuilt, Pack.isConsistent_ofWorkspace_iff,
      Pack.isConsistent_of_copies_eq_nil⟩

/-- A texture for all items, and a copy with the given destination. -/
def crossingPack (destination : String) : MemoryFiles :=
  .ofList [(⟨"pack/t.png"⟩, ""), (⟨"pack/x"⟩, ""), (⟨"pack/a.rep"⟩,
    "any for\x7bitems='t'\x7d copy\x7b'x'=>'" ++ destination ++ "'\x7d")]

theorem output_consistent_iff_crossingPack :
    ∃ pack, (Compiler.compile ⟨{}, {}⟩ (crossingPack "assets/t.png/x").view ⟨"pack"⟩).2.value
        = some pack
      ∧ (["assets", "t.png", "x"], some (.copy ⟨"pack/x"⟩)) ∈ pack.listing
      ∧ pack.IsConsistent (crossingPack "assets/t.png/x").view := by
  obtain ⟨workspace, hbuilt, hlisted, hapart⟩ :
      ∃ workspace ∈ (Compiler.workspace ⟨{}, {}⟩ (crossingPack "assets/t.png/x").view
          ⟨"pack"⟩).2.value,
        (["assets", "t.png", "x"], some (.copy ⟨"pack/x"⟩))
            ∈ (Pack.ofWorkspace .vanilla {} workspace).value.listing
          ∧ ∀ placement ∈ Pack.placements .vanilla {} workspace,
            ∀ path ∈ Pack.directoryPaths .vanilla {} workspace,
              ¬placement.1.1 ++ [placement.1.2] <+: path := by
    decide +kernel
  have hpack := value_compile hbuilt
  obtain ⟨again, hagain, hiff, -⟩ := output_consistent_iff ⟨{}, {}⟩ _ ⟨"pack"⟩ hpack
  cases hbuilt.symm.trans hagain
  exact ⟨_, hpack, hlisted, hiff.mpr fun placement hlast _ => hapart placement hlast.mem⟩

/-- **A copy can cross a texture.** The copy is put below a directory whose name is then chosen for
the texture. -/
theorem copy_crosses_texture :
    ∃ pack, (Compiler.compile ⟨{}, {}⟩
        (crossingPack "assets/minecraft/optifine/cit/t.png/x").view ⟨"pack"⟩).2.value = some pack
      ∧ ¬pack.IsConsistent (crossingPack "assets/minecraft/optifine/cit/t.png/x").view := by
  obtain ⟨pack, hpack, hfile, hregular, hdirectory⟩ :
      ∃ pack ∈ (Compiler.compile ⟨{}, {}⟩
          (crossingPack "assets/minecraft/optifine/cit/t.png/x").view ⟨"pack"⟩).2.value,
        (["assets", "minecraft", "optifine", "cit", "t.png"], some (.copy ⟨"pack/t.png"⟩))
            ∈ pack.listing
          ∧ (crossingPack "assets/minecraft/optifine/cit/t.png/x").view.isFile ⟨"pack/t.png"⟩ = true
          ∧ (["assets", "minecraft", "optifine", "cit", "t.png"], none) ∈ pack.listing := by
    decide +kernel
  exact ⟨pack, hpack, fun hconsistent => hconsistent _ _ hfile hregular hdirectory⟩

end Compiler

end Reskin
