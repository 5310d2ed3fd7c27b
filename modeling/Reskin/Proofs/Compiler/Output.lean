import Reskin.Proofs.Compiler.Success
import Reskin.Proofs.Disk.Confinement

/-!
# Where the output of a compilation goes

A pack is written into an output directory, and nothing outside of that directory changes if all
names in the pack are plain. The names come from the destinations of copies and from the names of
textures and models. Neither is checked: a destination such as `../x` gives a directory called
`..`, which is followed when the pack is written.

* **`Pack.isPlain_ofWorkspace_iff`** — when all names in a pack are plain.
* **`Compiler.output_confined`** — the same of a compilation, and where the pack is then written.
* **`Compiler.copy_escapes`** — a copy that is written outside of the output directory.
-/

namespace Reskin

namespace Pack

open PackTree

variable {catalog : Catalog} {config : Config} {workspace : Workspace}

/-- Names of directories are neither empty nor do they hold a separator. -/
theorem isPlainName_of_mem_segments {path name : String} (h : name ∈ segments path)
    (hcurrent : name ≠ ".") (hparent : name ≠ "..") : IsPlainName name := by
  obtain ⟨segment, hsegment, rfl⟩ := List.mem_map.mp h
  obtain ⟨hmem, hne⟩ := List.mem_filter.mp hsegment
  refine ⟨fun hempty => ?_, hcurrent, hparent, ?_⟩
  · have hnil : segment = [] := by
      rw [← String.toList_ofList (l := segment), hempty]
      decide
    rw [hnil] at hne
    exact absurd hne (by decide)
  · rw [String.toList_ofList]
    exact Text.not_mem_of_mem_splitAll hmem

/-- The directories of a split path are segments, and its name holds no separator. So only special
names are left to be excluded. -/
theorem splitPath_cases (path : String) :
    (∀ name ∈ (splitPath path).1, ∃ parent, name ∈ segments parent)
      ∧ '/' ∉ (splitPath path).2.toList := by
  rcases slash_cases path with hpath | ⟨parent, name, rfl, hname⟩
  · rw [splitPath_of_not_mem hpath]
    exact ⟨List.forall_mem_nil _, hpath⟩
  · rw [splitPath_append parent hname]
    exact ⟨fun _ hsegment => ⟨parent, hsegment⟩, hname⟩

/-- The names of the files of a property file are too long to be special. They end in a dot and an
extension, whatever the base name is. -/
theorem isPlainName_written (base : String) (n : Nat) {extension : String}
    (h : extension ∈ ["properties", "png", "json"]) :
    IsPlainName ((splitPath base).2 ++ counter n ++ "." ++ extension) := by
  have hextensions : ∀ extension ∈ ["properties", "png", "json"],
      3 ≤ extension.length ∧ '/' ∉ extension.toList := by
    decide
  obtain ⟨hlength, hslash⟩ := hextensions extension h
  have hlong : 3 ≤ ((splitPath base).2 ++ counter n ++ "." ++ extension).length := by
    rw [String.length_append]
    omega
  have hcounter : '/' ∉ (counter n).toList := fun hmem =>
    absurd (isDigit_of_mem_counter hmem) (by decide)
  refine ⟨fun heq => ?_, fun heq => ?_, fun heq => ?_, ?_⟩
  · exact absurd (heq ▸ hlong) (by decide)
  · exact absurd (heq ▸ hlong) (by decide)
  · exact absurd (heq ▸ hlong) (by decide)
  · simp only [String.toList_append, List.mem_append, not_or]
    exact ⟨⟨⟨(splitPath_cases base).2, hcounter⟩, by decide⟩, hslash⟩

/-- All files that are put into a tree are there, though perhaps others in their places. Induction
on the files: a place that is taken stays taken while the rest is put there. -/
theorem isSome_file?_putAll {entries : List (Place × PackFile)} {tree : PackTree} {place : Place}
    (h : place ∈ entries.map Prod.fst) : ((putAll entries tree).file? place).isSome := by
  induction entries generalizing tree with
  | nil => cases h
  | cons entry entries ih =>
    by_cases hlater : place ∈ entries.map Prod.fst
    · exact ih hlater
    · have hplace : place = entry.1 := (List.mem_cons.mp h).resolve_right hlater
      show ((putAll entries (tree.put entry.1 entry.2)).file? place).isSome
      rw [file?_putAll_of_not_mem hlater, file?_put, if_pos hplace]
      rfl

/-- A place with plain names only. -/
def IsPlainPlace (place : Place) : Prop :=
  (∀ name ∈ place.1, IsPlainName name) ∧ IsPlainName place.2

/-- All names in a pack are plain just if those of the places are where files were put. A directory
is only created on the way to a file. -/
theorem isPlain_iff_placements :
    (ofWorkspace catalog config workspace).value.IsPlain
      ↔ ∀ placement ∈ metadataPlacements config ++ copyPlacements workspace
          ++ propertyPlacements catalog config workspace, IsPlainPlace placement.1 := by
  constructor
  · -- A later file may have replaced the one that was put here, but the place is still taken.
    intro hplain placement hplacement
    obtain ⟨file, hfile⟩ := Option.isSome_iff_exists.mp
      (isSome_file?_putAll (List.mem_map_of_mem hplacement))
    have hlisted := mem_listing_of_file? hfile
    rw [← value_ofWorkspace] at hlisted
    obtain ⟨hdirectories, hname⟩ := List.forall_mem_append.mp (hplain _ hlisted)
    exact ⟨hdirectories, hname _ (List.mem_singleton_self _)⟩
  · -- What is listed is a placement or a directory on the way to one.
    intro hplaced entry hentry name hname
    have hproperty : ∀ name ∈ segments propertyDirectory, IsPlainName name := by decide
    rcases mem_listing_ofWorkspace hentry with
      ⟨-, -, hbegins⟩ | ⟨placement, hplacement, ⟨-, -, hbegins⟩ | rfl⟩
    · exact hproperty name (hbegins.subset hname)
    · exact (hplaced placement hplacement).1 name (hbegins.subset hname)
    · rcases List.mem_append.mp hname with hname | hname
      · exact (hplaced placement hplacement).1 name hname
      · rw [List.mem_singleton.mp hname]
        exact (hplaced placement hplacement).2

/-- For a path that was split, plain means that no special name is in it and that it does not end in
a separator. -/
theorem isPlainPlace_splitPath_iff (path : String) :
    IsPlainPlace (splitPath path)
      ↔ (∀ name ∈ (splitPath path).1, name ≠ "." ∧ name ≠ "..")
        ∧ (splitPath path).2 ∉ ["", ".", ".."] := by
  obtain ⟨hsegments, hslash⟩ := splitPath_cases path
  have hdirectories : (∀ name ∈ (splitPath path).1, IsPlainName name)
      ↔ ∀ name ∈ (splitPath path).1, name ≠ "." ∧ name ≠ ".." := by
    refine forall₂_congr fun name hname => ⟨fun h => ⟨h.ne_current, h.ne_parent⟩, fun h => ?_⟩
    obtain ⟨parent, hsegment⟩ := hsegments name hname
    exact isPlainName_of_mem_segments hsegment h.1 h.2
  rw [IsPlainPlace, hdirectories, isPlainName_iff]
  simp [hslash]

/-- For property files only the directories in front of their base names count, because
`isPlainName_written` settles the names themselves. -/
theorem isPlainPlace_propertyPlacements_iff :
    (∀ placement ∈ propertyPlacements catalog config workspace, IsPlainPlace placement.1)
      ↔ ∀ entry ∈ emitted catalog config workspace,
        ∀ name ∈ (splitPath entry.1.baseName).1, name ≠ "." ∧ name ≠ ".." := by
  rw [propertyPlacements, List.forall_mem_flatMap]
  refine forall₂_congr fun entry hentry => ?_
  obtain ⟨n, hcandidate⟩ := exists_candidate_of_mem_emitted hentry
  have hproperty : ∀ name ∈ segments propertyDirectory, IsPlainName name := by decide
  have hextension : entry.1.variant.extension ∈ ["properties", "png", "json"] := by
    cases entry.1.variant <;> decide
  rw [written, hcandidate, place_candidate, place_candidate]
  constructor
  · intro hplaced name hname
    have hplain := (hplaced _ List.mem_cons_self).1 name (List.mem_append_right _ hname)
    exact ⟨hplain.ne_current, hplain.ne_parent⟩
  · intro hbase
    have hdirectories : ∀ name ∈ segments propertyDirectory ++ (splitPath entry.1.baseName).1,
        IsPlainName name := by
      refine List.forall_mem_append.mpr ⟨hproperty, fun name hname => ?_⟩
      obtain ⟨parent, hsegment⟩ := (splitPath_cases entry.1.baseName).1 name hname
      exact isPlainName_of_mem_segments hsegment (hbase name hname).1 (hbase name hname).2
    -- The names of the files end in an extension, whatever the base name is.
    refine List.forall_mem_cons.mpr ⟨⟨hdirectories, ?_⟩, List.forall_mem_singleton.mpr
      ⟨hdirectories, ?_⟩⟩
    · exact isPlainName_written entry.1.baseName n List.mem_cons_self
    · exact isPlainName_written entry.1.baseName n hextension

/-- **When all names in a pack are plain**: if those in the destinations of copies are, and those of
the directories in base names. -/
theorem isPlain_ofWorkspace_iff (catalog : Catalog) (config : Config) (workspace : Workspace) :
    (ofWorkspace catalog config workspace).value.IsPlain
      ↔ (∀ entry ∈ workspace.copies,
          (∀ name ∈ (splitPath entry.destination).1, name ≠ "." ∧ name ≠ "..")
            ∧ (splitPath entry.destination).2 ∉ ["", ".", ".."])
        ∧ ∀ entry ∈ emitted catalog config workspace,
          ∀ name ∈ (splitPath entry.1.baseName).1, name ≠ "." ∧ name ≠ ".." := by
  have hmetadata : ∀ placement ∈ metadataPlacements config, IsPlainPlace placement.1 := by
    intro placement hplacement
    obtain ⟨format, -, rfl⟩ := List.mem_map.mp hplacement
    have hname : IsPlainName "pack.mcmeta" := by decide
    exact ⟨List.forall_mem_nil _, hname⟩
  rw [isPlain_iff_placements, List.forall_mem_append, List.forall_mem_append,
    isPlainPlace_propertyPlacements_iff, copyPlacements, List.forall_mem_map]
  simp only [isPlainPlace_splitPath_iff]
  exact ⟨fun h => ⟨h.1.2, h.2⟩, fun h => ⟨⟨hmetadata, h.1⟩, h.2⟩⟩

end Pack

namespace Compiler

open PackTree Disk

/-- **Where the output of a compilation goes.** All names in a pack are plain just if no destination
of a copy and no base name leads through `.` or `..`, and no destination ends in one of these or in
a separator. Then the pack is written inside the output directory: either that cannot be created,
and nothing else is done, or it is there and only what is below it changes. -/
theorem output_confined (compiler : Compiler) (files : Files) (root : Path) {pack : PackTree}
    (h : (compiler.compile files root).2.value = some pack) :
    (∃ workspace, (compiler.workspace files root).2.value = some workspace
        ∧ (pack.IsPlain
          ↔ (∀ entry ∈ workspace.copies,
              (∀ name ∈ (splitPath entry.destination).1, name ≠ "." ∧ name ≠ "..")
                ∧ (splitPath entry.destination).2 ∉ ["", ".", ".."])
            ∧ ∀ entry ∈ Pack.emitted .vanilla compiler.config workspace,
              ∀ name ∈ (splitPath entry.1.baseName).1, name ≠ "." ∧ name ≠ ".."))
      ∧ (pack.IsPlain → ∀ disk : Disk, disk.root.HasPlainNames →
        ∀ output : Path, output.text ≠ "" →
          ∃ result made, (createDirectories output).run.run disk = (result, made)
            ∧ ((∃ fault, result = .error fault
                ∧ (pack.persist output).run.run disk = (.error fault, made))
              ∨ ∃ base, made.LeadsTo output base
                ∧ Confined base made ((pack.persist output).run.run disk).2)) := by
  constructor
  · rcases compile_cases compiler files root with
      ⟨-, hcompile⟩ | ⟨workspace, hbuilt, -, -, hcompile⟩
    · rw [hcompile] at h
      cases h
    · rw [hcompile] at h
      cases h
      exact ⟨workspace, hbuilt, Pack.isPlain_ofWorkspace_iff .vanilla compiler.config workspace⟩
  · intro hplain disk hdisk output houtput
    exact persist_confined hplain hdisk houtput

/-- A copy with the given destination. -/
def copyingPack (destination : String) : MemoryFiles :=
  .ofList [(⟨"pack/x"⟩, ""), (⟨"pack/a.rep"⟩, "copy\x7b'x'=>'" ++ destination ++ "'\x7d")]

/-- A disk with the file that is copied. -/
def copyingDisk : Disk :=
  ⟨.directory [("work", .directory [("pack", .directory [("x", .file ByteArray.empty)])])],
    ["work"]⟩

theorem hasPlainNames_copyingDisk : copyingDisk.root.HasPlainNames := by
  have hnames : IsPlainName "work" ∧ IsPlainName "pack" ∧ IsPlainName "x" := by decide
  exact ⟨hnames.1, ⟨hnames.2.1, ⟨hnames.2.2, trivial, trivial⟩, trivial⟩, trivial⟩

theorem output_confined_copyingPack :
    ∃ pack, (Compiler.compile ⟨{}, {}⟩ (copyingPack "d/x").view ⟨"pack"⟩).2.value = some pack
      ∧ pack.IsPlain
      ∧ ∃ made base, (createDirectories ⟨"out"⟩).run.run copyingDisk = (.ok (), made)
        ∧ made.LeadsTo ⟨"out"⟩ base
        ∧ Confined base made ((pack.persist ⟨"out"⟩).run.run copyingDisk).2 := by
  obtain ⟨workspace, hbuilt, hcopies, hemitted⟩ :
      ∃ workspace ∈ (Compiler.workspace ⟨{}, {}⟩ (copyingPack "d/x").view ⟨"pack"⟩).2.value,
        workspace.copies.map CopyEntry.destination = ["d/x"]
          ∧ Pack.emitted .vanilla {} workspace = [] := by
    decide +kernel
  have hpack := value_compile hbuilt
  obtain ⟨⟨again, hagain, hiff⟩, hconfined⟩ := output_confined ⟨{}, {}⟩ _ ⟨"pack"⟩ hpack
  cases hbuilt.symm.trans hagain
  have hplain := hiff.mpr ⟨fun entry hentry => ?_, fun entry hentry => ?_⟩
  · refine ⟨_, hpack, hplain, ?_⟩
    obtain ⟨result, made, hmade, hwritten⟩ :=
      hconfined hplain copyingDisk hasPlainNames_copyingDisk ⟨"out"⟩ (by decide)
    have hcreated : ((createDirectories ⟨"out"⟩).run.run copyingDisk).1.isOk = true := by
      decide +kernel
    rw [hmade] at hcreated
    rcases hwritten with ⟨fault, rfl, -⟩ | ⟨base, hbase, hbelow⟩
    · cases hcreated
    · cases result with
      | error fault => cases hcreated
      | ok _ => exact ⟨made, base, hmade, hbase, hbelow⟩
  · have hdestination : entry.destination ∈ ["d/x"] := hcopies ▸ List.mem_map_of_mem hentry
    rw [List.mem_singleton.mp hdestination]
    decide
  · rw [hemitted] at hentry
    cases hentry

/-- **A copy can escape.** The destination of a copy leads out of the output directory, and the copy
is written beside that. -/
theorem copy_escapes :
    ∃ pack, (Compiler.compile ⟨{}, {}⟩ (copyingPack "../x").view ⟨"pack"⟩).2.value = some pack
      ∧ ([".."], none) ∈ pack.listing
      ∧ copyingDisk.root.HasPlainNames
      ∧ (copyingDisk.root.get? ["work", "x"]).isSome = false
      ∧ (((pack.persist ⟨"out"⟩).run.run copyingDisk).2.root.get? ["work", "x"]).isSome = true := by
  obtain ⟨pack, hpack, hlisted, hbefore, hafter⟩ :
      ∃ pack ∈ (Compiler.compile ⟨{}, {}⟩ (copyingPack "../x").view ⟨"pack"⟩).2.value,
        ([".."], none) ∈ pack.listing
          ∧ (copyingDisk.root.get? ["work", "x"]).isSome = false
          ∧ (((pack.persist ⟨"out"⟩).run.run copyingDisk).2.root.get? ["work", "x"]).isSome
            = true := by
    decide +kernel
  exact ⟨pack, hpack, hlisted, hasPlainNames_copyingDisk, hbefore, hafter⟩

end Compiler

end Reskin
