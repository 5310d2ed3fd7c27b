import Reskin.Proofs.Pack.Origin

/-!
# What exactly is in a pack

The names at one level of a pack are distinct, so the listing of a pack has just what can be looked
up in it. What can be looked up is known from the run of files that the pack was made by: the last
file that was put at each place, and the directories on the way to any of them.

* **`HasDistinctNames`**, **`hasDistinctNames_putAll`** — the invariant, kept by every change.
* **`mem_listing_some_iff`**, **`mem_listing_none_iff`** — what is listed can be looked up.
* **`isSome_directory?_putAll`**, **`file?_putAll_eq_some_iff`** — what is there after a run.
* **`Pack.file_mem_listing_iff`**, **`Pack.directory_mem_listing_iff`** — the files and the
  directories of the pack of a workspace.
-/

namespace Reskin

namespace PackTree

/-! ## Distinct names -/

/-- Whether the names of the files of every directory are distinct, and those of its directories. -/
inductive HasDistinctNames : PackTree → Prop
  | node {files : List (String × PackFile)} {directories : List (String × PackTree)}
    (files_nodup : (files.map Prod.fst).Nodup)
    (directories_nodup : (directories.map Prod.fst).Nodup)
    (inner : ∀ directory ∈ directories, HasDistinctNames directory.2) :
    HasDistinctNames (node files directories)

section Entries

variable {α : Type} {name : String} {entries : List (String × α)}

/-- With distinct names, an entry that is there is the one that is found. -/
theorem lookup_of_mem {value : α} (h : (entries.map Prod.fst).Nodup)
    (hmem : (name, value) ∈ entries) : entries.lookup name = some value := by
  induction entries with
  | nil => cases hmem
  | cons entry rest ih =>
    obtain ⟨known, first⟩ := entry
    obtain ⟨hnew, hrest⟩ := List.nodup_cons.mp h
    rw [lookup_cons]
    rcases List.mem_cons.mp hmem with heq | hmem
    · cases heq
      rw [if_pos rfl]
    · have hknown : name ∈ rest.map Prod.fst := List.mem_map_of_mem (f := Prod.fst) hmem
      have hne : name ≠ known := fun heq => hnew (heq ▸ hknown)
      rw [if_neg hne, ih hrest hmem]

/-- An update keeps the names, and adds its own if that is new. So names that are distinct stay
so. -/
theorem nodup_updateEntry (f : Option α → α) (h : (entries.map Prod.fst).Nodup) :
    ((updateEntry name f entries).map Prod.fst).Nodup := by
  induction entries with
  | nil => exact List.nodup_singleton name
  | cons entry rest ih =>
    obtain ⟨known, first⟩ := entry
    obtain ⟨hnew, hrest⟩ := List.nodup_cons.mp h
    rw [updateEntry]
    split
    · exact h
    · next hne =>
      refine List.nodup_cons.mpr ⟨fun hmem => ?_, ih hrest⟩
      obtain ⟨written, hwritten, heq⟩ := List.mem_map.mp hmem
      rcases mem_updateEntry hwritten with hkept | rfl
      · exact hnew (heq ▸ List.mem_map_of_mem hkept)
      · exact hne heq.symm

end Entries

variable {tree : PackTree} {place : Place} {names : List String} {file : PackFile}

theorem hasDistinctNames_empty : empty.HasDistinctNames :=
  .node .nil .nil fun _ hdirectory => absurd hdirectory List.not_mem_nil

/-- A change of one directory keeps names distinct if it does so in that directory. Induction on the
path; each directory on the way is one that was there or a new one. -/
theorem hasDistinctNames_modifyDirectory {f : PackTree → PackTree}
    (hf : ∀ tree : PackTree, tree.HasDistinctNames → (f tree).HasDistinctNames) (path : List String)
    (h : tree.HasDistinctNames) : (modifyDirectory f path tree).HasDistinctNames := by
  induction path generalizing tree with
  | nil => exact hf tree h
  | cons name path ih =>
    obtain ⟨hfiles, hdirectories, hinner⟩ := h
    rw [modifyDirectory]
    refine .node hfiles (nodup_updateEntry _ hdirectories) fun directory hmem => ?_
    rcases mem_updateEntry hmem with hkept | rfl
    · exact hinner directory hkept
    · -- The directory on the way is one that was there, or a new one.
      refine ih ?_
      cases hlookup : List.lookup name _ with
      | none => exact hasDistinctNames_empty
      | some known => exact hinner (name, known) (mem_of_lookup hlookup)

/-- Putting a file at a place keeps names distinct. This is the step of `hasDistinctNames_putAll`,
which carries the invariant through a whole run. -/
theorem hasDistinctNames_put (place : Place) (file : PackFile) (h : tree.HasDistinctNames) :
    (tree.put place file).HasDistinctNames := by
  refine hasDistinctNames_modifyDirectory (fun directory hdirectory => ?_) place.1 h
  obtain ⟨hfiles, hdirectories, hinner⟩ := hdirectory
  exact .node (nodup_updateEntry _ hfiles) hdirectories hinner

theorem hasDistinctNames_putAll (entries : List (Place × PackFile)) (h : tree.HasDistinctNames) :
    (putAll entries tree).HasDistinctNames := by
  induction entries generalizing tree with
  | nil => exact h
  | cons entry entries ih => exact ih (hasDistinctNames_put entry.1 entry.2 h)

/-! ## Listings and look-ups -/

theorem directory?_cons (tree : PackTree) (name : String) (rest : List String) :
    directory? (name :: rest) tree = (tree.directories.lookup name).bind (directory? rest) := rfl

/-- What is listed as a file can be looked up. Induction on the tree, where distinct names make the
entry that is found the one that is listed. -/
theorem exists_file?_of_mem_listing (h : tree.HasDistinctNames)
    (hmem : (names, some file) ∈ tree.listing) :
    ∃ place : Place, names = place.1 ++ [place.2] ∧ tree.file? place = some file := by
  induction h generalizing names with
  | @node files directories hfiles hdirectories _ ih =>
    rcases mem_listing_node.mp hmem with ⟨written, hwritten, heq⟩ | hbelow
    · cases heq
      exact ⟨([], written.1), rfl, lookup_of_mem hfiles hwritten⟩
    · obtain ⟨directory, hdirectory, heq | ⟨⟨inner, found⟩, hinner, heq⟩⟩ :=
        mem_listingAll.mp hbelow
      · cases heq
      · cases heq
        obtain ⟨place, hnames, hfile⟩ := ih directory hdirectory hinner
        refine ⟨(directory.1 :: place.1, place.2), ?_, ?_⟩
        · rw [hnames, List.cons_append]
        · rw [file?_cons]
          exact Option.bind_eq_some_iff.mpr ⟨_, lookup_of_mem hdirectories hdirectory, hfile⟩

/-- What is listed as a directory can be looked up, for the same reason. -/
theorem directory?_of_mem_listing (h : tree.HasDistinctNames)
    (hmem : (names, none) ∈ tree.listing) : names ≠ [] ∧ (directory? names tree).isSome := by
  induction h generalizing names with
  | @node files directories hfiles hdirectories _ ih =>
    rcases mem_listing_node.mp hmem with ⟨written, -, heq⟩ | hbelow
    · cases heq
    · obtain ⟨directory, hdirectory, heq | ⟨⟨inner, found⟩, hinner, heq⟩⟩ :=
        mem_listingAll.mp hbelow
      all_goals
        cases heq
        refine ⟨List.cons_ne_nil _ _, ?_⟩
        rw [directory?_cons, PackTree.directories, lookup_of_mem hdirectories hdirectory,
          Option.bind_some]
      · rfl
      · exact (ih directory hdirectory hinner).2

/-- A directory that can be looked up is listed. This direction needs no distinct names: what is
found is an entry. -/
theorem mem_listing_of_directory? (hne : names ≠ []) (h : (directory? names tree).isSome) :
    (names, none) ∈ tree.listing := by
  induction names generalizing tree with
  | nil => exact absurd rfl hne
  | cons name rest ih =>
    obtain ⟨files, directories⟩ := tree
    obtain ⟨last, hlast⟩ := Option.isSome_iff_exists.mp h
    rw [directory?_cons] at hlast
    obtain ⟨found, hfound, hlast⟩ := Option.bind_eq_some_iff.mp hlast
    refine mem_listing_node.mpr (.inr (mem_listingAll.mpr
      ⟨(name, found), mem_of_lookup hfound, ?_⟩))
    cases rest with
    | nil => exact .inl rfl
    | cons next rest =>
      have hinner : (next :: rest, none) ∈ found.listing :=
        ih (List.cons_ne_nil _ _) (Option.isSome_of_mem hlast)
      exact .inr ⟨_, hinner, rfl⟩

/-- The files of a tree with distinct names can be looked up, and what can be looked up is
listed. -/
theorem mem_listing_some_iff (h : tree.HasDistinctNames) :
    (names, some file) ∈ tree.listing
      ↔ ∃ place : Place, names = place.1 ++ [place.2] ∧ tree.file? place = some file := by
  refine ⟨exists_file?_of_mem_listing h, ?_⟩
  rintro ⟨place, rfl, hfile⟩
  exact mem_listing_of_file? hfile

/-- The directories of a tree with distinct names can be looked up. -/
theorem mem_listing_none_iff (h : tree.HasDistinctNames) :
    (names, none) ∈ tree.listing ↔ names ≠ [] ∧ (directory? names tree).isSome :=
  ⟨directory?_of_mem_listing h, fun hfound => mem_listing_of_directory? hfound.1 hfound.2⟩

/-! ## What is there after a run -/

theorem isSome_directory?_empty_iff : (directory? names empty).isSome ↔ names = [] := by
  cases names with
  | nil => exact iff_of_true rfl rfl
  | cons name rest => exact iff_of_false Bool.false_ne_true (List.cons_ne_nil _ _)

/-- A change at a path makes the directories on the way to it, if it makes none itself. Induction on
the path; a directory that is new has none in it. -/
theorem isSome_directory?_modifyDirectory {f : PackTree → PackTree}
    (hf : ∀ tree names, (directory? names (f tree)).isSome ↔ (directory? names tree).isSome)
    (path : List String) (tree : PackTree) (names : List String) :
    (directory? names (modifyDirectory f path tree)).isSome
      ↔ (directory? names tree).isSome ∨ names <+: path := by
  induction path generalizing tree names with
  | nil =>
    rw [modifyDirectory, hf, List.prefix_nil]
    refine ⟨.inl, ?_⟩
    rintro (hfound | rfl)
    · exact hfound
    · rfl
  | cons name path ih =>
    obtain ⟨files, directories⟩ := tree
    cases names with
    | nil => exact iff_of_true rfl (.inl rfl)
    | cons first rest =>
      rw [modifyDirectory, directory?_cons, directory?_cons, PackTree.directories,
        PackTree.directories, lookup_updateEntry]
      by_cases hfirst : first = name
      · subst hfirst
        rw [if_pos rfl, Option.bind_some, ih, List.prefix_cons_inj]
        cases hlookup : directories.lookup first with
        | some known => rfl
        | none =>
          -- A new directory has none in it.
          rw [Option.getD_none, isSome_directory?_empty_iff, Option.bind_none]
          constructor
          · rintro (rfl | hbegins)
            · exact .inr List.nil_prefix
            · exact .inr hbegins
          · rintro (hnone | hbegins)
            · cases hnone
            · exact .inr hbegins
      · have hnot : ¬first :: rest <+: name :: path := fun hbegins =>
          hfirst (List.cons_prefix_cons.mp hbegins).1
        rw [if_neg hfirst, or_iff_left hnot]

/-- Putting a file at a place makes the directories on the way to it, and no others. -/
theorem isSome_directory?_put (tree : PackTree) (place : Place) (file : PackFile)
    (names : List String) :
    (directory? names (tree.put place file)).isSome
      ↔ (directory? names tree).isSome ∨ names <+: place.1 := by
  refine isSome_directory?_modifyDirectory (fun directory names => ?_) place.1 tree names
  obtain ⟨files, directories⟩ := directory
  cases names with
  | nil => exact iff_of_true rfl rfl
  | cons name rest => rfl

/-- The directories after a run are those from before, and those on the way to a file. Directories
are never removed, so the order of the run does not matter. -/
theorem isSome_directory?_putAll (entries : List (Place × PackFile)) (tree : PackTree)
    (names : List String) :
    (directory? names (putAll entries tree)).isSome
      ↔ (directory? names tree).isSome ∨ ∃ entry ∈ entries, names <+: entry.1.1 := by
  induction entries generalizing tree with
  | nil => simp [putAll]
  | cons entry entries ih =>
    show (directory? names (putAll entries (tree.put entry.1 entry.2))).isSome ↔ _
    rw [ih, isSome_directory?_put, or_assoc, List.exists_mem_cons_iff]

/-- Whether an entry is the last one at its place. -/
def IsLast (entry : Place × PackFile) (entries : List (Place × PackFile)) : Prop :=
  ∃ before after, entries = before ++ entry :: after ∧ entry.1 ∉ after.map Prod.fst

theorem IsLast.mem {entry : Place × PackFile} {entries : List (Place × PackFile)}
    (h : IsLast entry entries) : entry ∈ entries := by
  obtain ⟨before, after, rfl, -⟩ := h
  exact List.mem_append_right before List.mem_cons_self

/-- The last entry at a place of a longer list: the first entry of that list, if no other one
follows at its place, or the last one of the rest. -/
theorem isLast_cons_iff {entry first : Place × PackFile} {rest : List (Place × PackFile)} :
    IsLast entry (first :: rest)
      ↔ (entry = first ∧ entry.1 ∉ rest.map Prod.fst) ∨ IsLast entry rest := by
  constructor
  · rintro ⟨before, after, heq, hnot⟩
    rcases List.cons_eq_append_iff.mp heq with ⟨rfl, hcons⟩ | ⟨before, rfl, rfl⟩
    · obtain ⟨rfl, rfl⟩ := List.cons.inj hcons
      exact .inl ⟨rfl, hnot⟩
    · exact .inr ⟨before, after, rfl, hnot⟩
  · rintro (⟨rfl, hnot⟩ | ⟨before, after, rfl, hnot⟩)
    · exact ⟨[], rest, rfl, hnot⟩
    · exact ⟨first :: before, after, rfl, hnot⟩

/-- The file at a place after a run is the last one that was put there. If none was, it is the one
from before. -/
theorem file?_putAll_eq_some_iff (entries : List (Place × PackFile)) (tree : PackTree) :
    (putAll entries tree).file? place = some file
      ↔ IsLast (place, file) entries
        ∨ (place ∉ entries.map Prod.fst ∧ tree.file? place = some file) := by
  induction entries generalizing tree with
  | nil =>
    have hnone : ¬IsLast (place, file) [] := fun hlast => absurd hlast.mem List.not_mem_nil
    simp [hnone, putAll]
  | cons entry entries ih =>
    have hstep := ih (tree.put entry.1 entry.2)
    have hput : (tree.put entry.1 entry.2).file? place = some file
        ↔ (place, file) = entry ∨ (place ≠ entry.1 ∧ tree.file? place = some file) := by
      rw [file?_put]
      by_cases hplace : place = entry.1
      · subst hplace
        simp [Prod.ext_iff, eq_comm]
      · simp [hplace, Prod.ext_iff]
    show (putAll entries (tree.put entry.1 entry.2)).file? place = some file ↔ _
    rw [hstep, hput, isLast_cons_iff, List.map_cons, List.mem_cons, not_or]
    grind

end PackTree

namespace Pack

open PackTree

variable {catalog : Catalog} {config : Config} {workspace : Workspace} {names : List String}

/-! ## The pack of a workspace -/

/-- All files that are put into the pack of a workspace, in order. -/
def placements (catalog : Catalog) (config : Config) (workspace : Workspace) :
    List (Place × PackFile) :=
  metadataPlacements config ++ copyPlacements workspace
    ++ propertyPlacements catalog config workspace

/-- The directories that are made in the pack of a workspace, each with those on the way to it: the
property directory, and the directories of all files. -/
def directoryPaths (catalog : Catalog) (config : Config) (workspace : Workspace) :
    List (List String) :=
  segments propertyDirectory
    :: (placements catalog config workspace).map fun placement => placement.1.1

/-- The pack of a workspace is made by putting files at places, so its names are distinct. -/
theorem hasDistinctNames_ofWorkspace (catalog : Catalog) (config : Config)
    (workspace : Workspace) : (ofWorkspace catalog config workspace).value.HasDistinctNames := by
  rw [value_ofWorkspace]
  refine hasDistinctNames_putAll _ ?_
  exact hasDistinctNames_modifyDirectory (fun _ htree => htree) _ hasDistinctNames_empty

/-- **The files of a pack** are the last ones that were put at their places. Nothing else is listed,
since a pack starts without files. -/
theorem file_mem_listing_iff {file : PackFile} :
    (names, some file) ∈ (ofWorkspace catalog config workspace).value.listing
      ↔ ∃ place : Place, names = place.1 ++ [place.2]
        ∧ IsLast (place, file) (placements catalog config workspace) := by
  have hstart : ∀ place, (empty.createDirectory propertyDirectory).file? place ≠ some file := by
    intro place hfile
    rcases mem_listing_createDirectory (mem_listing_of_file? hfile) with hlisted | ⟨hnone, -⟩
    · rw [listing_empty] at hlisted
      cases hlisted
    · cases hnone
  rw [mem_listing_some_iff (hasDistinctNames_ofWorkspace catalog config workspace)]
  refine exists_congr fun place => and_congr_right fun _ => ?_
  rw [value_ofWorkspace, file?_putAll_eq_some_iff]
  exact or_iff_left fun hkept => hstart place hkept.2

/-- **The directories of a pack** are those on the way to the property directory or to a file. The
property directory is there even if no property file is written. -/
theorem directory_mem_listing_iff :
    (names, none) ∈ (ofWorkspace catalog config workspace).value.listing
      ↔ names ≠ [] ∧ ∃ path ∈ directoryPaths catalog config workspace, names <+: path := by
  rw [mem_listing_none_iff (hasDistinctNames_ofWorkspace catalog config workspace)]
  refine and_congr_right fun hne => ?_
  have hstart : (directory? names (empty.createDirectory propertyDirectory)).isSome
      ↔ names <+: segments propertyDirectory := by
    rw [createDirectory, isSome_directory?_modifyDirectory (f := id) (fun _ _ => Iff.rfl),
      isSome_directory?_empty_iff]
    exact or_iff_right hne
  have hplaced : (∃ path ∈ (placements catalog config workspace).map fun placement => placement.1.1,
        names <+: path)
      ↔ ∃ placement ∈ placements catalog config workspace, names <+: placement.1.1 := by
    simp only [List.mem_map, exists_exists_and_eq_and]
  rw [value_ofWorkspace, isSome_directory?_putAll, hstart, directoryPaths,
    List.exists_mem_cons_iff, hplaced]
  rfl

end Pack

end Reskin
