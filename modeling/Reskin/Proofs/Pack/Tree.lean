import Mathlib.Data.List.Perm.Subperm
import Reskin.PackTree
import Reskin.Proofs.Text.Split

/-!
# Laws of pack trees

A file of a tree has a `Place`: the names of the directories that lead to it, and its own name. All
changes and look-ups are changes and look-ups at places, whatever the path was that named them.

* **`file?_modify`** — after a change at a place, that place has the changed file, and every other
  place what it had.
* **`fileCount_modify`** — a change adds a file just if there was none at its place.
* **`length_le_fileCount`** — a tree has no more occupied places than files.
* **`get?_of_segments`**, **`segments_eq`** — reading and writing at a path mean the same place,
  unless the path ends in `/`.
* **`Fresh`**, **`file?_putAll`**, **`fileCount_putAll`** — files that are put at different places
  which were all empty stay, and change no other file.
* **`get?_insertAt`**, **`insertAt_isUpdate`** — a tree is a map from paths to files, in which two
  paths are the same key if their segments are the same.
-/

namespace Reskin.PackTree

/-! ## Entries -/

section Entries

variable {α : Type}

theorem lookup_cons (name known : String) (value : α) (rest : List (String × α)) :
    ((known, value) :: rest).lookup name
      = if name = known then some value else rest.lookup name := by
  rw [List.lookup_cons]
  by_cases h : name = known
  · rw [beq_iff_eq.mpr h, if_pos h]
  · rw [beq_false_of_ne h, if_neg h]

/-- An update is seen under its own name, and nothing else changes. -/
theorem lookup_updateEntry (name other : String) (f : Option α → α)
    (entries : List (String × α)) :
    (updateEntry name f entries).lookup other
      = if other = name then some (f (entries.lookup name)) else entries.lookup other := by
  induction entries with
  | nil =>
    rw [updateEntry, lookup_cons]
    rfl
  | cons entry rest ih =>
    obtain ⟨known, value⟩ := entry
    rw [updateEntry, lookup_cons name, lookup_cons other]
    by_cases hknown : known = name
    · rw [if_pos hknown, if_pos hknown.symm, lookup_cons, hknown]
      split <;> rfl
    · rw [if_neg hknown, if_neg (Ne.symm hknown), lookup_cons, ih]
      by_cases hother : other = known
      · rw [if_pos hother, if_neg (hother ▸ hknown), if_pos hother]
      · rw [if_neg hother, if_neg hother]

/-- An update adds an entry just if there was none with its name. -/
theorem length_updateEntry (name : String) (f : Option α → α) (entries : List (String × α)) :
    (updateEntry name f entries).length
      = entries.length + if (entries.lookup name).isSome then 0 else 1 := by
  induction entries with
  | nil => rfl
  | cons entry rest ih =>
    obtain ⟨known, value⟩ := entry
    rw [updateEntry, lookup_cons]
    by_cases hknown : known = name
    · rw [if_pos hknown, if_pos hknown.symm]
      rfl
    · rw [if_neg hknown, if_neg (Ne.symm hknown), List.length_cons, ih, List.length_cons]
      omega

/-- Two updates of one name are one. -/
theorem updateEntry_updateEntry (name : String) (f g : Option α → α)
    (entries : List (String × α)) :
    updateEntry name g (updateEntry name f entries)
      = updateEntry name (fun known => g (some (f known))) entries := by
  induction entries with
  | nil => simp [updateEntry]
  | cons entry rest ih =>
    obtain ⟨known, value⟩ := entry
    by_cases hknown : known = name
    · simp [updateEntry, hknown]
    · simp [updateEntry, hknown, ih]

end Entries

/-! ## Places -/

/-- Where a file lies: the names of the directories that lead to it, and its own name. -/
abbrev Place := List String × String

/-- The file at a place. -/
def file? (tree : PackTree) (place : Place) : Option PackFile :=
  (directory? place.1 tree).bind fun found => found.files.lookup place.2

def modify (tree : PackTree) (place : Place) (f : PackFile → PackFile) : PackTree :=
  modifyDirectory (modifyFile place.2 f) place.1 tree

theorem modifyAt_eq (tree : PackTree) (path : String) (f : PackFile → PackFile) :
    tree.modifyAt path f = tree.modify (splitPath path) f := rfl

theorem file?_nil (tree : PackTree) (name : String) :
    tree.file? ([], name) = tree.files.lookup name := rfl

theorem file?_cons (tree : PackTree) (directory : String) (rest : List String) (name : String) :
    tree.file? (directory :: rest, name)
      = (tree.directories.lookup directory).bind fun found => found.file? (rest, name) :=
  Option.bind_assoc _ _ _

theorem file?_empty (place : Place) : empty.file? place = none := by
  obtain ⟨directories, name⟩ := place
  cases directories <;> rfl

/-- A directory that is created when it is needed has no files. -/
theorem file?_getD_empty (known : Option PackTree) (place : Place) :
    (known.getD empty).file? place = known.bind fun found => found.file? place := by
  cases known with
  | none => exact file?_empty place
  | some found => rfl

/-- A change at a place changes the file there, and no other. Induction on the directories;
directories that are missing on the way are created without files. -/
theorem file?_modify (tree : PackTree) (place other : Place) (f : PackFile → PackFile) :
    (tree.modify place f).file? other
      = if other = place then some (f ((tree.file? place).getD default)) else tree.file? other := by
  obtain ⟨directories, name⟩ := place
  obtain ⟨others, otherName⟩ := other
  -- The two places share the walk down from the root until their directories differ.
  induction directories generalizing tree others with
  | nil =>
    obtain ⟨files, subdirectories⟩ := tree
    cases others with
    | nil =>
      have hplace : ((([], otherName) : Place) = ([], name)) ↔ otherName = name := by simp
      rw [if_congr hplace rfl rfl]
      exact lookup_updateEntry name otherName (fun known => f (known.getD default)) files
    | cons other others =>
      rw [if_neg (by simp)]
      rfl
  | cons directory directories ih =>
    obtain ⟨files, subdirectories⟩ := tree
    cases others with
    | nil =>
      rw [if_neg (by simp)]
      rfl
    | cons other others =>
      have hlookup := lookup_updateEntry directory other
        (fun known => (known.getD empty).modify (directories, name) f) subdirectories
      have hstep : ((node files subdirectories).modify (directory :: directories, name) f).file?
            (other :: others, otherName)
          = (((updateEntry directory (fun known => (known.getD empty).modify (directories, name) f)
              subdirectories).lookup other).bind fun found => found.file? (others, otherName)) :=
        file?_cons _ _ _ _
      rw [hstep, hlookup, file?_cons, file?_cons]
      by_cases hother : other = directory
      · subst hother
        rw [if_pos rfl, Option.bind_some, ih, file?_getD_empty, file?_getD_empty]
        simp [PackTree.directories]
      · rw [if_neg hother, if_neg (by simp [hother])]
        rfl

/-! ## Counting files -/

theorem fileCount_node (files : List (String × PackFile)) (directories : List (String × PackTree)) :
    (node files directories).fileCount = files.length + fileCountAll directories := by
  rw [fileCount]

theorem fileCountAll_nil : fileCountAll [] = 0 := by
  rw [fileCountAll]

theorem fileCountAll_cons (name : String) (tree : PackTree) (rest : List (String × PackTree)) :
    fileCountAll ((name, tree) :: rest) = tree.fileCount + fileCountAll rest := by
  rw [fileCountAll]

theorem fileCount_empty : empty.fileCount = 0 := by
  rw [empty, fileCount_node, fileCountAll_nil]
  rfl

/-- A changed directory counts for what it was. The equation is without subtraction, so that it can
be used by `omega`. -/
theorem fileCountAll_updateEntry (name : String) (f : Option PackTree → PackTree)
    (directories : List (String × PackTree)) :
    fileCountAll (updateEntry name f directories)
        + ((directories.lookup name).getD empty).fileCount
      = fileCountAll directories + (f (directories.lookup name)).fileCount := by
  induction directories with
  | nil =>
    have hempty : ((([] : List (String × PackTree)).lookup name).getD empty).fileCount = 0 :=
      fileCount_empty
    rw [hempty, updateEntry, fileCountAll_cons, fileCountAll_nil, List.lookup_nil]
    omega
  | cons entry rest ih =>
    obtain ⟨known, tree⟩ := entry
    rw [updateEntry, lookup_cons]
    by_cases hknown : known = name
    · rw [if_pos hknown, if_pos hknown.symm, fileCountAll_cons, fileCountAll_cons,
        Option.getD_some]
      omega
    · rw [if_neg hknown, if_neg (Ne.symm hknown), fileCountAll_cons, fileCountAll_cons]
      omega

/-- A change adds a file just if there was none at its place. Induction on the directories, with
`fileCountAll_updateEntry` at each of them. -/
theorem fileCount_modify (tree : PackTree) (place : Place) (f : PackFile → PackFile) :
    (tree.modify place f).fileCount
      = tree.fileCount + if (tree.file? place).isSome then 0 else 1 := by
  obtain ⟨directories, name⟩ := place
  induction directories generalizing tree with
  | nil =>
    obtain ⟨files, subdirectories⟩ := tree
    have hlength := length_updateEntry name (fun known => f (known.getD default)) files
    show (node (updateEntry name (fun known => f (known.getD default)) files)
      subdirectories).fileCount = _
    rw [fileCount_node, hlength, fileCount_node, file?_nil, PackTree.files]
    omega
  | cons directory directories ih =>
    obtain ⟨files, subdirectories⟩ := tree
    -- The directory on the way is counted as changed, or as new and empty before.
    have hcount := fileCountAll_updateEntry directory
      (fun known => (known.getD empty).modify (directories, name) f) subdirectories
    have hih := ih ((subdirectories.lookup directory).getD empty)
    rw [file?_getD_empty] at hih
    show (node files (updateEntry directory
      (fun known => (known.getD empty).modify (directories, name) f) subdirectories)).fileCount = _
    rw [fileCount_node, fileCount_node, file?_cons, PackTree.directories]
    omega

mutual

/-- The places of the files of a tree. -/
def places : PackTree → List Place
  | node files directories => files.map (fun entry => ([], entry.1)) ++ placesAll directories

/-- The places of the files of a list of directories. -/
def placesAll : List (String × PackTree) → List Place
  | [] => []
  | (name, tree) :: rest =>
    (places tree).map (fun place => (name :: place.1, place.2)) ++ placesAll rest

end

mutual

theorem length_places : ∀ tree : PackTree, tree.places.length = tree.fileCount
  | node files directories => by
    rw [places, fileCount_node, List.length_append, List.length_map, length_placesAll]

theorem length_placesAll : ∀ directories : List (String × PackTree),
    (placesAll directories).length = fileCountAll directories
  | [] => rfl
  | (name, tree) :: rest => by
    rw [placesAll, fileCountAll_cons, List.length_append, List.length_map, length_places,
      length_placesAll]

end

theorem mem_placesAll {directory : String} {found : PackTree} {place : Place}
    {directories : List (String × PackTree)} (hfound : directories.lookup directory = some found)
    (hplace : place ∈ found.places) : (directory :: place.1, place.2) ∈ placesAll directories := by
  induction directories with
  | nil => cases hfound
  | cons entry rest ih =>
    obtain ⟨known, tree⟩ := entry
    rw [lookup_cons] at hfound
    rw [placesAll, List.mem_append]
    split at hfound
    · next hknown =>
      cases hfound
      exact .inl (List.mem_map.mpr ⟨place, hplace, by rw [hknown]⟩)
    · exact .inr (ih hfound)

/-- Where a file is found, there is one. Together with the count of places this bounds what can be
occupied. -/
theorem mem_places_of_isSome {tree : PackTree} {place : Place} (h : (tree.file? place).isSome) :
    place ∈ tree.places := by
  obtain ⟨directories, name⟩ := place
  induction directories generalizing tree with
  | nil =>
    obtain ⟨files, subdirectories⟩ := tree
    obtain ⟨file, hfile⟩ := Option.isSome_iff_exists.mp h
    obtain ⟨before, after, hfiles, -⟩ := List.lookup_eq_some_iff.mp hfile
    have hmem : (name, file) ∈ files := by
      show (name, file) ∈ (node files subdirectories).files
      rw [hfiles]
      exact List.mem_append_right before List.mem_cons_self
    rw [places]
    exact List.mem_append_left _ (List.mem_map_of_mem (f := fun entry => ([], entry.1)) hmem)
  | cons directory directories ih =>
    obtain ⟨files, subdirectories⟩ := tree
    rw [file?_cons] at h
    obtain ⟨file, hfile⟩ := Option.isSome_iff_exists.mp h
    obtain ⟨found, hfound, hfile⟩ := Option.bind_eq_some_iff.mp hfile
    rw [places]
    exact List.mem_append_right _ (mem_placesAll hfound (ih (hfile ▸ rfl)))

/-- A tree has no more occupied places than files. So the search for a free name ends. -/
theorem length_le_fileCount {tree : PackTree} {occupied : List Place} (hdistinct : occupied.Nodup)
    (h : ∀ place ∈ occupied, (tree.file? place).isSome) : occupied.length ≤ tree.fileCount := by
  -- Distinct places that are all in the list of places cannot be more than that list has.
  have hsubset : occupied ⊆ tree.places := fun place hplace => mem_places_of_isSome (h place hplace)
  rw [← length_places]
  exact (List.Nodup.subperm hdistinct hsubset).length_le

/-! ## Paths

A path either has no `/`, or it is a directory, a `/` and a name. -/

section Paths

variable {path rest : String}

/-- A path has no separator, or it can be cut at its last one. Proofs about paths go by these two
cases. -/
theorem slash_cases (path : String) :
    '/' ∉ path.toList ∨ ∃ parent name, path = parent ++ "/" ++ name ∧ '/' ∉ name.toList := by
  cases hsplit : Text.splitLast '/' path.toList with
  | none => exact .inl (Text.splitLast_eq_none_iff.mp hsplit)
  | some parts =>
    obtain ⟨parent, name⟩ := parts
    obtain ⟨hpath, hname⟩ := Text.eq_of_splitLast_eq_some hsplit
    refine .inr ⟨String.ofList parent, String.ofList name, ?_, ?_⟩
    · rw [← String.toList_inj, hpath]
      simp
    · rwa [String.toList_ofList]

theorem segments_append (a b : String) : segments (a ++ "/" ++ b) = segments a ++ segments b := by
  have htoList : (a ++ "/" ++ b).toList = a.toList ++ '/' :: b.toList := by simp
  rw [segments, htoList, Text.splitAll_append, List.filter_append, List.map_append]
  rfl

theorem segments_of_not_mem (h : '/' ∉ path.toList) (hne : path ≠ "") : segments path = [path] := by
  have hnonempty : path.toList.isEmpty = false := by simpa using hne
  rw [segments, Text.splitAll_of_not_mem h]
  simp [hnonempty]

theorem splitPath_of_not_mem (h : '/' ∉ path.toList) : splitPath path = ([], path) := by
  rw [splitPath, Text.splitLast_eq_none_iff.mpr h]

theorem splitPath_append (parent : String) {name : String} (h : '/' ∉ name.toList) :
    splitPath (parent ++ "/" ++ name) = (segments parent, name) := by
  have htoList : (parent ++ "/" ++ name).toList = parent.toList ++ '/' :: name.toList := by simp
  rw [splitPath, htoList, Text.splitLast_append _ h]
  simp

/-- What follows a path without a `/` belongs to the name, as a counter and an extension do. -/
theorem splitPath_append_of_not_mem (path : String) (h : '/' ∉ rest.toList) :
    splitPath (path ++ rest) = ((splitPath path).1, (splitPath path).2 ++ rest) := by
  rcases slash_cases path with hpath | ⟨parent, name, rfl, hname⟩
  · have hboth : '/' ∉ (path ++ rest).toList := by simp [hpath, h]
    rw [splitPath_of_not_mem hboth, splitPath_of_not_mem hpath]
  · have hboth : '/' ∉ (name ++ rest).toList := by simp [hname, h]
    have hassoc : parent ++ "/" ++ name ++ rest = parent ++ "/" ++ (name ++ rest) :=
      String.append_assoc
    rw [splitPath_append parent hname, hassoc, splitPath_append parent hboth]

/-- A path that does not end in `/` is read where it is written. For other paths the two differ:
writing takes an empty name, reading drops it. -/
theorem segments_eq (h : (splitPath path).2 ≠ "") :
    segments path = (splitPath path).1 ++ [(splitPath path).2] := by
  rcases slash_cases path with hpath | ⟨parent, name, rfl, hname⟩
  · rw [splitPath_of_not_mem hpath] at h ⊢
    exact segments_of_not_mem hpath h
  · rw [splitPath_append parent hname] at h ⊢
    rw [segments_append, segments_of_not_mem hname h]

/-- A path that is not empty and does not end in `/` ends in a name. -/
theorem splitPath_snd_ne_empty (hne : path ≠ "") (hend : path.toList.getLast? ≠ some '/') :
    (splitPath path).2 ≠ "" := by
  rcases slash_cases path with hpath | ⟨parent, name, rfl, hname⟩
  · rw [splitPath_of_not_mem hpath]
    exact hne
  · rw [splitPath_append parent hname]
    rintro rfl
    apply hend
    simp

theorem get?_of_segments_eq_nil (tree : PackTree) (h : segments path = []) :
    tree.get? path = none := by
  rw [get?, h]
  rfl

/-- A path reads the file at the place that its segments lead to. -/
theorem get?_of_segments (tree : PackTree) {place : Place}
    (h : segments path = place.1 ++ [place.2]) : tree.get? path = tree.file? place := by
  rw [get?, h, List.reverse_append]
  simp only [List.reverse_cons, List.reverse_nil, List.nil_append, List.singleton_append,
    List.reverse_reverse]
  rfl

/-- A path means the same place in every tree, or never a file. So what is known about places is
known about paths. -/
theorem exists_place (path : String) :
    (∀ tree : PackTree, tree.get? path = none)
      ∨ ∃ place : Place, ∀ tree : PackTree, tree.get? path = tree.file? place := by
  rcases List.eq_nil_or_concat (segments path) with hnil | ⟨parent, name, hsegments⟩
  · exact .inl fun tree => get?_of_segments_eq_nil tree hnil
  · rw [List.concat_eq_append] at hsegments
    exact .inr ⟨(parent, name), fun tree => get?_of_segments tree hsegments⟩

end Paths

/-! ## Changes below a directory -/

/-- A change below a directory is a change at the longer path. -/
theorem modifyDirectory_append (f : PackTree → PackTree) (a b : List String) (tree : PackTree) :
    modifyDirectory (modifyDirectory f b) a tree = modifyDirectory f (a ++ b) tree := by
  induction a generalizing tree with
  | nil => rfl
  | cons name a ih =>
    obtain ⟨files, directories⟩ := tree
    rw [List.cons_append, modifyDirectory, modifyDirectory]
    simp only [ih]

/-- Two changes of one directory are one, which does both. -/
theorem modifyDirectory_comp (f g : PackTree → PackTree) (path : List String) (tree : PackTree) :
    modifyDirectory (fun directory => g (f directory)) path tree
      = modifyDirectory g path (modifyDirectory f path tree) := by
  induction path generalizing tree with
  | nil => rfl
  | cons name path ih =>
    obtain ⟨files, directories⟩ := tree
    rw [modifyDirectory, modifyDirectory, modifyDirectory, updateEntry_updateEntry]
    simp only [ih, Option.getD_some]

/-! ## New files -/

def put (tree : PackTree) (place : Place) (file : PackFile) : PackTree :=
  tree.modify place fun _ => file

theorem file?_put (tree : PackTree) (place other : Place) (file : PackFile) :
    (tree.put place file).file? other = if other = place then some file else tree.file? other :=
  file?_modify tree place other fun _ => file

theorem fileCount_put {tree : PackTree} {place : Place} (h : tree.file? place = none)
    (file : PackFile) : (tree.put place file).fileCount = tree.fileCount + 1 := by
  rw [put, fileCount_modify, h]
  rfl

/-- A file that is put somewhere below a directory, as a file that is put at a place of the whole
tree. -/
theorem modifyDirectory_insertAt (tree : PackTree) (parent : List String) (path : String)
    (file : PackFile) :
    modifyDirectory (fun directory => directory.insertAt path file) parent tree
      = tree.put (parent ++ (splitPath path).1, (splitPath path).2) file := by
  simp only [insertAt, modifyAt_eq, modify]
  exact modifyDirectory_append _ parent (splitPath path).1 tree

/-- Puts files at places, one after the other. -/
def putAll (entries : List (Place × PackFile)) (tree : PackTree) : PackTree :=
  entries.foldl (fun tree entry => tree.put entry.1 entry.2) tree

theorem putAll_append (a b : List (Place × PackFile)) (tree : PackTree) :
    putAll (a ++ b) tree = putAll b (putAll a tree) :=
  List.foldl_append

/-- Whether entries go to different places at which a tree has no files. -/
structure Fresh (tree : PackTree) (entries : List (Place × PackFile)) : Prop where
  distinct : (entries.map Prod.fst).Nodup
  absent : ∀ entry ∈ entries, tree.file? entry.1 = none

section Fresh

variable {tree : PackTree} {entries : List (Place × PackFile)} {place : Place} {file : PackFile}

/-- Entries at other places leave a place as it was. -/
theorem file?_putAll_of_not_mem (h : place ∉ entries.map Prod.fst) :
    (putAll entries tree).file? place = tree.file? place := by
  induction entries generalizing tree with
  | nil => rfl
  | cons entry entries ih =>
    obtain ⟨hentry, hentries⟩ := not_or.mp (mt List.mem_cons.mpr h)
    show (putAll entries (tree.put entry.1 entry.2)).file? place = _
    rw [ih hentries, file?_put, if_neg hentry]

theorem fresh_nil (tree : PackTree) : Fresh tree [] :=
  ⟨.nil, fun _ hentry => absurd hentry List.not_mem_nil⟩

/-- An entry at a free place, followed by entries that are fresh once it is there, are fresh
together. -/
theorem fresh_cons {entry : Place × PackFile} (hentry : tree.file? entry.1 = none)
    (h : Fresh (tree.put entry.1 entry.2) entries) : Fresh tree (entry :: entries) := by
  -- What is absent behind the first entry is elsewhere, and was absent in front of it.
  have hput : ∀ other ∈ entries, other.1 ≠ entry.1 ∧ tree.file? other.1 = none := by
    intro other hother
    have habsent := h.absent other hother
    rw [file?_put] at habsent
    split at habsent
    · cases habsent
    · next hne => exact ⟨hne, habsent⟩
  refine ⟨List.nodup_cons.mpr ⟨?_, h.distinct⟩,
    List.forall_mem_cons.mpr ⟨hentry, fun other hother => (hput other hother).2⟩⟩
  intro hmem
  obtain ⟨other, hother, heq⟩ := List.mem_map.mp hmem
  exact (hput other hother).1 heq

theorem Fresh.tail {entry : Place × PackFile} (h : Fresh tree (entry :: entries)) :
    Fresh (tree.put entry.1 entry.2) entries := by
  obtain ⟨hnew, hdistinct⟩ := List.nodup_cons.mp h.distinct
  refine ⟨hdistinct, fun other hother => ?_⟩
  have hne : other.1 ≠ entry.1 := fun heq => hnew (heq ▸ List.mem_map_of_mem hother)
  rw [file?_put, if_neg hne]
  exact h.absent other (List.mem_cons_of_mem entry hother)

/-- Two runs, of which the second is fresh after the first, are fresh together. The converse for one
entry is `Fresh.tail`. -/
theorem fresh_append {more : List (Place × PackFile)} (h : Fresh tree entries)
    (hmore : Fresh (putAll entries tree) more) : Fresh tree (entries ++ more) := by
  induction entries generalizing tree with
  | nil => exact hmore
  | cons entry entries ih =>
    exact fresh_cons (h.absent entry List.mem_cons_self) (ih h.tail hmore)

/-- Fresh entries are where they were put, because no later one replaces them. -/
theorem Fresh.file?_putAll_of_mem (h : Fresh tree entries) (hmem : (place, file) ∈ entries) :
    (putAll entries tree).file? place = some file := by
  induction entries generalizing tree with
  | nil => cases hmem
  | cons entry entries ih =>
    rcases List.mem_cons.mp hmem with rfl | hmem
    · have hnew : place ∉ entries.map Prod.fst := (List.nodup_cons.mp h.distinct).1
      show (putAll entries (tree.put place file)).file? place = _
      rw [file?_putAll_of_not_mem hnew, file?_put, if_pos rfl]
    · exact ih h.tail hmem

/-- Fresh entries replace nothing that was there before. -/
theorem Fresh.file?_putAll_of_eq_some (h : Fresh tree entries)
    (hfile : tree.file? place = some file) : (putAll entries tree).file? place = some file := by
  have hnot : place ∉ entries.map Prod.fst := by
    intro hmem
    obtain ⟨entry, hentry, rfl⟩ := List.mem_map.mp hmem
    rw [h.absent entry hentry] at hfile
    cases hfile
  rw [file?_putAll_of_not_mem hnot, hfile]

/-- Fresh entries count one file each. -/
theorem Fresh.fileCount_putAll (h : Fresh tree entries) :
    (putAll entries tree).fileCount = tree.fileCount + entries.length := by
  induction entries generalizing tree with
  | nil => rfl
  | cons entry entries ih =>
    have hentry : tree.file? entry.1 = none := h.absent entry List.mem_cons_self
    show (putAll entries (tree.put entry.1 entry.2)).fileCount = _
    rw [ih h.tail, fileCount_put hentry, List.length_cons]
    omega

end Fresh

/-! ## Trees as maps

A file is written to a directory under a name, and read by the segments of its path. If the path
does not end in `/`, both mean one place, so a tree is a map whose keys are lists of segments. -/

/-- Reading after writing, for any two paths. They mean the same place just if they have the same
segments. -/
theorem get?_insertAt (tree : PackTree) {path : String} (file : PackFile)
    (hname : (splitPath path).2 ≠ "") (other : String) :
    (tree.insertAt path file).get? other
      = if segments other = segments path then some file else tree.get? other := by
  have hsegments : segments path = (splitPath path).1 ++ [(splitPath path).2] := segments_eq hname
  rcases List.eq_nil_or_concat (segments other) with hnil | ⟨parent, name, hother⟩
  · -- Nothing is ever read at a path without segments, and the written path has some.
    have hne : segments other ≠ segments path := by
      rw [hnil, hsegments]
      simp
    rw [get?_of_segments_eq_nil _ hnil, get?_of_segments_eq_nil _ hnil, if_neg hne]
  · rw [List.concat_eq_append] at hother
    have hread : ∀ tree : PackTree, tree.get? other = tree.file? (parent, name) :=
      fun tree => get?_of_segments tree hother
    have hplace : segments other = segments path ↔ ((parent, name) : Place) = splitPath path := by
      rw [hother, hsegments, List.append_singleton_inj, Prod.ext_iff]
    rw [if_congr hplace rfl rfl, hread, hread]
    exact file?_put tree (splitPath path) (parent, name) file

theorem fileCount_insertAt (tree : PackTree) {path : String} (file : PackFile)
    (hname : (splitPath path).2 ≠ "") :
    (tree.insertAt path file).fileCount
      = tree.fileCount + if (tree.get? path).isSome then 0 else 1 := by
  rw [insertAt, modifyAt_eq, fileCount_modify, get?_of_segments tree (segments_eq hname)]

/-- **A pack tree is a map from paths to files.** A file can be put at every path that is not empty
and does not end in `/`. Then every path with the same segments reads that file, every other path
reads what it read before, and there is one more file just if the path had none. -/
theorem insertAt_isUpdate (tree : PackTree) (path : String) (file : PackFile) (hne : path ≠ "")
    (hend : path.toList.getLast? ≠ some '/') :
    (tree.insertAt path file).get? path = some file
      ∧ (∀ other, segments other ≠ segments path →
          (tree.insertAt path file).get? other = tree.get? other)
      ∧ (∀ other, segments other = segments path →
          (tree.insertAt path file).get? other = some file)
      ∧ (tree.get? path = none → (tree.insertAt path file).fileCount = tree.fileCount + 1)
      ∧ (tree.get? path ≠ none → (tree.insertAt path file).fileCount = tree.fileCount) := by
  have hname : (splitPath path).2 ≠ "" := splitPath_snd_ne_empty hne hend
  have hget := get?_insertAt tree file hname
  have hcount := fileCount_insertAt tree file hname
  refine ⟨?_, ?_, ?_, ?_, ?_⟩
  · rw [hget, if_pos rfl]
  · intro other hother
    rw [hget, if_neg hother]
  · intro other hother
    rw [hget, if_pos hother]
  · intro habsent
    rw [hcount, habsent]
    rfl
  · intro hpresent
    rw [hcount, if_pos (Option.isSome_iff_ne_none.mpr hpresent), Nat.add_zero]

/-- A tree with a file `a/b`, and beside it a directory `a/b` that has a file `c`. -/
def branching : PackTree :=
  (empty.insertAt "a/b" (.text "old")).insertAt "a/b/c" (.text "below")

theorem insertAt_isUpdate_branching :
    ("/a//b" ≠ "" ∧ "/a//b".toList.getLast? ≠ some '/')
      ∧ (branching.insertAt "/a//b" (.text "new")).get? "a/b/" = some (.text "new")
      ∧ (branching.insertAt "/a//b" (.text "new")).get? "a/b/c" = some (.text "below")
      ∧ (branching.insertAt "/a//b" (.text "new")).fileCount = 2 := by
  have hpath : "/a//b" ≠ "" ∧ "/a//b".toList.getLast? ≠ some '/' := by decide
  obtain ⟨-, hother, hsame, -, hcount⟩ :=
    insertAt_isUpdate branching "/a//b" (.text "new") hpath.1 hpath.2
  refine ⟨hpath, hsame "a/b/" (by decide), ?_, ?_⟩
  · rw [hother "a/b/c" (by decide)]
    decide +kernel
  · rw [hcount (by decide +kernel)]
    decide +kernel

end Reskin.PackTree
