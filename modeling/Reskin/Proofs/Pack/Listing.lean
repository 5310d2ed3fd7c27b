import Reskin.Proofs.Pack.Tree

/-!
# Everything in a pack tree

The listing of a tree has all its files and directories at every level, each with the names that
lead there. A change at a place adds that place and the directories on the way, and nothing else.

* **`listing`** — the files and directories of a tree.
* **`mem_listing_of_file?`** — what can be looked up is listed.
* **`mem_listing_modifyDirectory`** — what a change below a directory can add, and from it
  **`mem_listing_put`**, for a file that is put at a place.
* **`mem_listing_putAll`** — the same for a run of files.
-/

namespace Reskin.PackTree

/-! ## Listings -/

mutual

/-- Everything in a tree with the names that lead there. A directory comes without contents. -/
def listing : PackTree → List (List String × Option PackFile)
  | node files directories =>
    files.map (fun entry => ([entry.1], some entry.2)) ++ listingAll directories

/-- The given directories and everything in them. -/
def listingAll : List (String × PackTree) → List (List String × Option PackFile)
  | [] => []
  | (name, tree) :: rest =>
    ([name], none) :: (listing tree).map (fun entry => (name :: entry.1, entry.2))
      ++ listingAll rest

end

variable {tree : PackTree} {place : Place} {entry : List String × Option PackFile}

/-- What is in some directories: each of them, and what is in them with their name in front. -/
theorem mem_listingAll {directories : List (String × PackTree)} :
    entry ∈ listingAll directories
      ↔ ∃ directory ∈ directories, entry = ([directory.1], none)
        ∨ ∃ inner ∈ directory.2.listing, entry = (directory.1 :: inner.1, inner.2) := by
  induction directories with
  | nil => simp [listingAll]
  | cons directory rest ih =>
    obtain ⟨name, tree⟩ := directory
    rw [listingAll, List.cons_append, List.mem_cons, List.mem_append, List.mem_map, ih,
      List.exists_mem_cons_iff, or_assoc]
    simp only [eq_comm]

theorem mem_listing_node {files : List (String × PackFile)}
    {directories : List (String × PackTree)} :
    entry ∈ (node files directories).listing
      ↔ (∃ file ∈ files, entry = ([file.1], some file.2)) ∨ entry ∈ listingAll directories := by
  rw [listing, List.mem_append, List.mem_map]
  simp only [eq_comm]

theorem listing_empty : empty.listing = [] := by
  rw [empty, listing, listingAll]
  rfl

theorem mem_of_lookup {α : Type} {name : String} {value : α} {entries : List (String × α)}
    (h : entries.lookup name = some value) : (name, value) ∈ entries := by
  obtain ⟨before, after, hentries, -⟩ := List.lookup_eq_some_iff.mp h
  rw [hentries]
  exact List.mem_append_right before List.mem_cons_self

/-- A file that can be looked up is listed, with the names of its place. -/
theorem mem_listing_of_file? {file : PackFile} (h : tree.file? place = some file) :
    (place.1 ++ [place.2], some file) ∈ tree.listing := by
  obtain ⟨directories, name⟩ := place
  induction directories generalizing tree with
  | nil =>
    obtain ⟨files, subdirectories⟩ := tree
    exact mem_listing_node.mpr (.inl ⟨(name, file), mem_of_lookup h, rfl⟩)
  | cons directory directories ih =>
    obtain ⟨files, subdirectories⟩ := tree
    rw [file?_cons] at h
    obtain ⟨found, hfound, hfile⟩ := Option.bind_eq_some_iff.mp h
    refine mem_listing_node.mpr (.inr (mem_listingAll.mpr ?_))
    exact ⟨(directory, found), mem_of_lookup hfound, .inr ⟨_, ih hfile, rfl⟩⟩

/-! ## Changes -/

/-- After an update, an entry is one from before or the one that was updated. -/
theorem mem_updateEntry {α : Type} {name : String} {f : Option α → α}
    {entries : List (String × α)} {entry : String × α} (h : entry ∈ updateEntry name f entries) :
    entry ∈ entries ∨ entry = (name, f (entries.lookup name)) := by
  induction entries with
  | nil => exact .inr (List.mem_singleton.mp h)
  | cons first rest ih =>
    obtain ⟨known, value⟩ := first
    rw [updateEntry] at h
    rw [lookup_cons]
    split at h
    · next hknown =>
      rw [if_pos hknown.symm]
      rcases List.mem_cons.mp h with rfl | hrest
      · exact .inr (by rw [hknown])
      · exact .inl (List.mem_cons_of_mem _ hrest)
    · next hknown =>
      rw [if_neg (Ne.symm hknown)]
      rcases List.mem_cons.mp h with rfl | hrest
      · exact .inl List.mem_cons_self
      · exact (ih hrest).imp_left (List.mem_cons_of_mem _)

/-- What a change of the directory at a path adds: the directories on the way, and below the path
what the change itself adds. Induction on the path. -/
theorem mem_listing_modifyDirectory {f : PackTree → PackTree}
    {Added : List String × Option PackFile → Prop}
    (hf : ∀ tree, ∀ entry ∈ (f tree).listing, entry ∈ tree.listing ∨ Added entry)
    {path : List String} (h : entry ∈ (modifyDirectory f path tree).listing) :
    entry ∈ tree.listing ∨ (entry.2 = none ∧ entry.1 ≠ [] ∧ entry.1 <+: path)
      ∨ ∃ new, Added new ∧ entry = (path ++ new.1, new.2) := by
  induction path generalizing tree entry with
  | nil => exact (hf tree entry h).imp_right fun hadded => .inr ⟨entry, hadded, rfl⟩
  | cons name path ih =>
    obtain ⟨files, directories⟩ := tree
    rw [modifyDirectory, mem_listing_node] at h
    rw [mem_listing_node]
    rcases h with hfile | hdirectory
    · exact .inl (.inl hfile)
    · obtain ⟨directory, hmem, hentry⟩ := mem_listingAll.mp hdirectory
      rcases mem_updateEntry hmem with hkept | rfl
      · exact .inl (.inr (mem_listingAll.mpr ⟨directory, hkept, hentry⟩))
      · -- The directory on the way is listed now, and what is in it comes from the induction.
        rcases hentry with rfl | ⟨inner, hinner, rfl⟩
        · exact .inr (.inl ⟨rfl, List.cons_ne_nil _ _, List.prefix_append [name] path⟩)
        · rcases ih hinner with hkept | ⟨hnone, -, hbegins⟩ | ⟨new, hnew, rfl⟩
          · -- A directory that is created for the change has nothing in it.
            cases hlookup : directories.lookup name with
            | none =>
              rw [hlookup, Option.getD_none, listing_empty] at hkept
              cases hkept
            | some known =>
              rw [hlookup, Option.getD_some] at hkept
              refine .inl (.inr (mem_listingAll.mpr ⟨(name, known), mem_of_lookup hlookup, ?_⟩))
              exact .inr ⟨inner, hkept, rfl⟩
          · exact .inr (.inl ⟨hnone, List.cons_ne_nil _ _, (List.prefix_cons_inj name).mpr hbegins⟩)
          · exact .inr (.inr ⟨new, hnew, rfl⟩)

/-- What a file that is put at a place adds: the place, and the directories on the way. -/
theorem mem_listing_put {file : PackFile} (h : entry ∈ (tree.put place file).listing) :
    entry ∈ tree.listing ∨ (entry.2 = none ∧ entry.1 ≠ [] ∧ entry.1 <+: place.1)
      ∨ entry = (place.1 ++ [place.2], some file) := by
  have hfile : ∀ tree, ∀ entry ∈ (modifyFile place.2 (fun _ => file) tree).listing,
      entry ∈ tree.listing ∨ entry = ([place.2], some file) := by
    intro tree entry hentry
    obtain ⟨files, directories⟩ := tree
    rw [modifyFile, mem_listing_node] at hentry
    rw [mem_listing_node]
    rcases hentry with ⟨written, hmem, rfl⟩ | hdirectory
    · rcases mem_updateEntry hmem with hkept | rfl
      · exact .inl (.inl ⟨written, hkept, rfl⟩)
      · exact .inr rfl
    · exact .inl (.inr hdirectory)
  rcases mem_listing_modifyDirectory hfile h with hkept | hway | ⟨new, rfl, rfl⟩
  · exact .inl hkept
  · exact .inr (.inl hway)
  · exact .inr (.inr rfl)

/-- A directory that is created adds itself and the directories on the way. -/
theorem mem_listing_createDirectory {path : String}
    (h : entry ∈ (tree.createDirectory path).listing) :
    entry ∈ tree.listing ∨ (entry.2 = none ∧ entry.1 ≠ [] ∧ entry.1 <+: segments path) := by
  have hnothing : ∀ tree : PackTree, ∀ entry ∈ (id tree).listing,
      entry ∈ tree.listing ∨ False := fun tree entry hentry => .inl hentry
  rcases mem_listing_modifyDirectory hnothing h with hkept | hway | ⟨new, hnew, -⟩
  · exact .inl hkept
  · exact .inr hway
  · exact hnew.elim

/-- What a run of files adds: their places, and the directories on the way to one of them. -/
theorem mem_listing_putAll {entries : List (Place × PackFile)}
    (h : entry ∈ (putAll entries tree).listing) :
    entry ∈ tree.listing
      ∨ ∃ written ∈ entries, (entry.2 = none ∧ entry.1 ≠ [] ∧ entry.1 <+: written.1.1)
        ∨ entry = (written.1.1 ++ [written.1.2], some written.2) := by
  induction entries generalizing tree with
  | nil => exact .inl h
  | cons first rest ih =>
    have h' : entry ∈ (putAll rest (tree.put first.1 first.2)).listing := h
    rcases ih h' with hput | ⟨written, hmem, hadded⟩
    · rcases mem_listing_put hput with hkept | hadded
      · exact .inl hkept
      · exact .inr ⟨first, List.mem_cons_self, hadded⟩
    · exact .inr ⟨written, List.mem_cons_of_mem first hmem, hadded⟩

end Reskin.PackTree
