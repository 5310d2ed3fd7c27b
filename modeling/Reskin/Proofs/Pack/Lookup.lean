import Reskin.Proofs.Pack.Listing
import Reskin.Proofs.Text.Lines

/-!
# Two ways to look a file up

A file of a pack tree is looked up by its segments or by a path. `resolve?` takes the segments from
the front and asks for a file at every level, so a file hides what lies in a directory of the same
name. `get?` goes down through directories only, and asks for a file at the end. They find the same
files unless some directory has a file and a directory of one name.

* **`resolve?_eq_file_iff`** — what `resolve?` finds in any tree: the file at the place, if there is
  no file on the way to it.
* **`HasNoClash`** — trees in which files and directories have different names at every level.
  **`HasNoClash.file?_eq_none`**: in such a tree there is no file on the way to a file.
* **`resolve?_eq_file_iff_get?`** — the two look-ups agree.
-/

namespace Reskin.PackTree

variable {tree : PackTree} {file : PackFile} {name : String} {directories : List String}

/-! ## Segments that are put together -/

/-- A path that is put together from segments has these segments, if none of them is empty or holds
a separator. -/
theorem segments_intercalate {names : List String} (hne : names ≠ [])
    (hnames : ∀ name ∈ names, name ≠ "" ∧ '/' ∉ name.toList) :
    segments ("/".intercalate names) = names := by
  have hsplit : Text.splitAll '/' ("/".intercalate names).toList = names.map String.toList := by
    rw [String.toList_intercalate]
    refine Text.splitAll_intercalate (mt List.map_eq_nil_iff.mp hne) ?_
    exact List.forall_mem_map.mpr fun name hname => (hnames name hname).2
  have hfilter : (names.map String.toList).filter (fun segment => !segment.isEmpty)
      = names.map String.toList := by
    refine List.filter_eq_self.mpr (List.forall_mem_map.mpr fun name hname => ?_)
    simpa using (hnames name hname).1
  rw [segments, hsplit, hfilter, List.map_map]
  simp

/-! ## Files on the way -/

/-- **What `resolve?` finds.** It finds the file at a place just if no file is on the way there.
Induction on the directories; a file hides the directory of the same name, and with it all that is
below. -/
theorem resolve?_eq_file_iff :
    resolve? (directories ++ [name]) tree = some (.file file)
      ↔ tree.file? (directories, name) = some file
        ∧ ∀ front next, front ++ [next] <+: directories → tree.file? (front, next) = none := by
  induction directories generalizing tree with
  | nil =>
    have hway : ∀ front next, front ++ [next] <+: ([] : List String) →
        tree.file? (front, next) = none := fun front next hfront =>
      absurd (List.prefix_nil.mp hfront) (List.concat_ne_nil next front)
    rw [and_iff_left hway, file?_nil, List.nil_append, resolve?]
    cases tree.files.lookup name with
    | some found => simp
    | none => cases tree.directories.lookup name <;> simp [resolve?]
  | cons directory directories ih =>
    rw [List.cons_append, resolve?]
    cases hlookup : tree.files.lookup directory with
    | some found =>
      -- The first segment is a file already.
      have hne : (directories ++ [name]).isEmpty = false := by simp
      simp only [hne, Bool.false_eq_true, if_false, reduceCtorEq, false_iff]
      rintro ⟨-, hway⟩
      have hfirst := hway [] directory (List.prefix_append [directory] directories)
      rw [file?_nil, hlookup] at hfirst
      cases hfirst
    | none =>
      -- All that is on the way lies in the directory of the first segment, but that segment.
      have hway : (∀ front next, front ++ [next] <+: directory :: directories →
            tree.file? (front, next) = none)
          ↔ ∀ front next, front ++ [next] <+: directories →
            tree.file? (directory :: front, next) = none := by
        constructor
        · intro h front next hfront
          exact h (directory :: front) next (List.cons_prefix_cons.mpr ⟨rfl, hfront⟩)
        · intro h front next hfront
          cases front with
          | nil =>
            obtain ⟨rfl, -⟩ := List.cons_prefix_cons.mp hfront
            exact hlookup
          | cons first front =>
            obtain ⟨rfl, hrest⟩ := List.cons_prefix_cons.mp hfront
            exact h front next hrest
      simp only [hway, file?_cons]
      cases tree.directories.lookup directory with
      | none => simp
      | some found => exact ih

/-! ## Names of files and directories -/

/-- Whether no directory of a tree has a file and a directory of the same name. -/
inductive HasNoClash : PackTree → Prop
  | node {files : List (String × PackFile)} {directories : List (String × PackTree)}
    (apart : ∀ name ∈ files.map Prod.fst, name ∉ directories.map Prod.fst)
    (inner : ∀ directory ∈ directories, HasNoClash directory.2) :
    HasNoClash (node files directories)

/-- In a tree without clashes there is no file on the way to a file, because every step of that way
is a directory. -/
theorem HasNoClash.file?_eq_none (h : tree.HasNoClash)
    (hfile : tree.file? (directories, name) = some file) {front : List String} {next : String}
    (hfront : front ++ [next] <+: directories) : tree.file? (front, next) = none := by
  induction front generalizing tree directories with
  | nil =>
    obtain ⟨rest, rfl⟩ := hfront
    obtain ⟨apart, -⟩ := h
    rw [List.nil_append, List.singleton_append, file?_cons] at hfile
    obtain ⟨found, hfound, -⟩ := Option.bind_eq_some_iff.mp hfile
    -- The name leads on to a directory, so it is not the name of a file.
    rw [file?_nil, Option.eq_none_iff_forall_not_mem]
    intro other hother
    exact apart next (List.mem_map_of_mem (f := Prod.fst) (mem_of_lookup hother))
      (List.mem_map_of_mem (f := Prod.fst) (mem_of_lookup hfound))
  | cons first front ih =>
    obtain ⟨rest, rfl⟩ := hfront
    obtain ⟨-, inner⟩ := h
    rw [List.cons_append, List.cons_append, file?_cons] at hfile
    obtain ⟨found, hfound, hfile⟩ := Option.bind_eq_some_iff.mp hfile
    rw [file?_cons, hfound]
    exact ih (inner _ (mem_of_lookup hfound)) hfile (List.prefix_append _ rest)

/-! ## The two look-ups -/

/-- **The two look-ups agree.** In a tree in which files and directories have different names at
every level, segments lead to a file just if the path that is put together from them does, and then
to the same file. -/
theorem resolve?_eq_file_iff_get? (tree : PackTree) (hclash : tree.HasNoClash)
    (names : List String) (hne : names ≠ [])
    (hnames : ∀ name ∈ names, name ≠ "" ∧ '/' ∉ name.toList) (file : PackFile) :
    resolve? names tree = some (.file file) ↔ tree.get? ("/".intercalate names) = some file := by
  have hsegments := segments_intercalate hne hnames
  obtain ⟨directories, name, hsplit⟩ := (List.eq_nil_or_concat names).resolve_left hne
  rw [List.concat_eq_append] at hsplit
  rw [hsplit] at hsegments ⊢
  have hplace : segments ("/".intercalate (directories ++ [name]))
      = ((directories, name) : Place).1 ++ [((directories, name) : Place).2] := hsegments
  rw [get?_of_segments tree hplace, resolve?_eq_file_iff]
  exact and_iff_left_of_imp fun hfile front next hfront => hclash.file?_eq_none hfile hfront

/-- A tree with a file `b`, and with a directory `b` one level further down. -/
def layered : PackTree :=
  node [("b", .text "top")] [("a", node [] [("b", node [("c", .text "deep")] [])])]

theorem resolve?_eq_file_iff_get?_layered :
    layered.HasNoClash
      ∧ (["a", "b", "c"] ≠ [] ∧ ∀ name ∈ ["a", "b", "c"], name ≠ "" ∧ '/' ∉ name.toList)
      ∧ resolve? ["a", "b", "c"] layered = some (.file (.text "deep")) := by
  have hnone : ∀ entry ∈ ([] : List (String × PackTree)), entry.2.HasNoClash :=
    List.forall_mem_nil _
  have hdeep : (node [("c", .text "deep")] []).HasNoClash := .node (by decide) hnone
  have hmiddle : (node [] [("b", node [("c", .text "deep")] [])]).HasNoClash :=
    .node (by decide) (List.forall_mem_singleton.mpr hdeep)
  have hclash : layered.HasNoClash := .node (by decide) (List.forall_mem_singleton.mpr hmiddle)
  have hnames : ∀ name ∈ ["a", "b", "c"], name ≠ "" ∧ '/' ∉ name.toList := by decide
  have hne : ["a", "b", "c"] ≠ [] := List.cons_ne_nil _ _
  refine ⟨hclash, ⟨hne, hnames⟩, ?_⟩
  exact (resolve?_eq_file_iff_get? layered hclash _ hne hnames _).mpr (by decide +kernel)

-- Where a file and a directory have one name, only the path leads into the directory.
example :
    let tree := node [("a", .text "file")] [("a", node [("b", .text "below")] [])]
    (resolve? ["a", "b"] tree).isNone ∧ tree.get? "a/b" = some (.text "below") := by
  decide +kernel

end Reskin.PackTree
