import Mathlib.Data.List.Nodup
import Reskin.Pack
import Reskin.Proofs.Pack.Tree

/-!
# Emission of property files

Each property file is written under the first free candidate for its name, with a copy of its target
beside it. Both files are new, so nothing that is already in the pack can be lost.

* **`exists_free_candidate`** — the search for a name ends: different candidates stand for different
  places, and a tree has only finitely many files.
* **`insertProperty_eq_putAll`** — one step: a property file puts two files at places where there
  were none.
* **`emit_eq_putAll`** — a whole run: the property files put two files each, all at different places
  where there were none at the start.
* **`ofWorkspace_isEmission`** — what the pack of a workspace holds besides its copies.
-/

namespace Reskin.Pack

open PackTree

/-! ## Places in the property directory -/

def place (name extension : String) : Place :=
  (segments propertyDirectory ++ (splitPath name).1, (splitPath name).2 ++ "." ++ extension)

variable {tree : PackTree} {base name extension : String}

theorem slash_not_mem_extension (variant : Variant) : '/' ∉ variant.extension.toList := by
  cases variant <;> decide

theorem slash_not_mem_properties : '/' ∉ "properties".toList := by
  decide

/-- An extension goes to the name of a path, and not to its directories. -/
theorem splitPath_dot_append (name : String) (h : '/' ∉ extension.toList) :
    splitPath (name ++ "." ++ extension)
      = ((splitPath name).1, (splitPath name).2 ++ "." ++ extension) := by
  have hrest : '/' ∉ ("." ++ extension).toList := by simp [h]
  rw [String.append_assoc, splitPath_append_of_not_mem name hrest, String.append_assoc]

/-- The segments of the path of a property file lead to its place. The dot keeps the last segment
from being empty, whatever the name is. -/
theorem segments_propertyPath (name : String) (h : '/' ∉ extension.toList) :
    segments (propertyPath name extension)
      = (place name extension).1 ++ [(place name extension).2] := by
  have hsplit := splitPath_dot_append name h
  -- The dot keeps the last segment from being empty, whatever the name is.
  have hname : (splitPath (name ++ "." ++ extension)).2 ≠ "" := by
    rw [hsplit, ← String.toList_inj.ne]
    simp
  have hpath : propertyPath name extension
      = propertyDirectory ++ "/" ++ (name ++ "." ++ extension) := by
    simp only [propertyPath, String.append_assoc]
  rw [hpath, segments_append, segments_eq hname, hsplit, place, List.append_assoc]

/-- So looking a property file up by its path finds what is at its place. -/
theorem get?_propertyPath (tree : PackTree) (name : String) (h : '/' ∉ extension.toList) :
    tree.get? (propertyPath name extension) = tree.file? (place name extension) :=
  get?_of_segments tree (segments_propertyPath name h)

/-! ## Candidates -/

/-- What a candidate adds to the base name. -/
def counter : Nat → String
  | 0 => ""
  | n + 1 => toString (n + 1)

theorem candidate_eq (base : String) (n : Nat) : candidate base n = base ++ counter n := by
  cases n with
  | zero => exact (String.append_empty).symm
  | succ n => rfl

theorem toList_counter_succ (n : Nat) : (counter (n + 1)).toList = Nat.toDigits 10 (n + 1) :=
  String.toList_ofList

/-- A counter is made of digits, so neither a separator nor a dot is in it. -/
theorem isDigit_of_mem_counter {n : Nat} {c : Char} (h : c ∈ (counter n).toList) :
    c.isDigit = true := by
  cases n with
  | zero => cases h
  | succ n =>
    rw [toList_counter_succ] at h
    exact Nat.isDigit_of_mem_toDigits (by decide) (by decide) h

/-- A counter can be read back, also the empty one of the first candidate. -/
theorem ofDigitChars_counter (n : Nat) : Nat.ofDigitChars 10 (counter n).toList 0 = n := by
  cases n with
  | zero => rfl
  | succ n => rw [toList_counter_succ, Nat.ofDigitChars_ten_toDigits]

/-- A candidate lies in the directory of the base name, and its counter stands in front of the
extension. -/
theorem place_candidate (base : String) (n : Nat) (extension : String) :
    place (candidate base n) extension
      = (segments propertyDirectory ++ (splitPath base).1,
          (splitPath base).2 ++ counter n ++ "." ++ extension) := by
  have hcounter : '/' ∉ (counter n).toList := fun hmem =>
    absurd (isDigit_of_mem_counter hmem) (by decide)
  rw [place, candidate_eq, splitPath_append_of_not_mem base hcounter]

/-- Different candidates or extensions give different places. Behind the base name, the counter is
what stands in front of the first dot. -/
theorem place_candidate_inj {m n : Nat} {other : String}
    (h : place (candidate base m) extension = place (candidate base n) other) :
    m = n ∧ extension = other := by
  rw [place_candidate, place_candidate, Prod.mk.injEq] at h
  have hdot : ∀ n, '.' ∉ (counter n).toList := fun n hmem =>
    absurd (isDigit_of_mem_counter hmem) (by decide)
  have htoList : ∀ n extension, ((splitPath base).2 ++ counter n ++ "." ++ extension).toList
      = (splitPath base).2.toList ++ ((counter n).toList ++ '.' :: extension.toList) := by
    intro n extension
    simp
  -- After the base name, the counter is what stands in front of the first dot.
  have hlists := congrArg String.toList h.2
  rw [htoList, htoList, List.append_cancel_left_eq] at hlists
  have hfirst := congrArg (Text.splitFirst '.') hlists
  rw [Text.splitFirst_append (hdot m), Text.splitFirst_append (hdot n), Option.some.injEq,
    Prod.mk.injEq] at hfirst
  constructor
  · rw [← ofDigitChars_counter m, hfirst.1, ofDigitChars_counter]
  · exact String.toList_inj.mp hfirst.2

/-! ## The search for a name -/

/-- Whether a name has neither a property file nor a file with the extension. -/
def Free (tree : PackTree) (extension name : String) : Prop :=
  tree.get? (propertyPath name "properties") = none
    ∧ tree.get? (propertyPath name extension) = none

/-- Whether a name is the first free one of the candidates for a property file. -/
def IsFirstFree (tree : PackTree) (file : PropertyFile) (name : String) : Prop :=
  ∃ n, name = candidate file.baseName n ∧ Free tree file.variant.extension name
    ∧ ∀ m < n, ¬Free tree file.variant.extension (candidate file.baseName m)

theorem isFree_iff : isFree tree extension name = true ↔ Free tree extension name := by
  simp [isFree, Free, contains]

/-- One of the candidates is free: each one that is not has a file of its own. The first candidates
are one more than there are files, so they cannot all be taken. -/
theorem exists_free_candidate (tree : PackTree) (base : String) (h : '/' ∉ extension.toList) :
    ∃ n ≤ tree.fileCount, Free tree extension (candidate base n) := by
  by_contra hnone
  -- If none of the first candidates is free, each of them has a file of one kind or the other.
  have hoccupied : ∀ n : Nat, ∃ kind, n ≤ tree.fileCount →
      (tree.file? (place (candidate base n) kind)).isSome := by
    intro n
    by_cases hfree : Free tree extension (candidate base n)
    · exact ⟨extension, fun hn => absurd ⟨n, hn, hfree⟩ hnone⟩
    · rw [Free, get?_propertyPath tree _ slash_not_mem_properties, get?_propertyPath tree _ h,
        not_and_or, ← ne_eq, ← ne_eq, Option.ne_none_iff_isSome, Option.ne_none_iff_isSome] at hfree
      rcases hfree with hfree | hfree
      · exact ⟨"properties", fun _ => hfree⟩
      · exact ⟨extension, fun _ => hfree⟩
  choose kind hkind using hoccupied
  have hdistinct : ((List.range (tree.fileCount + 1)).map
      fun n => place (candidate base n) (kind n)).Nodup :=
    List.Nodup.map (fun m n heq => (place_candidate_inj heq).1) List.nodup_range
  -- Those files are one more than the tree has.
  have hlength := length_le_fileCount hdistinct (by
    intro place hplace
    obtain ⟨n, hn, rfl⟩ := List.mem_map.mp hplace
    exact hkind n (Nat.lt_succ_iff.mp (List.mem_range.mp hn)))
  rw [List.length_map, List.length_range] at hlength
  omega

/-- The name that is chosen is the first free candidate. By `exists_free_candidate` the search does
not run out of candidates. -/
theorem isFirstFree_freeName (tree : PackTree) (file : PropertyFile) :
    IsFirstFree tree file (freeName tree file.baseName file.variant.extension) := by
  obtain ⟨k, hk, hfree⟩ :=
    exists_free_candidate tree file.baseName (slash_not_mem_extension file.variant)
  cases hfind : (List.range (tree.fileCount + 1)).find?
      (isFree tree file.variant.extension ∘ candidate file.baseName) with
  | none =>
    have hnot := List.find?_eq_none.mp hfind k (List.mem_range.mpr (by omega))
    rw [Function.comp_apply, isFree_iff] at hnot
    exact absurd hfree hnot
  | some n =>
    obtain ⟨hn, -, hfirst⟩ := List.find?_range_eq_some.mp hfind
    rw [Function.comp_apply, isFree_iff] at hn
    have hname : freeName tree file.baseName file.variant.extension
        = candidate file.baseName n := by
      rw [freeName, List.find?_map, hfind, Option.map_some, Option.getD_some]
    refine ⟨n, hname, hname ▸ hn, fun m hm => ?_⟩
    have hnot := hfirst m hm
    rwa [Function.comp_apply, Bool.not_eq_true', ← Bool.not_eq_true, isFree_iff] at hnot

/-! ## One property file -/

/-- The two files that a property file consists of, under the given name. -/
def written (root : Path) (file : PropertyFile) (name : String) : List (Place × PackFile) :=
  [(place name "properties", .text (file.render name)),
    (place name file.variant.extension, .copy (root.join file.target))]

/-- Writing below the property directory is writing at places of the whole tree. From here on a pack
is a run of files that are put at places. -/
theorem insertProperty_eq_putAll (root : Path) (tree : PackTree) (file : PropertyFile) :
    insertProperty root tree file
      = putAll (written root file (freeName tree file.baseName file.variant.extension)) tree := by
  have hproperties : ∀ name, splitPath (name ++ ".properties")
      = ((splitPath name).1, (splitPath name).2 ++ "." ++ "properties") := by
    intro name
    rw [← splitPath_dot_append name slash_not_mem_properties, String.append_assoc]
    rfl
  have hextension : ∀ name, splitPath (name ++ "." ++ file.variant.extension)
      = ((splitPath name).1, (splitPath name).2 ++ "." ++ file.variant.extension) :=
    fun name => splitPath_dot_append name (slash_not_mem_extension file.variant)
  generalize hname : freeName tree file.baseName file.variant.extension = name
  calc insertProperty root tree file
    _ = modifyDirectory
          (·.insertAt (name ++ "." ++ file.variant.extension) (.copy (root.join file.target)))
          (segments propertyDirectory)
          (modifyDirectory (·.insertAt (name ++ ".properties") (.text (file.render name)))
            (segments propertyDirectory) tree) := by
      rw [insertProperty, hname]
      exact modifyDirectory_comp _ _ _ _
    _ = putAll (written root file name) tree := by
      rw [modifyDirectory_insertAt, modifyDirectory_insertAt, hproperties, hextension]
      rfl

/-- The two files of a property file are new, if its name is free. They differ in their extension,
so they do not replace each other either. -/
theorem fresh_written (root : Path) (file : PropertyFile)
    (h : Free tree file.variant.extension name) : Fresh tree (written root file name) := by
  obtain ⟨hproperties, hextension⟩ := h
  rw [get?_propertyPath tree name slash_not_mem_properties] at hproperties
  rw [get?_propertyPath tree name (slash_not_mem_extension file.variant)] at hextension
  refine fresh_cons hproperties (fresh_cons ?_ (fresh_nil _))
  -- The two files have the same name, but not the same extension.
  have hne : place name file.variant.extension ≠ place name "properties" := by
    intro heq
    have hname : candidate name 0 = name := rfl
    rw [← hname] at heq
    have hsame := (place_candidate_inj heq).2
    cases hvariant : file.variant <;> rw [hvariant] at hsame <;> exact absurd hsame (by decide)
  rw [file?_put, if_neg hne]
  exact hextension

/-! ## All property files -/

def emit (root : Path) (files : List PropertyFile) (tree : PackTree) : PackTree :=
  files.foldl (insertProperty root) tree

def names (root : Path) : PackTree → List PropertyFile → List String
  | _, [] => []
  | tree, file :: files =>
    freeName tree file.baseName file.variant.extension
      :: names root (insertProperty root tree file) files

/-- The files that property files consist of, under the given names. -/
def writtenAll (root : Path) (files : List PropertyFile) (names : List String) :
    List (Place × PackFile) :=
  (files.zip names).flatMap fun entry => written root entry.1 entry.2

theorem writtenAll_cons (root : Path) (file : PropertyFile) (files : List PropertyFile)
    (name : String) (names : List String) :
    writtenAll root (file :: files) (name :: names)
      = written root file name ++ writtenAll root files names := rfl

theorem length_names (root : Path) (tree : PackTree) (files : List PropertyFile) :
    (names root tree files).length = files.length := by
  induction files generalizing tree with
  | nil => rfl
  | cons file files ih => rw [names, List.length_cons, List.length_cons, ih]

/-- Each property file consists of two files. -/
theorem length_writtenAll (root : Path) {files : List PropertyFile} {names : List String}
    (h : names.length = files.length) :
    (writtenAll root files names).length = 2 * files.length := by
  induction files generalizing names with
  | nil => rfl
  | cons file files ih =>
    cases names with
    | nil => cases h
    | cons name names =>
      have hlength := ih (Nat.succ.inj h)
      rw [writtenAll_cons, List.length_append, hlength, List.length_cons]
      show 2 + 2 * files.length = 2 * (files.length + 1)
      omega

/-- Property files put files at different places at which there were none. Induction on the files:
what the later ones put is fresh in a tree that has the first ones, and so in one that has not. -/
theorem emit_eq_putAll (root : Path) (tree : PackTree) (files : List PropertyFile) :
    emit root files tree = putAll (writtenAll root files (names root tree files)) tree
      ∧ Fresh tree (writtenAll root files (names root tree files)) := by
  induction files generalizing tree with
  | nil => exact ⟨rfl, fresh_nil tree⟩
  | cons file files ih =>
    obtain ⟨hemit, hfresh⟩ := ih (insertProperty root tree file)
    obtain ⟨n, -, hfree, -⟩ := isFirstFree_freeName tree file
    have hstep := insertProperty_eq_putAll root tree file
    rw [names, writtenAll_cons]
    -- The later files are fresh in a tree that has the first two, and so in one that has not.
    constructor
    · rw [putAll_append, ← hstep]
      exact hemit
    · exact fresh_append (fresh_written root file hfree) (hstep ▸ hfresh)

/-- Each name is the first free one when its turn comes. Induction along the run, which the names
follow. -/
theorem isFirstFree_names {root : Path} {tree : PackTree} {files : List PropertyFile} {i : Nat}
    {file : PropertyFile} {name : String} (hfile : files[i]? = some file)
    (hname : (names root tree files)[i]? = some name) :
    IsFirstFree (emit root (files.take i) tree) file name := by
  induction files generalizing tree i with
  | nil => cases hfile
  | cons first files ih =>
    cases i with
    | zero =>
      cases hfile
      cases hname
      exact isFirstFree_freeName tree file
    | succ i => exact ih hfile hname

/-- The segments of the paths at which property files are written. -/
def writtenPaths (files : List PropertyFile) (names : List String) : List (List String) :=
  (files.zip names).flatMap fun entry =>
    [segments (propertyPath entry.2 "properties"),
      segments (propertyPath entry.2 entry.1.variant.extension)]

/-- The paths at which property files are written, as places. -/
theorem writtenPaths_eq (root : Path) (files : List PropertyFile) (names : List String) :
    writtenPaths files names
      = ((writtenAll root files names).map Prod.fst).map fun place => place.1 ++ [place.2] := by
  rw [writtenAll, List.map_flatMap, List.map_flatMap, writtenPaths]
  refine List.flatMap_congr fun entry _ => ?_
  rw [segments_propertyPath _ slash_not_mem_properties,
    segments_propertyPath _ (slash_not_mem_extension entry.1.variant)]
  rfl

/-! ## The pack of a workspace -/

/-- What it means that property files were written into a pack: each under the first name that was
free when its turn came, with its text under that name and a copy of its target beside it, all at
different places, and with no other file changed, added or removed. -/
structure IsEmission (root : Path) (before : PackTree) (files : List PropertyFile)
    (names : List String) (after : PackTree) : Prop where
  length_eq : names.length = files.length
  isFirstFree : ∀ (i : Nat) (file : PropertyFile) (name : String),
    files[i]? = some file → names[i]? = some name →
      IsFirstFree (emit root (files.take i) before) file name
  text_eq : ∀ entry ∈ files.zip names,
    after.get? (propertyPath entry.2 "properties") = some (.text (entry.1.render entry.2))
  copy_eq : ∀ entry ∈ files.zip names,
    after.get? (propertyPath entry.2 entry.1.variant.extension)
      = some (.copy (root.join entry.1.target))
  distinct : (writtenPaths files names).Nodup
  kept : ∀ (place : Place) (file : PackFile),
    before.file? place = some file → after.file? place = some file
  kept_path : ∀ (path : String) (file : PackFile),
    before.get? path = some file → after.get? path = some file
  fileCount_eq : after.fileCount = before.fileCount + 2 * files.length

/-- The pack of a workspace has its property files besides the metadata and the copies. -/
theorem ofWorkspace_isEmission (catalog : Catalog) (config : Config) (workspace : Workspace) :
    ∃ names : List String,
      IsEmission workspace.root
        (insertCopies workspace.root workspace.copies (skeleton config))
        ((propertyFiles catalog workspace).value.filter fun file => !file.items.isEmpty)
        names
        (ofWorkspace catalog config workspace).value := by
  set before := insertCopies workspace.root workspace.copies (skeleton config)
  set files := (propertyFiles catalog workspace).value.filter fun file => !file.items.isEmpty
  obtain ⟨hemit, hfresh⟩ := emit_eq_putAll workspace.root before files
  have hafter : (ofWorkspace catalog config workspace).value
      = putAll (writtenAll workspace.root files (names workspace.root before files)) before :=
    hemit
  have hlength := length_names workspace.root before files
  rw [hafter]
  refine ⟨names workspace.root before files, hlength, fun i file name => isFirstFree_names,
    fun entry hentry => ?text, fun entry hentry => ?copy, ?distinct,
    fun place file => hfresh.file?_putAll_of_eq_some, fun path file hfile => ?path, ?count⟩
  case text =>
    rw [get?_propertyPath _ _ slash_not_mem_properties]
    exact hfresh.file?_putAll_of_mem (List.mem_flatMap.mpr ⟨entry, hentry, List.mem_cons_self⟩)
  case copy =>
    rw [get?_propertyPath _ _ (slash_not_mem_extension entry.1.variant)]
    exact hfresh.file?_putAll_of_mem
      (List.mem_flatMap.mpr ⟨entry, hentry, List.mem_cons_of_mem _ List.mem_cons_self⟩)
  case distinct =>
    rw [writtenPaths_eq workspace.root]
    refine List.Nodup.map (fun a b heq => ?_) hfresh.distinct
    obtain ⟨hparent, hname⟩ := List.append_inj' heq rfl
    exact Prod.ext hparent (List.singleton_inj.mp hname)
  case path =>
    rcases exists_place path with hnone | ⟨place, hplace⟩
    · rw [hnone before] at hfile
      cases hfile
    · rw [hplace] at hfile ⊢
      exact hfresh.file?_putAll_of_eq_some hfile
  case count =>
    rw [hfresh.fileCount_putAll, length_writtenAll workspace.root hlength]

end Reskin.Pack
