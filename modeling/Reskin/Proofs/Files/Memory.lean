import Mathlib.Data.List.Forall2
import Reskin.Files.Memory

/-!
# Files in memory

A pool holds each path once, up to its spelling. What it tells about files follows from the paths it
holds, whatever the order in which they were added: two pools that hold the same paths list the same
source files in the same order.

* **`Path.le_trans`**, **`Path.le_total`**, **`Path.eq_of_compareLex_isLE`** — paths are totally
  ordered up to their spelling.
* **`MemoryFiles.nodup_keys_ofList`** — no path is held twice.
* **`MemoryFiles.forall₂_sources`** — the source files of two pools with the same paths.
-/

namespace Reskin

/-! ## The order of paths -/

namespace Path

open Std (TransCmp LawfulEqCmp OrientedCmp)

instance : TransCmp Component.order :=
  inferInstanceAs (TransCmp (compareLex (compareOn Component.rank) (compareOn Component.segment)))

instance : LawfulEqCmp Component.order where
  compare_self := Std.ReflCmp.compare_self
  eq_of_compare {a b} h := by
    obtain ⟨hrank, hsegment⟩ := Ordering.then_eq_eq.mp h
    have hrank := Std.LawfulEqCmp.eq_of_compare hrank
    have hsegment := Std.LawfulEqCmp.eq_of_compare hsegment
    cases a <;> cases b <;> simp_all [Component.rank, Component.segment]

/-- The order of components is the lexicographic one of the library, whose lemmas then apply. -/
theorem orderComponents_eq (a b : List Component) :
    orderComponents a b = List.compareLex Component.order a b := by
  induction a generalizing b with
  | nil => cases b <;> rfl
  | cons first rest ih =>
    cases b with
    | nil => rfl
    | cons other others => rw [orderComponents, List.compareLex_cons_cons, ih]

theorem le_iff {a b : Path} :
    a.le b = true ↔ (List.compareLex Component.order a.components b.components).isLE := by
  rw [le, order, orderComponents_eq]

theorem le_trans {a b c : Path} (hab : a.le b = true) (hbc : b.le c = true) : a.le c = true := by
  rw [le_iff] at *
  exact TransCmp.isLE_trans hab hbc

theorem le_total (a b : Path) : (a.le b || b.le a) = true := by
  have hswap : List.compareLex Component.order b.components a.components
      = (List.compareLex Component.order a.components b.components).swap := OrientedCmp.eq_swap
  rw [Bool.or_eq_true, le_iff, le_iff, hswap]
  cases List.compareLex Component.order a.components b.components <;> decide

/-- Only equal components compare as equal, so a sorted list of paths is determined by its
elements. -/
theorem eq_of_compareLex_isLE {a b : List Component}
    (hab : (List.compareLex Component.order a b).isLE = true)
    (hba : (List.compareLex Component.order b a).isLE = true) : a = b :=
  LawfulEqCmp.eq_of_compare (OrientedCmp.isLE_antisymm hab hba)

theorem startsWith_congr {a b : Path} (h : a.components = b.components) (base : Path) :
    a.startsWith base = b.startsWith base := by
  rw [startsWith, startsWith, h]

theorem hasExtension_congr {a b : Path} (h : a.components = b.components) (extension : String) :
    a.hasExtension extension = b.hasExtension extension := by
  unfold hasExtension extension? fileName?
  rw [h]

end Path

/-! ## The paths of a pool -/

namespace MemoryFiles

/-- The paths of a list of files, by their components. -/
def keysOf (entries : List (Path × String)) : List (List Path.Component) :=
  entries.map fun entry => entry.1.components

/-- The paths that a pool holds. -/
def keys (files : MemoryFiles) : List (List Path.Component) :=
  keysOf files.entries

theorem same_iff {a b : Path} : a.same b = true ↔ a.components = b.components := by
  rw [Path.same, decide_eq_true_iff]

/-- Putting a file into a list adds its path at the end, unless it is there in some spelling. The
texts play no part. -/
theorem keysOf_put (path : Path) (text : String) (entries : List (Path × String)) :
    keysOf (put path text entries)
      = if path.components ∈ keysOf entries then keysOf entries
        else keysOf entries ++ [path.components] := by
  induction entries with
  | nil => rfl
  | cons entry rest ih =>
    obtain ⟨known, old⟩ := entry
    rw [put]
    split
    · next hsame =>
      rw [same_iff] at hsame
      simp [keysOf, hsame]
    · next hsame =>
      rw [same_iff] at hsame
      have hne : ¬path.components = known.components := fun h => hsame h.symm
      have hcons : ∀ entries, keysOf ((known, old) :: entries)
          = known.components :: keysOf entries := fun _ => rfl
      rw [hcons, hcons, ih]
      simp only [List.mem_cons, hne, false_or]
      split <;> rfl

theorem nodup_keysOf_put (path : Path) (text : String) {entries : List (Path × String)}
    (h : (keysOf entries).Nodup) : (keysOf (put path text entries)).Nodup := by
  rw [keysOf_put]
  split
  · exact h
  · next hnew =>
    rw [List.nodup_append]
    refine ⟨h, List.pairwise_singleton _ _, ?_⟩
    intro known hknown new hmem hsame
    rw [List.mem_singleton] at hmem
    exact hnew (hmem ▸ hsame ▸ hknown)

/-- No path is held twice. Induction on the files that are added, over the pool that they are added
to. -/
theorem nodup_keys_ofList (files : List (Path × String)) : (ofList files).keys.Nodup := by
  unfold ofList
  suffices h : ∀ pool : MemoryFiles, pool.keys.Nodup →
      (files.foldl (fun pool file => pool.add file.1 file.2) pool).keys.Nodup from
    h {} List.nodup_nil
  induction files with
  | nil => exact fun pool h => h
  | cons file rest ih =>
    intro pool h
    exact ih _ (nodup_keysOf_put file.1 file.2 h)

variable {files a b : MemoryFiles} {path root : Path} {extension : String}

/-- A path can be read just if it is held, in whatever spelling. -/
theorem isSome_read_iff : (files.read path).isSome ↔ path.components ∈ files.keys := by
  rw [read, Option.isSome_map, List.find?_isSome, keys, keysOf, List.mem_map]
  simp only [same_iff]

/-- A text that is read belongs to a file whose path has the same components. -/
theorem exists_mem_of_read {text : String} (h : files.read path = some text) :
    ∃ known, (known, text) ∈ files.entries ∧ known.components = path.components := by
  obtain ⟨⟨known, old⟩, hfind, rfl⟩ := Option.map_eq_some_iff.mp h
  have hsame : known.same path = true := by simpa using List.find?_some hfind
  exact ⟨known, List.mem_of_find?_eq_some hfind, same_iff.mp hsame⟩

theorem read_congr {other : Path} (h : path.components = other.components) :
    files.read path = files.read other := by
  unfold read Path.same
  rw [h]

/-- The source files below a directory are the held paths that start with it and have the
extension. -/
theorem mem_sources_iff :
    path ∈ files.sources root extension
      ↔ (∃ text, (path, text) ∈ files.entries) ∧ path.startsWith root = true
        ∧ path.hasExtension extension = true := by
  rw [sources, List.mem_mergeSort, List.mem_filter, Bool.and_eq_true]
  simp

theorem isSome_read_of_mem_sources (h : path ∈ files.sources root extension) :
    (files.read path).isSome := by
  obtain ⟨⟨text, hmem⟩, -⟩ := mem_sources_iff.mp h
  exact isSome_read_iff.mpr (List.mem_map.mpr ⟨(path, text), hmem, rfl⟩)

/-- No source file is listed twice. Sorting is a permutation, and the rest is a part of the held
paths. -/
theorem nodup_sources (h : files.keys.Nodup) (root : Path) (extension : String) :
    ((files.sources root extension).map Path.components).Nodup := by
  have hperm := (List.mergeSort_perm ((files.entries.map Prod.fst).filter fun path =>
    path.startsWith root && path.hasExtension extension) Path.le).map Path.components
  rw [sources, hperm.nodup_iff]
  refine List.Nodup.sublist (List.filter_sublist.map Path.components) ?_
  rw [List.map_map]
  exact h

/-- The components of the source files of a pool, from what can be read alone. So they are the same
in any two pools that can read the same paths. -/
theorem mem_components_sources_iff {components : List Path.Component} :
    components ∈ (files.sources root extension).map Path.components
      ↔ ∃ path, (files.read path).isSome ∧ path.startsWith root = true
        ∧ path.hasExtension extension = true ∧ path.components = components := by
  rw [List.mem_map]
  constructor
  · rintro ⟨path, hmem, hcomponents⟩
    obtain ⟨-, hstarts, hextension⟩ := mem_sources_iff.mp hmem
    exact ⟨path, isSome_read_of_mem_sources hmem, hstarts, hextension, hcomponents⟩
  · rintro ⟨path, hread, hstarts, hextension, rfl⟩
    obtain ⟨⟨known, text⟩, hmem, hknown⟩ := List.mem_map.mp (isSome_read_iff.mp hread)
    refine ⟨known, mem_sources_iff.mpr ⟨⟨text, hmem⟩, ?_, ?_⟩, hknown⟩
    · rw [Path.startsWith_congr hknown, hstarts]
    · rw [Path.hasExtension_congr hknown, hextension]

/-- The source files are listed in ascending order. -/
theorem pairwise_sources (files : MemoryFiles) (root : Path) (extension : String) :
    (files.sources root extension).Pairwise fun p q => p.le q = true := by
  have htrans : ∀ a b c : Path, a.le b = true → b.le c = true → a.le c = true :=
    fun _ _ _ => Path.le_trans
  have htotal : ∀ a b : Path, (a.le b || b.le a) = true := Path.le_total
  exact List.pairwise_mergeSort htrans htotal _

/-- Two pools that hold the same paths list the same source files in the same order. The spellings
may differ, so the lists agree on components only. -/
theorem forall₂_sources (ha : a.keys.Nodup) (hb : b.keys.Nodup)
    (h : ∀ path, (a.read path).isSome = (b.read path).isSome) (root : Path) (extension : String) :
    List.Forall₂ (fun p q => p.components = q.components) (a.sources root extension)
      (b.sources root extension) := by
  have hsorted : ∀ files : MemoryFiles,
      ((files.sources root extension).map Path.components).Pairwise fun p q =>
        (List.compareLex Path.Component.order p q).isLE = true := by
    intro files
    rw [List.pairwise_map]
    exact (pairwise_sources files root extension).imp Path.le_iff.mp
  have hperm : ((a.sources root extension).map Path.components).Perm
      ((b.sources root extension).map Path.components) := by
    rw [List.perm_ext_iff_of_nodup (nodup_sources ha root extension)
      (nodup_sources hb root extension)]
    intro components
    rw [mem_components_sources_iff, mem_components_sources_iff]
    simp only [h]
  -- Sorted lists with the same elements are equal, since only equal components compare as equal.
  have heq := List.Perm.eq_of_pairwise (fun p q _ _ hpq hqp => Path.eq_of_compareLex_isLE hpq hqp)
    (hsorted a) (hsorted b) hperm
  rw [← List.forall₂_eq_eq_eq, List.forall₂_map_left_iff, List.forall₂_map_right_iff] at heq
  exact heq

/-- A path is present if it is the beginning of one that is held, as that of a directory is. -/
theorem present_view_iff :
    files.view.present path = true
      ↔ ∃ components ∈ files.keys, path.components.isPrefixOf components = true := by
  show (files.entries.any fun entry => entry.1.startsWith path) = true ↔ _
  rw [List.any_eq_true, keys, keysOf]
  simp only [List.mem_map, exists_exists_and_eq_and]
  rfl

/-- Pools that can read the same paths hold the same paths. -/
theorem mem_keys_iff_of_isSome_eq (h : ∀ path, (a.read path).isSome = (b.read path).isSome)
    (components : List Path.Component) : components ∈ a.keys ↔ components ∈ b.keys := by
  constructor
  · intro hmem
    obtain ⟨entry, -, rfl⟩ := List.mem_map.mp hmem
    rw [← isSome_read_iff] at hmem ⊢
    rwa [← h]
  · intro hmem
    obtain ⟨entry, -, rfl⟩ := List.mem_map.mp hmem
    rw [← isSome_read_iff] at hmem ⊢
    rwa [h]

/-- Two pools that hold the same paths hold the same directories. -/
theorem present_view_eq (h : ∀ path, (a.read path).isSome = (b.read path).isSome) :
    a.view.present = b.view.present := by
  funext path
  rw [Bool.eq_iff_iff, present_view_iff, present_view_iff]
  simp only [mem_keys_iff_of_isSome_eq h]

end MemoryFiles

end Reskin
