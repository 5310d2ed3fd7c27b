import Mathlib.Data.List.Induction
import Mathlib.Data.List.Nodup
import Reskin.Compiler
import Reskin.Proofs.Files.Memory

/-!
# The order in which files are added

A pool of files keeps them as they come, but shows only what does not depend on that: a text is
found by the components of its path, and source files are listed in ascending order. As long as no
two files share a path, the order in which they are added can be seen nowhere, and so a compilation
cannot depend on it either.

* **`Path.Before`** — the order of paths, component by component; `Path.order_eq_lt_iff` says that
  this is how paths are compared.
* **`MemoryFiles.read_eq_some_iff`**, **`MemoryFiles.sources_perm`** — texts and source files of a
  pool, whatever the order of its files.
* **`Compiler.compile_perm`** — the headline, with what the list of source files is.
-/

namespace Reskin

/-! ## The order of paths

Paths are compared by a function that is made for sorting. The same order can be said without it:
the first component that differs decides, and a path comes before what lies below it. -/

namespace Path

/-- The root comes before `.`, that before `..`, and names come last, in the order of their
characters. -/
def Component.Before (a b : Component) : Prop :=
  a.rank < b.rank ∨ a.rank = b.rank ∧ a.segment < b.segment

def Before (a b : Path) : Prop :=
  List.Lex Component.Before a.components b.components

/-- The comparison of components is the order by rank and characters. -/
theorem Component.order_eq_lt_iff {a b : Component} : a.order b = .lt ↔ a.Before b := by
  have hrank : compare a.rank b.rank = .lt ↔ a.rank < b.rank := Nat.compare_eq_lt
  have hsegment : compare a.segment b.segment = .lt ↔ a.segment < b.segment :=
    compareOfLessAndEq_eq_lt
  rw [order, Before, Ordering.then_eq_lt, hrank, hsegment, Nat.compare_eq_eq]

/-- The comparison of lists of components is the lexicographic order. Induction on the first
list. -/
theorem orderComponents_eq_lt_iff {a b : List Component} :
    orderComponents a b = .lt ↔ List.Lex Component.Before a b := by
  induction a generalizing b with
  | nil =>
    cases b with
    | nil => exact iff_of_false (by decide) (by simp)
    | cons other others => exact iff_of_true rfl .nil
  | cons first rest ih =>
    cases b with
    | nil => exact iff_of_false (by simp [orderComponents]) (by simp)
    | cons other others =>
      have hsame : first.order other = .eq ↔ first = other := Std.LawfulEqCmp.compare_eq_iff_eq
      rw [orderComponents, Ordering.then_eq_lt, Component.order_eq_lt_iff, hsame, ih,
        List.cons_lex_cons_iff]

theorem order_eq_lt_iff {a b : Path} : a.order b = .lt ↔ a.Before b :=
  orderComponents_eq_lt_iff

/-- Of two different paths, the one that does not come after the other comes before it. Sorting
gives the weak order only, and different paths make it strict. -/
theorem before_of_le {a b : Path} (hle : a.le b = true) (hne : a.components ≠ b.components) :
    a.Before b := by
  rw [← order_eq_lt_iff]
  have hnot : a.order b ≠ .eq := by
    rw [order, orderComponents_eq]
    exact fun heq => hne (Std.LawfulEqCmp.eq_of_compare heq)
  unfold le at hle
  cases horder : a.order b with
  | lt => rfl
  | eq => exact absurd horder hnot
  | gt =>
    rw [horder] at hle
    cases hle

end Path

/-! ## Pools of files with different paths -/

namespace MemoryFiles

variable {files a b : List (Path × String)} {path root : Path} {text extension : String}

/-- A file whose path is not held yet goes to the end. -/
theorem put_of_not_mem (h : path.components ∉ keysOf files) :
    put path text files = files ++ [(path, text)] := by
  induction files with
  | nil => rfl
  | cons entry rest ih =>
    obtain ⟨known, old⟩ := entry
    obtain ⟨hknown, hrest⟩ := not_or.mp (mt List.mem_cons.mpr h)
    have hother : ¬known.same path = true := fun hsame => hknown (same_iff.mp hsame).symm
    rw [put, if_neg hother, ih hrest, List.cons_append]

/-- Files with different paths are kept as they come. So a permutation of the files is one of the
entries. -/
theorem entries_ofList (h : (keysOf files).Nodup) : (ofList files).entries = files := by
  -- The induction is from the right: the last file is the one that was added last.
  induction files using List.reverseRecOn with
  | nil => rfl
  | append_singleton files file ih =>
    have hkeys : keysOf (files ++ [file]) = keysOf files ++ [file.1.components] := List.map_append
    rw [hkeys, List.nodup_append] at h
    obtain ⟨hfiles, -, hnew⟩ := h
    have hfile : file.1.components ∉ keysOf files := fun hmem =>
      hnew _ hmem _ (List.mem_singleton_self _) rfl
    have hadd : (ofList (files ++ [file])).entries
        = put file.1 file.2 (ofList files).entries := by
      unfold ofList
      rw [List.foldl_append]
      rfl
    rw [hadd, ih hfiles, put_of_not_mem hfile]

/-- A text is found at the path that it was added with, up to spelling. No other file has that path,
so the first one that is found is the one. -/
theorem read_eq_some_iff {pool : MemoryFiles} (h : pool.keys.Nodup) :
    pool.read path = some text
      ↔ ∃ known, (known, text) ∈ pool.entries ∧ known.components = path.components := by
  refine ⟨exists_mem_of_read, ?_⟩
  rintro ⟨known, hmem, hcomponents⟩
  have hsome : (pool.read path).isSome :=
    isSome_read_iff.mpr (List.mem_map.mpr ⟨(known, text), hmem, hcomponents⟩)
  obtain ⟨found, hfound⟩ := Option.isSome_iff_exists.mp hsome
  obtain ⟨other, hother, hsame⟩ := exists_mem_of_read hfound
  -- Both files have the components of the path, so they are one.
  have heq : (other, found) = (known, text) :=
    List.inj_on_of_nodup_map h hother hmem (hsame.trans hcomponents.symm)
  rw [hfound, (Prod.mk.inj heq).2]

section Perm

variable (hdistinct : (keysOf a).Nodup) (hperm : a.Perm b)

include hdistinct hperm

/-- Added in another order, the files are held in another order. -/
theorem perm_entries : (ofList a).entries.Perm (ofList b).entries := by
  have hother : (keysOf b).Nodup := (hperm.map _).nodup_iff.mp hdistinct
  rw [entries_ofList hdistinct, entries_ofList hother]
  exact hperm

/-- Reading looks for a path that only one file has, so it does not depend on the order. -/
theorem read_perm : (ofList a).read = (ofList b).read := by
  funext path
  refine Option.ext fun text => ?_
  rw [read_eq_some_iff (nodup_keys_ofList a), read_eq_some_iff (nodup_keys_ofList b)]
  simp only [(perm_entries hdistinct hperm).mem_iff]

/-- The source files are sorted, and only one file has a given path. So they do not depend on the
order of the files. -/
theorem sources_perm (root : Path) (extension : String) :
    (ofList a).sources root extension = (ofList b).sources root extension := by
  have hentries := perm_entries hdistinct hperm
  have hsources : ((ofList a).sources root extension).Perm ((ofList b).sources root extension) :=
    (List.mergeSort_perm _ _).trans
      (((hentries.map Prod.fst).filter _).trans (List.mergeSort_perm _ _).symm)
  refine List.Perm.eq_of_pairwise (fun p q hp hq hpq hqp => ?_)
    (pairwise_sources (ofList a) root extension) (pairwise_sources (ofList b) root extension)
    hsources
  have hcomponents : p.components = q.components :=
    Path.eq_of_compareLex_isLE (Path.le_iff.mp hpq) (Path.le_iff.mp hqp)
  exact List.inj_on_of_nodup_map (nodup_sources (nodup_keys_ofList a) root extension) hp
    (hsources.mem_iff.mpr hq) hcomponents

/-- All that a compilation can see of two pools is the same. A view consists of four functions, of
which each one is settled above. -/
theorem view_perm : (ofList a).view = (ofList b).view := by
  have hpresent : (ofList a).view.present = (ofList b).view.present := by
    funext path
    exact (perm_entries hdistinct hperm).any_eq
  have hread := read_perm hdistinct hperm
  have hsources := sources_perm hdistinct hperm
  have hisFile : (ofList a).view.isFile = (ofList b).view.isFile := by
    funext path
    exact congrArg (fun read => (read path).isSome) hread
  have hlisted : (ofList a).view.sources = (ofList b).view.sources := by
    funext root extension
    exact congrArg Except.ok (hsources root extension)
  have hview : ∀ pool : MemoryFiles, pool.view
      = ⟨pool.read, pool.view.present, pool.view.isFile, pool.view.sources⟩ := fun _ => rfl
  rw [hview (ofList a), hview (ofList b), hread, hpresent, hisFile, hlisted]

end Perm

/-- No two source files have the same path, so the order of their list is strict. -/
theorem pairwise_before_sources (files : List (Path × String)) (root : Path) (extension : String) :
    ((ofList files).sources root extension).Pairwise Path.Before := by
  have hdistinct : ((ofList files).sources root extension).Pairwise
      fun p q => p.components ≠ q.components := by
    rw [← List.pairwise_map]
    exact nodup_sources (nodup_keys_ofList files) root extension
  exact (hdistinct.and (pairwise_sources (ofList files) root extension)).imp
    fun h => Path.before_of_le h.2 h.1

end MemoryFiles

/-! ## Compilations -/

/-- **The order in which files are added does not matter.** Files with different paths that are
added in another order give the same pack and the same reports. The source files are the same list,
in strictly ascending order: those of the files that lie below the directory and have the
extension. -/
theorem Compiler.compile_perm (compiler : Compiler) (root : Path) {a b : List (Path × String)}
    (hdistinct : (a.map fun file => file.1.components).Nodup) (hperm : a.Perm b) :
    compiler.compile (MemoryFiles.ofList a).view root
        = compiler.compile (MemoryFiles.ofList b).view root
      ∧ ∀ (directory : Path) (extension : String),
        ∃ sources, (MemoryFiles.ofList a).view.sources directory extension = .ok sources
          ∧ (MemoryFiles.ofList b).view.sources directory extension = .ok sources
          ∧ sources.Pairwise Path.Before
          ∧ ∀ path, path ∈ sources ↔ (∃ text, (path, text) ∈ a)
            ∧ directory.components <+: path.components ∧ path.extension? = some extension := by
  have hview := MemoryFiles.view_perm hdistinct hperm
  refine ⟨by rw [hview], fun directory extension => ?_⟩
  refine ⟨(MemoryFiles.ofList a).sources directory extension, rfl, ?_, ?_, fun path => ?_⟩
  · rw [← hview]
    rfl
  · exact MemoryFiles.pairwise_before_sources a directory extension
  · have hbelow : path.startsWith directory = true
        ↔ directory.components <+: path.components := List.isPrefixOf_iff_prefix
    have hextension : path.hasExtension extension = true
        ↔ path.extension? = some extension := decide_eq_true_iff
    rw [MemoryFiles.mem_sources_iff, MemoryFiles.entries_ofList hdistinct, hbelow, hextension]

/-- Two source files that refer to textures of the same name, which are numbered as they come. -/
def sameNamePack : List (Path × String) :=
  [(⟨"pack/b.rep"⟩, "any for\x7bitems='y/t'\x7d"), (⟨"pack/y/t.png"⟩, ""),
    (⟨"pack/a.rep"⟩, "any for\x7bitems='x/t'\x7d"), (⟨"pack/x/t.png"⟩, "")]

theorem Compiler.compile_perm_sameNamePack :
    (sameNamePack.map fun file => file.1.components).Nodup
      ∧ sameNamePack.Perm sameNamePack.reverse
      ∧ Compiler.compile ⟨{}, {}⟩ (MemoryFiles.ofList sameNamePack).view ⟨"pack"⟩
        = Compiler.compile ⟨{}, {}⟩ (MemoryFiles.ofList sameNamePack.reverse).view ⟨"pack"⟩
      ∧ ∃ sources,
        (MemoryFiles.ofList sameNamePack.reverse).view.sources ⟨"pack"⟩ "rep" = .ok sources
        ∧ sources.Pairwise Path.Before ∧ Path.mk "pack/a.rep" ∈ sources
        ∧ Path.mk "pack/b.rep" ∈ sources ∧ Path.mk "pack/x/t.png" ∉ sources := by
  have hdistinct : (sameNamePack.map fun file => file.1.components).Nodup := by decide +kernel
  have hperm : sameNamePack.Perm sameNamePack.reverse := (List.reverse_perm sameNamePack).symm
  obtain ⟨hcompile, hsources⟩ := Compiler.compile_perm ⟨{}, {}⟩ ⟨"pack"⟩ hdistinct hperm
  obtain ⟨sources, -, hreversed, hascending, hmem⟩ := hsources ⟨"pack"⟩ "rep"
  have hbelow : (Path.mk "pack").components <+: (Path.mk "pack/a.rep").components
      ∧ (Path.mk "pack").components <+: (Path.mk "pack/b.rep").components := by
    decide +kernel
  have hextensions : (Path.mk "pack/a.rep").extension? = some "rep"
      ∧ (Path.mk "pack/b.rep").extension? = some "rep"
      ∧ (Path.mk "pack/x/t.png").extension? ≠ some "rep" := by
    decide +kernel
  have htext : (Path.mk "pack/a.rep", "any for\x7bitems='x/t'\x7d") ∈ sameNamePack :=
    List.mem_cons_of_mem _ (List.mem_cons_of_mem _ List.mem_cons_self)
  refine ⟨hdistinct, hperm, hcompile, sources, hreversed, hascending, ?_, ?_, ?_⟩
  · exact (hmem _).mpr ⟨⟨_, htext⟩, hbelow.1, hextensions.1⟩
  · exact (hmem _).mpr ⟨⟨_, List.mem_cons_self⟩, hbelow.2, hextensions.2.1⟩
  · exact fun htexture => hextensions.2.2 ((hmem _).mp htexture).2.2

end Reskin
