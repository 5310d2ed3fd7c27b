import Reskin.Proofs.List
import Reskin.PropertyFile

/-!
# Merging property files

Property files are merged one by one: a new one is absorbed by the one with the same identity, or
goes to the end. What comes out is described without that process, and without identities, by
`mergeAll`: the first file of each sort, in order, with the union of the items of all files that
belong together with it.

* **`addNew_addNew`**, **`ItemSelection.absorb_assoc`** — absorbing is associative, which is what
  makes it irrelevant how the files are bracketed.
* **`addTo_addTo_same`**, **`addAll_addTo_comm`** — two files of one identity can be absorbed
  together, and a file whose identity is known can be absorbed earlier or later.
* **`IsLike`** — which files belong together, field by field; `isLike_iff` says that these are the
  files of one identity.
* **`addAll_nil_eq_mergeAll`** — merging one by one is `mergeAll`.
-/

namespace Reskin

/-! ## Adding what is new -/

namespace ItemSelection

theorem addNew_nil (known : List String) : addNew known [] = known := rfl

theorem addNew_append (known a b : List String) :
    addNew known (a ++ b) = addNew (addNew known a) b :=
  List.foldl_append

theorem addNew_snoc (known ids : List String) (id : String) :
    addNew known (ids ++ [id])
      = if (addNew known ids).contains id then addNew known ids else addNew known ids ++ [id] := by
  rw [addNew_append]
  rfl

theorem mem_addNew {known ids : List String} {id : String} :
    id ∈ addNew known ids ↔ id ∈ known ∨ id ∈ ids := by
  induction ids using List.reverseRecOn with
  | nil => simp [addNew_nil]
  | append_singleton ids last ih =>
    rw [addNew_snoc]
    split
    · next hknown =>
      rw [List.contains_iff_mem] at hknown
      rw [List.mem_append, List.mem_singleton, ← or_assoc, ← ih]
      refine ⟨.inl, ?_⟩
      rintro (h | rfl)
      · exact h
      · exact hknown
    · rw [List.mem_append, List.mem_append, ih, or_assoc]

/-- Ids that were added to some others are added with them. So it does not matter in which portions
items are merged. -/
theorem addNew_addNew (a b c : List String) :
    addNew a (addNew b c) = addNew (addNew a b) c := by
  induction c using List.reverseRecOn with
  | nil => rfl
  | append_singleton c last ih =>
    rw [addNew_snoc, addNew_snoc]
    by_cases hbc : last ∈ addNew b c
    · -- The id is in both lists on the right, so it is in the list on the left as well.
      have habc : last ∈ addNew (addNew a b) c := by
        rw [← ih]
        exact mem_addNew.mpr (.inr hbc)
      rw [if_pos (List.contains_iff_mem.mpr hbc), if_pos (List.contains_iff_mem.mpr habc), ih]
    · rw [if_neg (by simpa using hbc), addNew_snoc, ih]

/-- Adding to nothing keeps the first occurrence of each id. -/
theorem addNew_nil_left (ids : List String) : addNew [] ids = ids.eraseDups := by
  induction ids using List.reverseRecOn with
  | nil => rfl
  | append_singleton ids last ih =>
    rw [addNew_snoc, ih, eraseDups_snoc]

/-! ## Unions of selections -/

/-- Whether a selection is everything of its kind. -/
def isAll : ItemSelection → Bool
  | all => true
  | only _ => false

/-- The items that a selection lists. -/
def ids : ItemSelection → List String
  | all => []
  | only ids => ids

/-- Everything if one of the selections is, else the items of all of them, in the order in which
they are first listed. -/
def union (selections : List ItemSelection) : ItemSelection :=
  if selections.any isAll then all else only (selections.flatMap ids).eraseDups

theorem absorb_all (selection : ItemSelection) : selection.absorb all = all := by
  cases selection <;> rfl

/-- Selections may be absorbed one after the other or together. -/
theorem absorb_assoc (a b c : ItemSelection) : (a.absorb b).absorb c = a.absorb (b.absorb c) := by
  cases a with
  | all => rfl
  | only a =>
    cases b with
    | all => rfl
    | only b =>
      cases c with
      | all => rfl
      | only c => exact congrArg only (addNew_addNew a b c).symm

/-- One more selection is absorbed by the union of the others. This ties the union, which looks at
all selections at once, to the process that takes them one by one. -/
theorem union_snoc (selections : List ItemSelection) (selection : ItemSelection) :
    union (selections ++ [selection]) = (union selections).absorb selection := by
  cases selection with
  | all => simp [union, isAll, absorb_all]
  | only ids =>
    by_cases hall : selections.any isAll = true
    · simp [union, hall, absorb]
    · have hall' : (selections ++ [only ids]).any isAll = false := by
        simpa [isAll] using hall
      rw [union, union, if_neg hall, hall', if_neg Bool.false_ne_true, absorb,
        ← addNew_nil_left, ← addNew_nil_left, ← addNew_append]
      simp [ItemSelection.ids]

/-- Whether a selection lists no item twice. -/
def IsDistinct (selection : ItemSelection) : Prop :=
  selection.ids.Nodup

theorem isDistinct_all : IsDistinct all := .nil

theorem isDistinct_ofList (ids : List String) : IsDistinct (ofList ids) := by
  show (addNew [] ids).Nodup
  rw [addNew_nil_left]
  exact nodup_eraseDups ids

/-- A selection that lists no item twice is its own union. -/
theorem union_singleton {selection : ItemSelection} (h : selection.IsDistinct) :
    union [selection] = selection := by
  cases selection with
  | all => rfl
  | only ids =>
    show only ([only ids].flatMap ItemSelection.ids).eraseDups = only ids
    rw [List.flatMap_singleton]
    exact congrArg only (eraseDups_of_nodup h)

end ItemSelection

namespace PropertyFile

/-! ## Merging one file

`addTo` walks along a list of files. Seen from outside, it changes the one file that has the same
identity, or adds a file at the end. -/

/-- A file with the items of another one as well. -/
def absorb (file other : PropertyFile) : PropertyFile :=
  { file with items := file.items.absorb other.items }

@[simp] theorem identity_absorb (file other : PropertyFile) :
    (file.absorb other).identity = file.identity := rfl

theorem addTo_cons_of_eq {file known : PropertyFile} {rest : List PropertyFile}
    (h : known.identity = file.identity) : file.addTo (known :: rest) = known.absorb file :: rest :=
  if_pos h

theorem addTo_cons_of_ne {file known : PropertyFile} {rest : List PropertyFile}
    (h : known.identity ≠ file.identity) : file.addTo (known :: rest) = known :: file.addTo rest :=
  if_neg h

/-- Adding a file adds its identity, if that is new, and no other. -/
theorem mem_identity_addTo {file : PropertyFile} {files : List PropertyFile}
    {identity : Identity} :
    identity ∈ (file.addTo files).map PropertyFile.identity
      ↔ identity ∈ files.map PropertyFile.identity ∨ identity = file.identity := by
  induction files with
  | nil => simp [addTo]
  | cons known rest ih =>
    by_cases h : known.identity = file.identity
    · rw [addTo_cons_of_eq h]
      simp only [List.map_cons, List.mem_cons, identity_absorb, ← h]
      tauto
    · rw [addTo_cons_of_ne h, List.map_cons, List.mem_cons, ih, List.map_cons, List.mem_cons,
        or_assoc]

/-- A file of a known identity changes the files of that identity, of which there is one. -/
theorem addTo_of_mem {file : PropertyFile} {files : List PropertyFile}
    (hdistinct : (files.map identity).Nodup) (hmem : file.identity ∈ files.map identity) :
    file.addTo files = files.map fun known =>
      if known.identity = file.identity then known.absorb file else known := by
  induction files with
  | nil => cases hmem
  | cons known rest ih =>
    rw [List.map_cons, List.nodup_cons] at hdistinct
    rw [List.map_cons]
    by_cases h : known.identity = file.identity
    · rw [addTo_cons_of_eq h, if_pos h]
      have hrest : ∀ other ∈ rest,
          (if other.identity = file.identity then other.absorb file else other) = other := by
        intro other hother
        have hne : other.identity ≠ file.identity := fun heq =>
          hdistinct.1 (h.trans heq.symm ▸ List.mem_map_of_mem hother)
        exact if_neg hne
      rw [List.map_congr_left hrest, List.map_id']
    · rw [addTo_cons_of_ne h, if_neg h, ih hdistinct.2]
      exact (List.mem_cons.mp hmem).resolve_left fun heq => h heq.symm

/-- A file of a new identity goes to the end. -/
theorem addTo_of_not_mem {file : PropertyFile} {files : List PropertyFile}
    (h : file.identity ∉ files.map identity) : file.addTo files = files ++ [file] := by
  induction files with
  | nil => rfl
  | cons known rest ih =>
    rw [List.map_cons, List.mem_cons, not_or] at h
    rw [addTo_cons_of_ne (Ne.symm h.1), ih h.2]
    rfl

/-! ## Merging several files -/

/-- Two files of one identity are absorbed one after the other or together. Induction on the files
that are there. -/
theorem addTo_addTo_same {file other : PropertyFile} (h : other.identity = file.identity)
    (files : List PropertyFile) :
    other.addTo (file.addTo files) = (file.absorb other).addTo files := by
  induction files with
  | nil => exact addTo_cons_of_eq h.symm
  | cons known rest ih =>
    by_cases hknown : known.identity = file.identity
    · have hother : (known.absorb file).identity = other.identity := hknown.trans h.symm
      have hboth : known.identity = (file.absorb other).identity := hknown
      rw [addTo_cons_of_eq hknown, addTo_cons_of_eq hother, addTo_cons_of_eq hboth]
      simp only [absorb, ItemSelection.absorb_assoc]
    · have hboth : known.identity ≠ (file.absorb other).identity := hknown
      rw [addTo_cons_of_ne hknown, addTo_cons_of_ne (h ▸ hknown), addTo_cons_of_ne hboth, ih]

/-- A file of a known identity is absorbed before or after a file of another identity. The identity
must be known, since new files go to the end in the order in which they come. -/
theorem addTo_addTo_comm {file other : PropertyFile} {files : List PropertyFile}
    (hne : file.identity ≠ other.identity) (hmem : other.identity ∈ files.map identity) :
    other.addTo (file.addTo files) = file.addTo (other.addTo files) := by
  induction files with
  | nil => cases hmem
  | cons known rest ih =>
    by_cases hother : known.identity = other.identity
    · -- `other` stops here, and `file` goes on past it in either order.
      have hfile : known.identity ≠ file.identity := fun h => hne (h.symm.trans hother)
      have hfile' : (known.absorb other).identity ≠ file.identity := hfile
      rw [addTo_cons_of_ne hfile, addTo_cons_of_eq hother, addTo_cons_of_eq hother,
        addTo_cons_of_ne hfile']
    · have hrest := (List.mem_cons.mp hmem).resolve_left fun h => hother h.symm
      by_cases hfile : known.identity = file.identity
      · have hother' : (known.absorb file).identity ≠ other.identity := hother
        rw [addTo_cons_of_eq hfile, addTo_cons_of_ne hother, addTo_cons_of_ne hother',
          addTo_cons_of_eq hfile]
      · rw [addTo_cons_of_ne hfile, addTo_cons_of_ne hother, addTo_cons_of_ne hother,
          addTo_cons_of_ne hfile, ih hrest]

/-- Merges files in order into a list of files. -/
def addAll (files known : List PropertyFile) : List PropertyFile :=
  files.foldl (fun known file => file.addTo known) known

theorem addAll_cons (file : PropertyFile) (files known : List PropertyFile) :
    addAll (file :: files) known = addAll files (file.addTo known) := rfl

theorem addAll_append (a b known : List PropertyFile) :
    addAll (a ++ b) known = addAll b (addAll a known) :=
  List.foldl_append

/-- A file of a known identity is absorbed before or after files of other identities. This is what
moves the file of a rule past those of the groups behind its own. -/
theorem addAll_addTo_comm {other : PropertyFile} {files known : List PropertyFile}
    (hne : ∀ file ∈ files, file.identity ≠ other.identity)
    (hmem : other.identity ∈ known.map identity) :
    addAll files (other.addTo known) = other.addTo (addAll files known) := by
  induction files generalizing known with
  | nil => rfl
  | cons file files ih =>
    have hmem' : other.identity ∈ (file.addTo known).map identity :=
      mem_identity_addTo.mpr (.inl hmem)
    rw [addAll_cons, addAll_cons, ← addTo_addTo_comm (hne file List.mem_cons_self) hmem,
      ih (fun f hf => hne f (List.mem_cons_of_mem file hf)) hmem']

/-! ## Merging without the process -/

/-- Whether two files belong together: they replace the same sort of thing by the same target, for
the same kind of items and with the same weight, and their conditions have the same keys and values,
in the same order. The places of the conditions in the source files do not matter. -/
def IsLike (a b : PropertyFile) : Prop :=
  a.variant = b.variant ∧ a.kind = b.kind ∧ a.target = b.target
    ∧ (a.conditions.map fun condition => condition.key.text)
      = (b.conditions.map fun condition => condition.key.text)
    ∧ a.conditions.map Entry.value = b.conditions.map Entry.value
    ∧ a.weight = b.weight

instance (a b : PropertyFile) : Decidable (a.IsLike b) :=
  inferInstanceAs (Decidable (_ ∧ _))

/-- The files that no file in front of them belongs together with. -/
def firsts (files : List PropertyFile) : List PropertyFile :=
  files.eraseDupsBy fun a b => decide (a.IsLike b)

/-- A file with the items of all the files that it belongs together with. -/
def gather (files : List PropertyFile) (first : PropertyFile) : PropertyFile :=
  { first with items := .union ((files.filter (·.IsLike first)).map items) }

/-- The first file of each sort, with the items of all the files that belong together with it. -/
def mergeAll (files : List PropertyFile) : List PropertyFile :=
  (firsts files).map (gather files)

/-- Two lists of entries have the same keys and the same values just if they have the same pairs of
both. -/
theorem map_key_value_eq_iff {a b : List Entry} :
    (a.map fun entry => entry.key.text) = (b.map fun entry => entry.key.text)
        ∧ a.map Entry.value = b.map Entry.value
      ↔ (a.map fun entry => (entry.key.text, entry.value))
        = b.map fun entry => (entry.key.text, entry.value) := by
  constructor
  · rintro ⟨hkeys, hvalues⟩
    have hzip := congrArg₂ List.zip hkeys hvalues
    rwa [List.zip_map', List.zip_map'] at hzip
  · intro hpairs
    have hkeys := congrArg (List.map Prod.fst) hpairs
    have hvalues := congrArg (List.map Prod.snd) hpairs
    rw [List.map_map, List.map_map] at hkeys hvalues
    exact ⟨hkeys, hvalues⟩

/-- **Files that belong together are those of one identity**, which is what the process compares.
The definition of `IsLike` does not use `identity`, so that the result below can be read without
it. -/
theorem isLike_iff {a b : PropertyFile} : a.IsLike b ↔ a.identity = b.identity := by
  simp only [identity, Identity.mk.injEq, ← map_key_value_eq_iff, IsLike, and_assoc]

theorem firsts_eq (files : List PropertyFile) :
    firsts files = files.eraseDupsBy fun a b => a.identity == b.identity := by
  rw [firsts]
  congr
  funext a b
  rw [Bool.eq_iff_iff, decide_eq_true_iff, isLike_iff, beq_iff_eq]

theorem gather_eq (files : List PropertyFile) (first : PropertyFile) :
    gather files first = { first with
      items := .union ((files.filter (·.identity = first.identity)).map items) } := by
  simp only [gather, isLike_iff]

/-- One more file of the same identity is absorbed. -/
theorem gather_snoc_of_eq {first file : PropertyFile} (files : List PropertyFile)
    (h : file.identity = first.identity) :
    gather (files ++ [file]) first = (gather files first).absorb file := by
  simp [gather_eq, absorb, h, ItemSelection.union_snoc]

theorem gather_snoc_of_ne {first file : PropertyFile} (files : List PropertyFile)
    (h : file.identity ≠ first.identity) :
    gather (files ++ [file]) first = gather files first := by
  simp [gather_eq, h]

/-- The first file of an identity is gathered to itself. -/
theorem gather_snoc_of_not_mem {file : PropertyFile} {files : List PropertyFile}
    (h : file.identity ∉ files.map identity) (hitems : file.items.IsDistinct) :
    gather (files ++ [file]) file = file := by
  have hnone : files.filter (·.identity = file.identity) = [] := by
    rw [List.filter_eq_nil_iff]
    intro other hother heq
    exact h (of_decide_eq_true heq ▸ List.mem_map_of_mem hother)
  rw [gather_eq, List.filter_append, hnone]
  simp [ItemSelection.union_singleton hitems]

theorem map_identity_firsts (files : List PropertyFile) :
    (firsts files).map identity = (files.map identity).eraseDups := by
  rw [firsts_eq]
  exact map_eraseDupsBy identity files

/-- The merged files have each identity once, in the order in which identities come up. -/
theorem map_identity_mergeAll (files : List PropertyFile) :
    (mergeAll files).map identity = (files.map identity).eraseDups := by
  rw [← map_identity_firsts, mergeAll, List.map_map]
  rfl

/-- One more file is a first one just if its identity is new. -/
theorem firsts_snoc (files : List PropertyFile) (file : PropertyFile) :
    firsts (files ++ [file])
      = if file.identity ∈ files.map identity then firsts files else firsts files ++ [file] := by
  have hany : ((firsts files).any fun first => file.identity == first.identity) = true
      ↔ file.identity ∈ files.map identity := by
    rw [← List.mem_eraseDups, ← map_identity_firsts, List.any_eq_true, List.mem_map]
    exact exists_congr fun first => and_congr_right fun _ => beq_iff_eq.trans eq_comm
  rw [firsts_eq, firsts_eq, eraseDupsBy_snoc, ← firsts_eq]
  exact if_congr hany rfl rfl

/-- One more file is merged by adding it. If its identity is known, it changes the one file that has
it; else it goes to the end. This is the step of `addAll_nil_eq_mergeAll`. -/
theorem mergeAll_snoc (files : List PropertyFile) {file : PropertyFile}
    (hitems : file.items.IsDistinct) :
    mergeAll (files ++ [file]) = file.addTo (mergeAll files) := by
  have hknown : file.identity ∈ (mergeAll files).map identity
      ↔ file.identity ∈ files.map identity := by
    rw [map_identity_mergeAll, List.mem_eraseDups]
  rw [mergeAll, firsts_snoc]
  by_cases hmem : file.identity ∈ files.map identity
  · -- The file of that identity takes the new items in, and the others gather what they did.
    have hdistinct : ((mergeAll files).map identity).Nodup := by
      rw [map_identity_mergeAll]
      exact nodup_eraseDups _
    rw [if_pos hmem, addTo_of_mem hdistinct (hknown.mpr hmem), mergeAll, List.map_map]
    refine List.map_congr_left fun first _ => ?_
    by_cases heq : first.identity = file.identity
    · rw [gather_snoc_of_eq files heq.symm]
      exact (if_pos heq).symm
    · rw [gather_snoc_of_ne files (Ne.symm heq)]
      exact (if_neg heq).symm
  · -- The file is the first of its identity and gathers its own items only.
    rw [if_neg hmem, addTo_of_not_mem (mt hknown.mp hmem), List.map_append, List.map_singleton,
      gather_snoc_of_not_mem hmem hitems]
    congr 1
    refine List.map_congr_left fun first hfirst => gather_snoc_of_ne files fun heq => hmem ?_
    rw [← List.mem_eraseDups, ← map_identity_firsts, heq]
    exact List.mem_map_of_mem hfirst

/-- Merging files one by one gives the first file of each identity, with the items of all files of
that identity. Induction from the end. -/
theorem addAll_nil_eq_mergeAll {files : List PropertyFile}
    (hitems : ∀ file ∈ files, file.items.IsDistinct) : addAll files [] = mergeAll files := by
  induction files using List.reverseRecOn with
  | nil => rfl
  | append_singleton files file ih =>
    have hfiles := List.forall_mem_append.mp hitems
    rw [addAll_append, ih hfiles.1, mergeAll_snoc files (hfiles.2 file List.mem_cons_self)]
    rfl

end PropertyFile

end Reskin
