import Reskin.Disk
import Reskin.Proofs.Pack.Tree

/-!
# Addresses on a disk

An entry of a disk has an address, the names that lead to it. A path leads to an address if it is
followed through directories that are there. To follow a path further by one plain name is to go one
name deeper, however the path was written.

* **`IsPlainName`** — a name that stands for itself when it is followed.
* **`get?_alter_of_not_prefix`**, **`hasDirectory_alter`**, **`get?_alter_self`** — what is at an
  address after an entry was put at another one.
* **`LeadsTo`**, **`Names`** — a path to a directory that is there, and a path to a name in one.
* **`LeadsTo.names_join`** — a plain name behind a path to a directory is a name in it.
-/

namespace Reskin

/-- A name that stands for itself when it is followed. -/
structure IsPlainName (name : String) : Prop where
  ne_empty : name ≠ ""
  ne_current : name ≠ "."
  ne_parent : name ≠ ".."
  no_slash : '/' ∉ name.toList

theorem isPlainName_iff {name : String} :
    IsPlainName name ↔ name ≠ "" ∧ name ≠ "." ∧ name ≠ ".." ∧ '/' ∉ name.toList :=
  ⟨fun h => ⟨h.1, h.2, h.3, h.4⟩, fun h => ⟨h.1, h.2.1, h.2.2.1, h.2.2.2⟩⟩

instance (name : String) : Decidable (IsPlainName name) :=
  decidable_of_iff _ isPlainName_iff.symm

/-- The segments that are not followed as names, as lists of characters. A disk follows segments,
while names are texts. -/
theorem IsPlainName.toList_ne {name : String} (h : IsPlainName name) :
    name.toList ≠ [] ∧ name.toList ≠ ['.'] ∧ name.toList ≠ ['.', '.'] := by
  have heq : ∀ text : String, name.toList = text.toList → name = text :=
    fun _ => String.toList_inj.mp
  refine ⟨fun hlist => h.ne_empty (heq "" ?_), fun hlist => h.ne_current (heq "." ?_),
    fun hlist => h.ne_parent (heq ".." ?_)⟩
  all_goals
    rw [hlist]
    decide

/-- A segment is a plain name if it is none of these and holds no separator. -/
theorem isPlainName_ofList {segment : List Char} (hne : segment ≠ []) (hcurrent : segment ≠ ['.'])
    (hparent : segment ≠ ['.', '.']) (hslash : '/' ∉ segment) :
    IsPlainName (String.ofList segment) := by
  have heq : ∀ text : String, String.ofList segment = text → segment = text.toList := by
    intro text htext
    rw [← htext, String.toList_ofList]
  refine ⟨fun h => hne ?_, fun h => hcurrent ?_, fun h => hparent ?_, ?_⟩
  · rw [heq "" h]
    decide
  · rw [heq "." h]
    decide
  · rw [heq ".." h]
    decide
  · rwa [String.toList_ofList]

/-- A path that starts with a plain name is relative, so joining it does not replace the path before
it. -/
theorem IsPlainName.head?_append_ne {name : String} (h : IsPlainName name) (rest : String) :
    (name ++ rest).toList.head? ≠ some '/' := by
  rw [String.toList_append, List.head?_append_of_ne_nil _ h.toList_ne.1]
  exact fun hhead => h.no_slash (List.mem_of_head? hhead)

/-! ## Entries -/

namespace DiskEntry

open PackTree (lookup_cons)

variable {root entry : DiskEntry} {address target : List String}
  {entries : List (String × DiskEntry)} {name other : String}
  {f : Option DiskEntry → Option DiskEntry}

/-- A change by name leaves the entries of other names alone, whether it changes, adds or removes
one. -/
theorem lookup_alterNamed_of_ne (h : other ≠ name) :
    (alterNamed name f entries).lookup other = entries.lookup other := by
  -- What is added or changed has another name.
  have hskip : ∀ (found : Option DiskEntry) (rest : List (String × DiskEntry)),
      ((found.map fun entry => (name, entry)).toList ++ rest).lookup other
        = rest.lookup other := by
    intro found rest
    cases found with
    | none => rfl
    | some entry =>
      show ((name, entry) :: rest).lookup other = _
      rw [lookup_cons, if_neg h]
  induction entries with
  | nil =>
    have hnone := hskip (f none) []
    rwa [List.append_nil] at hnone
  | cons known rest ih =>
    obtain ⟨known, entry⟩ := known
    rw [alterNamed, lookup_cons]
    by_cases hknown : known = name
    · rw [if_pos hknown, hknown, hskip, if_neg h]
    · rw [if_neg hknown, lookup_cons, ih]

/-- A change by name is seen under that name. It must not remove the entry, since another entry of
the same name could then come to light. -/
theorem lookup_alterNamed_self (hf : ∀ entry, (f (some entry)).isSome) :
    (alterNamed name f entries).lookup name = f (entries.lookup name) := by
  induction entries with
  | nil =>
    rw [alterNamed, List.lookup_nil]
    cases f none with
    | none => rfl
    | some entry =>
      show ((name, entry) :: []).lookup name = _
      rw [lookup_cons, if_pos rfl]
  | cons known rest ih =>
    obtain ⟨known, entry⟩ := known
    rw [alterNamed, lookup_cons]
    by_cases hknown : known = name
    · obtain ⟨changed, hchanged⟩ := Option.isSome_iff_exists.mp (hf entry)
      rw [if_pos hknown, if_pos hknown.symm, hchanged, hknown]
      show ((name, changed) :: rest).lookup name = _
      rw [lookup_cons, if_pos rfl]
    · rw [if_neg hknown, if_neg (Ne.symm hknown), lookup_cons, if_neg (Ne.symm hknown), ih]

/-- Whether a directory is at an address. -/
def HasDirectory (root : DiskEntry) (address : List String) : Prop :=
  ∃ entries, root.get? address = some (.directory entries)

/-- An address is followed in two steps as well as in one. -/
theorem get?_append (a b : List String) : root.get? (a ++ b) = (root.get? a).bind (get? b) := by
  induction a generalizing root with
  | nil => rfl
  | cons name a ih =>
    cases root with
    | file content => rfl
    | directory entries =>
      rw [List.cons_append, get?, get?]
      cases entries.lookup name with
      | none => rfl
      | some entry => exact ih

theorem hasDirectory_nil : (directory entries).HasDirectory [] :=
  ⟨entries, rfl⟩

/-- A directory below a name is a directory in what has that name. -/
theorem hasDirectory_cons :
    (directory entries).HasDirectory (name :: address)
      ↔ ∃ inner, entries.lookup name = some inner ∧ inner.HasDirectory address := by
  constructor
  · rintro ⟨found, hfound⟩
    obtain ⟨inner, hinner, hfound⟩ := Option.bind_eq_some_iff.mp hfound
    exact ⟨inner, hinner, found, hfound⟩
  · rintro ⟨inner, hinner, found, hfound⟩
    exact ⟨found, Option.bind_eq_some_iff.mpr ⟨inner, hinner, hfound⟩⟩

theorem not_hasDirectory_file {content : ByteArray} : ¬(file content).HasDirectory address := by
  rintro ⟨entries, hentries⟩
  cases address <;> cases hentries

theorem not_hasDirectory_of_eq_none (h : root.get? address = none) :
    ¬root.HasDirectory address := by
  rintro ⟨entries, hentries⟩
  rw [h] at hentries
  cases hentries

/-- A directory below an entry makes it a directory. -/
theorem HasDirectory.nil (h : root.HasDirectory address) : root.HasDirectory [] := by
  cases root with
  | file content => exact absurd h not_hasDirectory_file
  | directory entries => exact hasDirectory_nil

/-! ## Changes -/

theorem alter_cons (rest : List String) (hrest : rest ≠ []) :
    (directory entries).alter f (name :: rest)
      = directory (alterNamed name (fun entry => entry.map (alter f rest)) entries) := by
  cases rest with
  | nil => exact absurd rfl hrest
  | cons next rest => rfl

theorem alter_file {content : ByteArray} (rest : List String) :
    (file content).alter f (name :: rest) = file content := by
  cases rest <;> rfl

/-- What is beside the address of a change stays as it is. Only what is below the address and what
is on the way to it can look different. -/
theorem get?_alter_of_not_prefix (h : ¬target <+: address) (h' : ¬address <+: target) :
    (root.alter (fun _ => some entry) target).get? address = root.get? address := by
  induction target generalizing root address with
  | nil => exact absurd List.nil_prefix h
  | cons name rest ih =>
    cases address with
    | nil => exact absurd List.nil_prefix h'
    | cons other address =>
      cases root with
      | file content => rw [alter_file]
      | directory entries =>
        by_cases hname : other = name
        · subst hname
          rw [List.prefix_cons_inj] at h h'
          have hrest : rest ≠ [] := fun hnil => h (hnil ▸ List.nil_prefix)
          rw [alter_cons rest hrest, get?, get?, lookup_alterNamed_self fun _ => rfl]
          cases entries.lookup other with
          | none => rfl
          | some inner => exact ih h h'
        · cases rest with
          | nil => rw [alter, get?, get?, lookup_alterNamed_of_ne hname]
          | cons next rest =>
            rw [alter_cons _ (List.cons_ne_nil next rest), get?, get?,
              lookup_alterNamed_of_ne hname]

/-- Directories stay unless the change is at their own address. Induction on the address of the
change; where the two addresses part, the entry is not touched. -/
theorem hasDirectory_alter (htarget : ¬root.HasDirectory target) (h : root.HasDirectory address) :
    (root.alter (fun _ => some entry) target).HasDirectory address := by
  induction target generalizing root address with
  | nil => exact absurd h.nil htarget
  | cons name rest ih =>
    cases root with
    | file content => exact absurd h not_hasDirectory_file
    | directory entries =>
      cases address with
      | nil => cases rest <;> exact hasDirectory_nil
      | cons other address =>
        obtain ⟨inner, hinner, hdirectory⟩ := hasDirectory_cons.mp h
        by_cases hname : other = name
        · subst hname
          rw [hasDirectory_cons] at htarget
          have hinner' : ¬inner.HasDirectory rest := fun hrest => htarget ⟨inner, hinner, hrest⟩
          -- The change is deeper, since a directory is not replaced.
          have hrest : rest ≠ [] := fun hnil => hinner' (hnil ▸ hdirectory.nil)
          rw [alter_cons rest hrest, hasDirectory_cons, lookup_alterNamed_self fun _ => rfl, hinner]
          exact ⟨_, rfl, ih hinner' hdirectory⟩
        · cases rest with
          | nil =>
            rw [alter, hasDirectory_cons, lookup_alterNamed_of_ne hname]
            exact ⟨inner, hinner, hdirectory⟩
          | cons next rest =>
            rw [alter_cons _ (List.cons_ne_nil next rest), hasDirectory_cons,
              lookup_alterNamed_of_ne hname]
            exact ⟨inner, hinner, hdirectory⟩

/-- An entry is where it was put, if the directory that it was put into is there. -/
theorem get?_alter_self (h : root.HasDirectory address) :
    (root.alter (fun _ => some entry) (address ++ [name])).get? (address ++ [name])
      = some entry := by
  induction address generalizing root with
  | nil =>
    cases root with
    | file content => exact absurd h not_hasDirectory_file
    | directory entries =>
      show ((directory entries).alter _ [name]).get? [name] = _
      rw [alter, get?, lookup_alterNamed_self fun _ => rfl]
      rfl
  | cons next address ih =>
    cases root with
    | file content => exact absurd h not_hasDirectory_file
    | directory entries =>
      obtain ⟨inner, hinner, hdirectory⟩ := hasDirectory_cons.mp h
      rw [List.cons_append, alter_cons _ (List.concat_ne_nil name address), get?,
        lookup_alterNamed_self fun _ => rfl, hinner]
      exact ih hdirectory

/-! ## Names -/

mutual

def HasPlainNames : DiskEntry → Prop
  | file _ => True
  | directory entries => HavePlainNames entries

def HavePlainNames : List (String × DiskEntry) → Prop
  | [] => True
  | (name, entry) :: rest => IsPlainName name ∧ entry.HasPlainNames ∧ HavePlainNames rest

end

/-- What is found below an entry with plain names has plain names. -/
theorem hasPlainNames_of_lookup (h : HavePlainNames entries)
    (hentry : entries.lookup name = some entry) : entry.HasPlainNames := by
  induction entries with
  | nil => cases hentry
  | cons known rest ih =>
    obtain ⟨known, value⟩ := known
    rw [HavePlainNames] at h
    rw [lookup_cons] at hentry
    split at hentry
    · cases hentry
      exact h.2.1
    · exact ih h.2.2 hentry

/-- So has what is found at any address. -/
theorem HasPlainNames.get? (h : root.HasPlainNames) (hentry : root.get? address = some entry) :
    entry.HasPlainNames := by
  induction address generalizing root with
  | nil =>
    cases hentry
    exact h
  | cons name address ih =>
    cases root with
    | file content => cases hentry
    | directory entries =>
      rw [HasPlainNames] at h
      obtain ⟨inner, hinner, hentry⟩ := Option.bind_eq_some_iff.mp hentry
      exact ih (hasPlainNames_of_lookup h hinner) hentry

/-- A change by name keeps names plain if the name and the new entry are, for whatever entry was
there before. -/
theorem havePlainNames_alterNamed (h : HavePlainNames entries)
    (hf : ∀ known, (∀ entry ∈ known, IsPlainName name ∧ entry.HasPlainNames) →
      ∀ entry ∈ f known, IsPlainName name ∧ entry.HasPlainNames) :
    HavePlainNames (alterNamed name f entries) := by
  have hadd : ∀ known, (∀ entry ∈ known, IsPlainName name ∧ entry.HasPlainNames) →
      ∀ rest, HavePlainNames rest →
        HavePlainNames (((f known).map fun entry => (name, entry)).toList ++ rest) := by
    intro known hknown rest hrest
    cases hchanged : f known with
    | none => exact hrest
    | some entry =>
      show HavePlainNames ((name, entry) :: rest)
      obtain ⟨hname, hentry⟩ := hf known hknown entry hchanged
      rw [HavePlainNames]
      exact ⟨hname, hentry, hrest⟩
  induction entries with
  | nil =>
    have hnone := hadd none (fun _ hnone => nomatch hnone) [] h
    rwa [List.append_nil] at hnone
  | cons known rest ih =>
    obtain ⟨known, entry⟩ := known
    rw [HavePlainNames] at h
    rw [alterNamed]
    by_cases hknown : known = name
    · rw [if_pos hknown, hknown]
      refine hadd (some entry) (fun found hfound => ?_) rest h.2.2
      cases hfound
      exact ⟨hknown ▸ h.1, h.2.1⟩
    · rw [if_neg hknown, HavePlainNames]
      exact ⟨h.1, h.2.1, ih h.2.2⟩

/-- A change adds at most the last name of its address. The names on the way are those of
directories that are there. -/
theorem HasPlainNames.alter (h : root.HasPlainNames) (hname : IsPlainName name)
    (hentry : entry.HasPlainNames) :
    (root.alter (fun _ => some entry) (address ++ [name])).HasPlainNames := by
  induction address generalizing root with
  | nil =>
    cases root with
    | file content => exact h
    | directory entries =>
      show ((directory entries).alter _ [name]).HasPlainNames
      rw [HasPlainNames] at h
      rw [DiskEntry.alter, HasPlainNames]
      refine havePlainNames_alterNamed h fun known _ found hfound => ?_
      cases hfound
      exact ⟨hname, hentry⟩
  | cons next address ih =>
    rw [List.cons_append]
    cases root with
    | file content =>
      rw [alter_file]
      exact h
    | directory entries =>
      rw [HasPlainNames] at h
      rw [alter_cons _ (List.concat_ne_nil name address), HasPlainNames]
      refine havePlainNames_alterNamed h fun known hknown found hfound => ?_
      -- The way to the change was there already, so its names are plain.
      obtain ⟨inner, rfl, rfl⟩ := Option.map_eq_some_iff.mp hfound
      obtain ⟨hnext, hinner⟩ := hknown inner rfl
      exact ⟨hnext, ih hinner⟩

end DiskEntry

/-! ## Paths -/

namespace Path

variable {path : Path} {name : String}

/-- A path that is followed further by a name has the name as its last part. The parts before are
those of the path, without the empty part behind a separator at its end. -/
theorem exists_splitAll_join (hname : '/' ∉ name.toList) (hpath : path.text ≠ "") :
    ∃ parts, Text.splitAll '/' (path.join name).text.toList = parts ++ [name.toList]
      ∧ parts ≠ []
      ∧ (Text.splitAll '/' path.text.toList = parts
        ∨ Text.splitAll '/' path.text.toList = parts ++ [[]]) := by
  have hrelative : name.toList.head? ≠ some '/' := fun hhead => hname (List.mem_of_head? hhead)
  have hname' := Text.splitAll_of_not_mem hname
  rw [join, if_neg hrelative]
  split
  · next hend =>
    -- The path ends in a separator, since it is not empty.
    have hne : path.text.toList ≠ [] := fun hnil => hpath (String.toList_eq_nil_iff.mp hnil)
    rw [List.getLast?_eq_some_getLast hne, Option.all_some, beq_iff_eq] at hend
    have htext : path.text.toList = path.text.toList.dropLast ++ '/' :: [] := by
      rw [← hend, List.dropLast_append_getLast hne]
    refine ⟨Text.splitAll '/' path.text.toList.dropLast, ?_, Text.splitAll_ne_nil _ _, .inr ?_⟩
    · rw [String.toList_append, htext, List.append_assoc, List.cons_append, List.nil_append,
        Text.splitAll_append, hname', List.dropLast_concat]
    · conv_lhs => rw [htext]
      rw [Text.splitAll_append]
      rfl
  · refine ⟨Text.splitAll '/' path.text.toList, ?_, Text.splitAll_ne_nil _ _, .inl rfl⟩
    have hslash : "/".toList = ['/'] := by decide
    rw [String.toList_append, String.toList_append, hslash, List.append_assoc,
      List.singleton_append, Text.splitAll_append, hname']

/-- A path that was followed further is not empty, so it leads somewhere. -/
theorem text_join_ne (hname : '/' ∉ name.toList) (hpath : path.text ≠ "") :
    (path.join name).text ≠ "" := by
  intro htext
  obtain ⟨parts, hjoin, hne, -⟩ := exists_splitAll_join hname hpath
  rw [htext] at hjoin
  have hlength : 1 = (parts ++ [name.toList]).length := congrArg List.length hjoin
  rw [List.length_append, List.length_singleton] at hlength
  exact hne (List.length_eq_zero_iff.mp (by omega))

/-- Only the empty path has no components. A path of nothing but separators and dots still has the
root or `.` in front. -/
theorem components_ne_nil (h : path.text ≠ "") : path.components ≠ [] := by
  obtain ⟨part, parts, hparts⟩ :=
    List.exists_cons_of_ne_nil (Text.splitAll_ne_nil '/' path.text.toList)
  unfold components
  rw [hparts]
  split
  · exact List.cons_ne_nil _ _
  · exact List.cons_ne_nil _ _
  · next hroot hcurrent =>
    have hpart : part ≠ [] := by
      rintro rfl
      cases parts with
      | cons next rest => exact hroot next rest rfl
      | nil =>
        -- A single empty part is the empty text.
        have hlength := Text.length_splitAll '/' path.text.toList
        rw [hparts, List.length_singleton] at hlength
        have hslash : '/' ∉ path.text.toList := List.count_eq_zero.mp (by omega)
        rw [Text.splitAll_of_not_mem hslash] at hparts
        exact h (String.toList_eq_nil_iff.mp (List.cons.inj hparts).1)
    have hsegment : ∃ component, Component.ofSegment? part = some component := by
      have hdot : part ≠ ['.'] := fun hdot => hcurrent parts (hdot ▸ rfl)
      unfold Component.ofSegment?
      simp only [hpart, hdot, decide_false, Bool.or_self, Bool.false_eq_true, if_false]
      split
      · exact ⟨_, rfl⟩
      · exact ⟨_, rfl⟩
    obtain ⟨component, hcomponent⟩ := hsegment
    exact List.ne_nil_of_mem (List.mem_filterMap.mpr ⟨part, List.mem_cons_self, hcomponent⟩)

/-- A name and a relative rest are followed one after the other as well as together. A plain name
does not end in a separator, so one is put behind it in both cases. -/
theorem join_append (path : Path) {rest : String} (hname : IsPlainName name)
    (hrest : rest.toList.head? ≠ some '/') :
    path.join (name ++ "/" ++ rest) = (path.join name).join rest := by
  have hne := hname.toList_ne.1
  have hfirst : name.toList.head? ≠ some '/' :=
    fun hhead => hname.no_slash (List.mem_of_head? hhead)
  have hfirst' : (name ++ "/" ++ rest).toList.head? ≠ some '/' := by
    rw [String.append_assoc]
    exact hname.head?_append_ne ("/" ++ rest)
  -- The name does not end in a separator, so one is put behind it.
  have hlast : ∀ text : String, ¬(text ++ name).toList.getLast?.all (· == '/') = true := by
    intro text hall
    rw [String.toList_append, List.getLast?_append_of_ne_nil _ hne,
      List.getLast?_eq_some_getLast hne, Option.all_some, beq_iff_eq] at hall
    exact hname.no_slash (hall ▸ List.getLast_mem hne)
  rw [join, if_neg hfirst', join, if_neg hrest, join, if_neg hfirst]
  split
  · rw [if_neg (hlast _), String.append_assoc, String.append_assoc, String.append_assoc]
  · rw [if_neg (hlast _)]
    simp only [String.append_assoc]

/-- Names are followed one by one, which is how what is copied from a directory is written below
another. -/
theorem join_intercalate (path : Path) {names : List String}
    (hnames : ∀ name ∈ names, IsPlainName name) (hne : names ≠ []) :
    path.join ("/".intercalate names) = names.foldl join path := by
  induction names generalizing path with
  | nil => exact absurd rfl hne
  | cons name names ih =>
    obtain ⟨hname, hnames⟩ := List.forall_mem_cons.mp hnames
    cases names with
    | nil => rfl
    | cons next names =>
      have hnext : IsPlainName next := hnames next List.mem_cons_self
      have hhead : ("/".intercalate (next :: names)).toList.head? ≠ some '/' := by
        cases names with
        | nil =>
          have hhead := hnext.head?_append_ne ""
          rwa [String.append_empty] at hhead
        | cons later names =>
          rw [String.intercalate_cons_cons, String.append_assoc]
          exact hnext.head?_append_ne _
      rw [String.intercalate_cons_cons, join_append path hname hhead,
        ih _ hnames (List.cons_ne_nil next names)]
      rfl

end Path

namespace Disk

open DiskEntry

variable {disk : Disk} {path : Path} {address directory : List String} {name : String}

/-- Segments are followed in two steps as well as in one, and a fault in the first step is the fault
of both. -/
theorem follow_append (disk : Disk) (address : List String) (a b : List (List Char)) :
    disk.follow address (a ++ b)
      = (disk.follow address a).bind fun found => disk.follow found b := by
  induction a generalizing address with
  | nil => rfl
  | cons segment a ih =>
    rw [List.cons_append, follow, follow]
    cases disk.root.get? address with
    | none => rfl
    | some entry =>
      cases entry with
      | file content => rfl
      | directory entries =>
        dsimp only
        split
        · exact ih address
        · split
          · exact ih address.dropLast
          · split
            · exact ih _
            · rfl

/-- Where the parts of a path start, and its segments. They depend on the first part only, so a path
that is continued starts at the same place. -/
theorem exists_start (disk : Disk) {parts : List (List Char)} (h : parts ≠ []) :
    ∃ origin segments, ∀ (path : Path) (rest : List (List Char)),
      Text.splitAll '/' path.text.toList = parts ++ rest →
        disk.start path = (origin, segments ++ rest) := by
  cases parts with
  | nil => exact absurd rfl h
  | cons part parts =>
    cases part with
    | nil =>
      refine ⟨[], parts, fun path rest hsplit => ?_⟩
      rw [start, hsplit]
      rfl
    | cons c part =>
      refine ⟨disk.workingDirectory, (c :: part) :: parts, fun path rest hsplit => ?_⟩
      rw [start, hsplit]
      rfl

theorem mem_splitAll_of_mem_start {segment : List Char} (h : segment ∈ (disk.start path).2) :
    segment ∈ Text.splitAll '/' path.text.toList := by
  rw [start] at h
  split at h
  · next rest hsplit =>
    rw [hsplit]
    exact List.mem_cons_of_mem _ h
  · exact h

/-- A path that leads to a directory. -/
structure LeadsTo (disk : Disk) (path : Path) (address : List String) : Prop where
  address_eq : disk.address path = .ok address
  hasDirectory : disk.root.HasDirectory address

theorem LeadsTo.text_ne (h : disk.LeadsTo path address) : path.text ≠ "" := by
  intro htext
  have haddress := h.address_eq
  rw [Disk.address, if_pos htext] at haddress
  cases haddress

/-- A path to a name in a directory. -/
structure Names (disk : Disk) (path : Path) (directory : List String) (name : String) : Prop where
  text_ne : path.text ≠ ""
  exists_segments : ∃ origin segments trailing,
    disk.start path = (origin, segments ++ name.toList :: List.replicate trailing [])
      ∧ disk.follow origin segments = .ok directory
  hasDirectory : disk.root.HasDirectory directory
  isPlainName : IsPlainName name

/-- **A plain name behind a path to a directory is a name in it.** It does not matter whether the
path ends in a separator, for that is an empty segment, which stays where it is. -/
theorem LeadsTo.names_join (h : disk.LeadsTo path address) (hname : IsPlainName name) :
    disk.Names (path.join name) address name := by
  obtain ⟨parts, hjoin, hne, hsplit⟩ := Path.exists_splitAll_join hname.no_slash h.text_ne
  obtain ⟨origin, segments, hstart⟩ := disk.exists_start hne
  have hfollow : disk.follow origin segments = .ok address := by
    have haddress := h.address_eq
    rw [Disk.address, if_neg h.text_ne] at haddress
    rcases hsplit with hsplit | hsplit
    · rw [hstart path [] (hsplit.trans (List.append_nil parts).symm)] at haddress
      rwa [List.append_nil] at haddress
    · -- The empty segment at the end of the path stays where it is.
      rw [hstart path [[]] hsplit] at haddress
      dsimp only at haddress
      rw [follow_append] at haddress
      cases hfound : disk.follow origin segments with
      | error fault =>
        rw [hfound] at haddress
        cases haddress
      | ok found =>
        rw [hfound] at haddress
        show Except.ok found = _
        have hstay : disk.follow found [[]] = .ok address := haddress
        rw [follow] at hstay
        split at hstay
        · cases hstay
        · cases hstay
        · exact hstay
  exact ⟨Path.text_join_ne hname.no_slash h.text_ne,
    ⟨origin, segments, 0, hstart _ _ hjoin, hfollow⟩, h.hasDirectory, hname⟩

/-- A separator at the end of a path changes nothing about what it names. Directories are created by
such a path before they are copied into. -/
theorem Names.join_empty (h : disk.Names path directory name) :
    disk.Names (path.join "") directory name := by
  obtain ⟨origin, segments, trailing, hstart, hfollow⟩ := h.exists_segments
  have hempty : '/' ∉ "".toList := by decide
  obtain ⟨parts, hjoin, hne, hsplit⟩ := Path.exists_splitAll_join hempty h.text_ne
  refine ⟨Path.text_join_ne hempty h.text_ne, ?_, h.hasDirectory, h.isPlainName⟩
  obtain ⟨origin', segments', hstart'⟩ := disk.exists_start hne
  have hjoined := hstart' _ _ hjoin
  -- There is one more empty segment at the end, unless the path had a separator there.
  rcases hsplit with hsplit | hsplit
  · have hpath := hstart' path [] (hsplit.trans (List.append_nil parts).symm)
    rw [hstart, List.append_nil] at hpath
    cases hpath
    refine ⟨origin, segments, trailing + 1, hjoined.trans ?_, hfollow⟩
    rw [List.replicate_succ', List.append_assoc]
    rfl
  · have hpath := hstart' path [[]] hsplit
    exact ⟨origin, segments, trailing, hjoined.trans (hpath.symm.trans hstart), hfollow⟩

/-- Empty segments at the end are dropped, up to one that is not empty. -/
theorem withoutTrailing_append (segments : List (List Char)) {segment : List Char}
    (h : segment ≠ []) (trailing : Nat) :
    ∃ any, withoutTrailing (segments ++ segment :: List.replicate trailing [])
      = (segments ++ [segment], any) := by
  have hreverse : (segments ++ segment :: List.replicate trailing []).reverse
      = List.replicate trailing [] ++ segment :: segments.reverse := by
    simp
  have hdrop : ((segments ++ segment :: List.replicate trailing []).reverse.dropWhile
      List.isEmpty).reverse = segments ++ [segment] := by
    rw [hreverse, List.dropWhile_append_of_pos (by simp), List.dropWhile_cons_of_neg (by simpa),
      List.reverse_cons, List.reverse_reverse]
  exact ⟨_, Prod.ext hdrop rfl⟩

/-- A path to a name in a directory names just that, by whatever number of separators it ends. -/
theorem Names.place_eq (h : disk.Names path directory name) :
    ∃ trailing, disk.place path = .ok (.named directory name trailing) := by
  obtain ⟨origin, segments, trailing, hstart, hfollow⟩ := h.exists_segments
  obtain ⟨hnil, hcurrent, hparent⟩ := h.isPlainName.toList_ne
  obtain ⟨any, hkept⟩ := withoutTrailing_append segments hnil trailing
  obtain ⟨entries, hentries⟩ := h.hasDirectory
  refine ⟨any, ?_⟩
  unfold place
  simp only [if_neg h.text_ne, hstart, hkept, List.getLast?_append, List.getLast?_singleton,
    List.dropLast_concat, Option.some_or, hfollow]
  dsimp only [bind, Except.bind]
  rw [hentries, String.ofList_toList]
  dsimp only
  rw [if_neg (by simp [hcurrent, hparent])]
  rfl

/-- A plain name leads to what it names, if that is there. It is neither of the segments that stay
or go up. -/
theorem follow_name (hdirectory : disk.root.HasDirectory directory) (hname : IsPlainName name)
    (rest : List (List Char)) :
    disk.follow directory (name.toList :: rest)
      = if (disk.root.get? (directory ++ [name])).isSome
        then disk.follow (directory ++ [name]) rest else .error .notFound := by
  obtain ⟨entries, hentries⟩ := hdirectory
  obtain ⟨hnil, hcurrent, hparent⟩ := hname.toList_ne
  have hfound : disk.root.get? (directory ++ [name]) = entries.lookup name := by
    rw [get?_append, hentries, Option.bind_some, DiskEntry.get?]
    cases entries.lookup name <;> rfl
  rw [follow, hentries, hfound, String.ofList_toList]
  simp [hnil, hcurrent, hparent]

/-- Empty segments stay at a directory. -/
theorem follow_replicate (hdirectory : disk.root.HasDirectory address) (trailing : Nat) :
    disk.follow address (List.replicate trailing []) = .ok address := by
  obtain ⟨entries, hentries⟩ := hdirectory
  induction trailing with
  | zero => rfl
  | succ trailing ih =>
    rw [List.replicate_succ, follow, hentries]
    exact ih

/-- The address of a path to a name is that of the name, if something is there. Separators at the
end are still to be followed, and lead no further than a directory. -/
theorem Names.address_eq (h : disk.Names path directory name) :
    ∃ trailing, disk.address path
      = if (disk.root.get? (directory ++ [name])).isSome
        then disk.follow (directory ++ [name]) (List.replicate trailing [])
        else .error .notFound := by
  obtain ⟨origin, segments, trailing, hstart, hfollow⟩ := h.exists_segments
  refine ⟨trailing, ?_⟩
  rw [Disk.address, if_neg h.text_ne, hstart]
  dsimp only
  rw [follow_append, hfollow]
  exact follow_name h.hasDirectory h.isPlainName _

/-- If there is a directory with the name, then the path leads to it. -/
theorem Names.leadsTo (h : disk.Names path directory name)
    (hdirectory : disk.root.HasDirectory (directory ++ [name])) :
    disk.LeadsTo path (directory ++ [name]) := by
  obtain ⟨trailing, haddress⟩ := h.address_eq
  obtain ⟨entries, hentries⟩ := hdirectory
  rw [hentries, Option.isSome_some, if_pos rfl,
    follow_replicate ⟨entries, hentries⟩] at haddress
  exact ⟨haddress, entries, hentries⟩

/-- The converse: if the path is found to be a directory, then it is the one with that name. -/
theorem Names.hasDirectory_of_isDirectory (h : disk.Names path directory name)
    (hpath : disk.isDirectory path = true) : disk.root.HasDirectory (directory ++ [name]) := by
  obtain ⟨trailing, haddress⟩ := h.address_eq
  unfold isDirectory find? at hpath
  rw [haddress] at hpath
  cases hfound : disk.root.get? (directory ++ [name]) with
  | none =>
    rw [hfound] at hpath
    cases hpath
  | some entry =>
    cases entry with
    | directory entries => exact ⟨entries, hfound⟩
    | file content =>
      -- A file cannot be followed further, and is no directory itself.
      cases trailing with
      | zero => simp [hfound, follow, DiskEntry.isDirectory] at hpath
      | succ trailing => simp [hfound, follow, List.replicate_succ] at hpath

/-- The last segment that is kept is not empty, and nothing but empty segments was dropped behind
it. -/
theorem eq_of_getLast?_withoutTrailing {segments : List (List Char)} {segment : List Char}
    (h : (withoutTrailing segments).1.getLast? = some segment) :
    segment ≠ [] ∧ ∃ trailing, segments
      = (withoutTrailing segments).1.dropLast ++ segment :: List.replicate trailing [] := by
  have hhead : (segments.reverse.dropWhile List.isEmpty).head? = some segment := by
    rw [← List.getLast?_reverse]
    exact h
  constructor
  · have hnot := List.head?_dropWhile_not List.isEmpty segments.reverse
    rw [hhead] at hnot
    exact List.isEmpty_eq_false_iff.mp hnot
  · -- What was dropped are the empty segments at the end.
    have hblank : segments.reverse.takeWhile List.isEmpty
        = List.replicate (segments.reverse.takeWhile List.isEmpty).length [] :=
      List.eq_replicate_iff.mpr ⟨rfl, fun blank hblank =>
        List.isEmpty_iff.mp (List.all_eq_true.mp List.all_takeWhile blank hblank)⟩
    have hkept : (withoutTrailing segments).1.dropLast ++ [segment]
        = (segments.reverse.dropWhile List.isEmpty).reverse :=
      List.dropLast_append_getLast? segment h
    refine ⟨(segments.reverse.takeWhile List.isEmpty).length, ?_⟩
    rw [← List.singleton_append, ← List.append_assoc, hkept, ← List.reverse_replicate, ← hblank,
      ← List.reverse_append, List.takeWhile_append_dropWhile, List.reverse_reverse]

/-- Whatever a path is, what it names is a plain name in a directory that is there. So nothing is
ever written at `.` or `..`, or at a name with a separator in it. -/
theorem names_of_place {trailing : Bool}
    (h : disk.place path = .ok (.named directory name trailing)) :
    disk.Names path directory name := by
  unfold place at h
  by_cases htext : path.text = ""
  · rw [if_pos htext] at h
    cases h
  · simp only [if_neg htext] at h
    split at h
    · cases h
    · next segment hlast =>
      obtain ⟨hne, count, hsegments⟩ := eq_of_getLast?_withoutTrailing hlast
      have hmem : segment ∈ (disk.start path).2 := by
        rw [hsegments]
        exact List.mem_append_right _ List.mem_cons_self
      have hslash : '/' ∉ segment := Text.not_mem_of_mem_splitAll (mem_splitAll_of_mem_start hmem)
      cases hfollow : disk.follow (disk.start path).1
          (withoutTrailing (disk.start path).2).1.dropLast with
      | error fault =>
        rw [hfollow] at h
        cases h
      | ok found =>
        rw [hfollow] at h
        dsimp only [bind, Except.bind] at h
        split at h
        · cases h
        · cases h
        · next entries hentries =>
          split at h
          · cases h
          · next hspecial =>
            cases h
            obtain ⟨hcurrent, hparent⟩ : segment ≠ ['.'] ∧ segment ≠ ['.', '.'] := by
              simpa using hspecial
            refine ⟨htext, ⟨(disk.start path).1, _, count, ?_, hfollow⟩, ⟨entries, hentries⟩,
              isPlainName_ofList hne hcurrent hparent hslash⟩
            rw [String.toList_ofList, ← hsegments]

/-- A path that is found to be a directory leads to one. -/
theorem leadsTo_of_isDirectory (h : disk.isDirectory path = true) :
    ∃ address, disk.LeadsTo path address := by
  unfold isDirectory find? at h
  split at h
  · next address haddress =>
    cases hfound : disk.root.get? address with
    | none =>
      rw [hfound] at h
      cases h
    | some entry =>
      cases entry with
      | file content =>
        rw [hfound] at h
        cases h
      | directory entries => exact ⟨address, haddress, entries, hfound⟩
  · cases h

end Disk

end Reskin
