import Reskin.Disk.Persist
import Reskin.Proofs.Disk.Address
import Reskin.Proofs.Pack.Listing

/-!
# Writing stays inside a directory

An action on a disk is confined to a directory if it changes nothing outside and removes no
directory. Since no directory is removed, paths that led to directories still do after such an
action, so confined actions can follow each other. Each of them writes at a plain name in a
directory that is there; a name that is `..` or holds a separator would lead somewhere else.

* **`Confined`** — two disks that differ below one address only.
* **`Runs`** — a confined run of an action, with what holds after it; `Runs.bind` joins two runs.
* **`runs_createDirectories`**, **`runs_writeFile`**, **`runs_copyFile`**,
  **`runs_copyDirectory`** — the actions that write.
* **`PackTree.persist_confined`** — writing a tree with plain names stays inside the output
  directory.
-/

namespace Reskin

namespace Disk

open DiskEntry

variable {base directory address : List String} {before after disk : Disk} {path : Path}
  {name : String} {entry : DiskEntry} {α β : Type}

/-! ## Disks that differ below one address -/

/-- Nothing outside of the directory at `base` has changed, and no directory is gone. -/
structure Confined (base : List String) (before after : Disk) : Prop where
  workingDirectory_eq : after.workingDirectory = before.workingDirectory
  hasDirectory : ∀ address, before.root.HasDirectory address → after.root.HasDirectory address
  outside : ∀ address, ¬base <+: address → ¬address <+: base →
    after.root.get? address = before.root.get? address
  hasPlainNames : before.root.HasPlainNames → after.root.HasPlainNames

theorem Confined.refl (base : List String) (disk : Disk) : Confined base disk disk :=
  ⟨rfl, fun _ => id, fun _ _ _ => rfl, id⟩

theorem Confined.trans {later : Disk} (h : Confined base before after)
    (h' : Confined base after later) : Confined base before later where
  workingDirectory_eq := h'.workingDirectory_eq.trans h.workingDirectory_eq
  hasDirectory address hdirectory := h'.hasDirectory address (h.hasDirectory address hdirectory)
  outside address hbase haddress :=
    (h'.outside address hbase haddress).trans (h.outside address hbase haddress)
  hasPlainNames hnames := h'.hasPlainNames (h.hasPlainNames hnames)

/-- An entry that is put below the base, and not in the place of a directory. This is the one change
that all the actions below are made of. -/
theorem confined_alter (hbase : base <+: directory) (hname : IsPlainName name)
    (hentry : entry.HasPlainNames) (hnew : ¬disk.root.HasDirectory (directory ++ [name])) :
    Confined base disk
      { disk with root := disk.root.alter (fun _ => some entry) (directory ++ [name]) } where
  workingDirectory_eq := rfl
  hasDirectory _ := hasDirectory_alter hnew
  outside other hother hother' := by
    have hbelow : base <+: directory ++ [name] := hbase.trans (List.prefix_append directory [name])
    refine get?_alter_of_not_prefix (fun hbegins => hother (hbelow.trans hbegins)) fun hbegins => ?_
    -- Two beginnings of one address are comparable.
    rcases List.prefix_or_prefix_of_prefix hbelow hbegins with h | h
    · exact hother h
    · exact hother' h
  hasPlainNames hnames := hnames.alter hname hentry

/-- What can be followed to a directory can be followed if there are more directories. Induction on
the segments; on the way back from the end, each address is known to hold a directory. -/
theorem follow_of_grown
    (h : ∀ address, before.root.HasDirectory address → after.root.HasDirectory address)
    {segments : List (List Char)} {found : List String}
    (hfollow : before.follow address segments = .ok found)
    (hfound : before.root.HasDirectory found) :
    after.follow address segments = .ok found ∧ before.root.HasDirectory address := by
  induction segments generalizing address with
  | nil =>
    cases hfollow
    exact ⟨rfl, hfound⟩
  | cons segment rest ih =>
    rw [follow] at hfollow
    cases hentry : before.root.get? address with
    | none =>
      rw [hentry] at hfollow
      cases hfollow
    | some entry =>
      cases entry with
      | file content =>
        rw [hentry] at hfollow
        cases hfollow
      | directory entries =>
        have hdirectory : before.root.HasDirectory address := ⟨entries, hentry⟩
        refine ⟨?_, hdirectory⟩
        obtain ⟨entries', hentries'⟩ := h address hdirectory
        rw [follow, hentries']
        rw [hentry] at hfollow
        dsimp only at hfollow ⊢
        split at hfollow
        · next hstay =>
          rw [if_pos hstay]
          exact (ih hfollow).1
        · next hstay =>
          rw [if_neg hstay]
          split at hfollow
          · next hup =>
            rw [if_pos hup]
            exact (ih hfollow).1
          · next hup =>
            rw [if_neg hup]
            split at hfollow
            · -- The next address holds a directory, since the rest is followed from there.
              obtain ⟨hrest, hnext⟩ := ih hfollow
              obtain ⟨entries'', hentries''⟩ := h _ hnext
              have hlookup : (entries'.lookup (String.ofList segment)).isSome := by
                rw [get?_append, hentries', Option.bind_some] at hentries''
                obtain ⟨found, hfound, -⟩ := Option.bind_eq_some_iff.mp hentries''
                exact Option.isSome_of_mem hfound
              rw [if_pos hlookup]
              exact hrest
            · cases hfollow

theorem Confined.start_eq (h : Confined base before after) (path : Path) :
    after.start path = before.start path := by
  rw [start, start, h.workingDirectory_eq]

/-- A path that led to a directory still does after a confined action. Since no directory is gone,
the next action finds its own place where it was. -/
theorem Confined.leadsTo (h : Confined base before after) (hpath : before.LeadsTo path address) :
    after.LeadsTo path address := by
  have haddress := hpath.address_eq
  rw [Disk.address, if_neg hpath.text_ne] at haddress
  refine ⟨?_, h.hasDirectory address hpath.hasDirectory⟩
  rw [Disk.address, if_neg hpath.text_ne, h.start_eq]
  exact (follow_of_grown h.hasDirectory haddress hpath.hasDirectory).1

/-! ## Runs of actions -/

/-- The run of two actions, of which the second starts on the disk that the first one leaves. A
fault ends both, and keeps what was changed. -/
theorem run_bind (action : Action α) (next : α → Action β) (disk : Disk) :
    (action >>= next).run.run disk
      = match action.run.run disk with
        | (.ok value, after) => (next value).run.run after
        | (.error fault, after) => (.error fault, after) := by
  rw [ExceptT.run_bind, StateT.run_bind]
  rcases action.run.run disk with ⟨result, after⟩
  cases result <;> rfl

/-- The run of an action with a handler, which starts on the disk that the fault left behind. -/
theorem run_tryCatch (action : Action α) (handler : DiskFault → Action α) (disk : Disk) :
    (tryCatch action handler).run.run disk
      = match action.run.run disk with
        | (.ok value, after) => (.ok value, after)
        | (.error fault, after) => (handler fault).run.run after := by
  show (ExceptT.tryCatch action handler).run.run disk = _
  rw [ExceptT.tryCatch, ExceptT.run_mk, StateT.run_bind]
  show (do
    let outcome ← action.run.run disk
    _) = _
  rcases action.run.run disk with ⟨result, after⟩
  cases result <;> rfl

/-- A run of an action that changes nothing outside of `base`. If the action succeeds, `Q` holds of
what it returns and of the disk that it leaves. -/
def Runs (base : List String) (disk : Disk) (action : Action α) (Q : α → Disk → Prop) : Prop :=
  Confined base disk (action.run.run disk).2
    ∧ ∀ value, (action.run.run disk).1 = .ok value → Q value (action.run.run disk).2

variable {action : Action α} {next : α → Action β} {Q : α → Disk → Prop} {R : β → Disk → Prop}

theorem runs_pure {value : α} (h : Q value disk) : Runs base disk (pure value) Q := by
  refine ⟨.refl base disk, fun other heq => ?_⟩
  cases heq
  exact h

theorem runs_throw {fault : DiskFault} : Runs base disk (throw fault : Action α) Q :=
  ⟨.refl base disk, fun _ heq => nomatch heq⟩

/-- Confined actions can follow each other. The second one is to be shown confined on any disk that
the first one may leave. -/
theorem Runs.bind (h : Runs base disk action Q)
    (hnext : ∀ value after, Confined base disk after → Q value after →
      Runs base after (next value) R) :
    Runs base disk (action >>= next) R := by
  unfold Runs at h ⊢
  rw [run_bind]
  rcases hrun : action.run.run disk with ⟨result, after⟩
  rw [hrun] at h
  obtain ⟨hconfined, hresult⟩ := h
  cases result with
  | error fault => exact ⟨hconfined, fun _ heq => nomatch heq⟩
  | ok value =>
    obtain ⟨hlater, hvalue⟩ := hnext value after hconfined (hresult value rfl)
    exact ⟨hconfined.trans hlater, hvalue⟩

/-- Looking at the disk changes nothing, so the disk that is looked at is the one that the run
starts on. -/
theorem runs_get_bind {next : Disk → Action β} (h : Runs base disk (next disk) R) :
    Runs base disk (get >>= next) R := by
  unfold Runs
  rw [run_bind]
  exact h

/-- A fault that is thrown changes nothing, so only the result has to be accounted for. -/
theorem runs_ofExcept {result : Except DiskFault α}
    (h : ∀ value, result = .ok value → Q value disk) :
    Runs base disk (Action.ofExcept result) Q := by
  cases result with
  | error fault => exact runs_throw
  | ok value => exact runs_pure (h value rfl)

/-- An action that succeeds needs no handler. -/
theorem runs_tryCatch_of_ok {value : α} {handler : DiskFault → Action α}
    (h : action.run.run disk = (.ok value, after)) (hconfined : Confined base disk after)
    (hvalue : Q value after) : Runs base disk (tryCatch action handler) Q := by
  unfold Runs
  rw [run_tryCatch, h]
  refine ⟨hconfined, fun other heq => ?_⟩
  cases heq
  exact hvalue

/-- An action that fails without a change leaves the disk to its handler. -/
theorem runs_tryCatch_of_error {fault : DiskFault} {handler : DiskFault → Action α}
    (h : action.run.run disk = (.error fault, disk)) (hhandler : Runs base disk (handler fault) Q) :
    Runs base disk (tryCatch action handler) Q := by
  unfold Runs
  rw [run_tryCatch, h]
  exact hhandler

/-! ## Writing below the base -/

theorem runs_put {P : Unit → Disk → Prop} (hbase : base <+: directory) (hname : IsPlainName name)
    (hentry : entry.HasPlainNames) (hnew : ¬disk.root.HasDirectory (directory ++ [name]))
    (h : P () { disk with root := disk.root.alter (fun _ => some entry) (directory ++ [name]) }) :
    Runs base disk (put (directory ++ [name]) entry) P :=
  ⟨confined_alter hbase hname hentry hnew, fun _ _ => h⟩

/-- A file is written at the name that its path names, and never in the place of a directory. -/
theorem Names.fileAddress_eq (h : disk.Names path directory name) {found : List String}
    (hfound : disk.fileAddress path = .ok found) :
    found = directory ++ [name] ∧ ¬disk.root.HasDirectory (directory ++ [name]) := by
  obtain ⟨trailing, hplace⟩ := h.place_eq
  have haddress : (if (trailing || (disk.root.get? (directory ++ [name])).any
      DiskEntry.isDirectory) = true
      then (throw DiskFault.isDirectory : Except DiskFault (List String))
      else pure (directory ++ [name])) = .ok found := by
    unfold fileAddress at hfound
    rw [hplace] at hfound
    exact hfound
  split at haddress
  · cases haddress
  · next hfree =>
    cases haddress
    refine ⟨rfl, fun ⟨entries, hentries⟩ => hfree ?_⟩
    rw [hentries, Option.any_some, DiskEntry.isDirectory, Bool.or_true]

/-- Writing a file at a name below the base is confined. -/
theorem runs_writeFile (h : disk.Names path directory name) (hbase : base <+: directory)
    (content : ByteArray) : Runs base disk (writeFile path content) fun _ _ => True := by
  unfold writeFile
  refine runs_get_bind ?_
  refine (runs_ofExcept (Q := fun found after => after = disk ∧ found = directory ++ [name]
    ∧ ¬disk.root.HasDirectory (directory ++ [name])) fun found hfound => ?_).bind ?_
  · exact ⟨rfl, h.fileAddress_eq hfound⟩
  · rintro found after - ⟨rfl, rfl, hnew⟩
    exact runs_put hbase h.isPlainName trivial hnew trivial

/-- All that can happen when a directory is created: nothing but a fault, or a new directory at a
name that was free. -/
theorem run_createDirectory (path : Path) (disk : Disk) :
    (createDirectory path).run.run disk
      = match disk.place path with
        | .error fault => (.error fault, disk)
        | .ok .special => (.error .alreadyExists, disk)
        | .ok (.named parent name _) =>
          if (disk.root.get? (parent ++ [name])).isSome then (.error .alreadyExists, disk)
          else (.ok (), { disk with
            root := disk.root.alter (fun _ => some (.directory [])) (parent ++ [name]) }) := by
  unfold createDirectory
  rw [run_bind]
  show ((Action.ofExcept (disk.place path) >>= _ : Action Unit)).run.run disk = _
  rw [run_bind]
  cases disk.place path with
  | error fault => rfl
  | ok place =>
    cases place with
    | special => rfl
    | named parent name trailing =>
      show (if (disk.root.get? (parent ++ [name])).isSome = true
        then (throw .alreadyExists >>= fun _ : PUnit => put (parent ++ [name]) (.directory []) :
          Action Unit)
        else put (parent ++ [name]) (.directory [])).run.run disk = if _ then _ else _
      split
      · rw [run_bind]
        rfl
      · rfl

/-- A directory is created by its own name. Its parents are there, so no other path is tried, and
what is there already is kept. -/
theorem runs_createDirectories (h : disk.Names path directory name) (hbase : base <+: directory) :
    Runs base disk (createDirectories path) fun _ after =>
      after.root.HasDirectory (directory ++ [name]) := by
  have hcomponents : path.components.isEmpty = false :=
    List.isEmpty_eq_false_iff.mpr (Path.components_ne_nil h.text_ne)
  obtain ⟨trailing, hplace⟩ := h.place_eq
  have hrun := run_createDirectory path disk
  rw [hplace] at hrun
  dsimp only at hrun
  unfold createDirectories
  rw [createChain, hcomponents]
  simp only [Bool.false_eq_true, if_false]
  cases hfound : disk.root.get? (directory ++ [name]) with
  | none =>
    have hnew := not_hasDirectory_of_eq_none hfound
    rw [hfound, Option.isSome_none, if_neg Bool.false_ne_true] at hrun
    refine runs_tryCatch_of_ok hrun (confined_alter hbase h.isPlainName trivial hnew) ?_
    exact ⟨[], get?_alter_self h.hasDirectory⟩
  | some entry =>
    rw [hfound, Option.isSome_some, if_pos rfl] at hrun
    refine runs_tryCatch_of_error hrun (runs_get_bind ?_)
    split
    · next hdirectory => exact runs_pure (h.hasDirectory_of_isDirectory hdirectory)
    · exact runs_throw

/-- A path that named something in a directory still does after a confined action. -/
theorem Confined.names (h : Confined base before after) (hpath : before.Names path directory name) :
    after.Names path directory name := by
  obtain ⟨origin, segments, trailing, hstart, hfollow⟩ := hpath.exists_segments
  have hgrown := follow_of_grown h.hasDirectory hfollow hpath.hasDirectory
  refine ⟨hpath.text_ne, ⟨origin, segments, trailing, ?_, hgrown.1⟩,
    h.hasDirectory directory hpath.hasDirectory, hpath.isPlainName⟩
  rw [h.start_eq, hstart]

/-- Copying a file to a name below the base is confined, wherever the source is. The source may be
the target itself: it is empty by the time it is read. -/
theorem runs_copyFile (h : disk.Names path directory name) (hbase : base <+: directory)
    (source : Path) : Runs base disk (copyFile source path) fun _ _ => True := by
  unfold copyFile
  refine runs_get_bind ?_
  refine (runs_ofExcept (Q := fun _ after => after = disk) fun _ _ => rfl).bind ?_
  rintro origin after - rfl
  -- The destination is emptied before the source is read.
  refine (runs_writeFile h hbase _).bind fun _ emptied hconfined _ => ?_
  refine runs_get_bind ?_
  split
  · exact runs_writeFile (hconfined.names h) hbase _
  · exact runs_throw

/-- Copies one entry below a directory. -/
def copyItem (source target : Path) (item : List String × DiskEntry) : Action Unit :=
  if item.2.isDirectory then createDirectories (target.join ("/".intercalate item.1))
  else copyFile (item.1.foldl Path.join source) (target.join ("/".intercalate item.1))

section Copies

variable {source target : Path}

mutual

/-- Copying goes down the entry. What is to be copied is written below the directory that was
created for it, and the names in the source must be plain for that. -/
theorem runs_copyListing (entry : DiskEntry) (hentry : entry.HasPlainNames)
    {names directory : List String} (hnames : ∀ name ∈ names, IsPlainName name) {disk : Disk}
    (h : disk.LeadsTo (names.foldl Path.join target) directory) (hbase : base <+: directory) :
    Runs base disk ((entry.listing names).forM (copyItem source target)) fun _ _ => True := by
  cases entry with
  | file content =>
    rw [DiskEntry.listing]
    exact runs_pure trivial
  | directory entries =>
    rw [HasPlainNames] at hentry
    rw [DiskEntry.listing]
    exact runs_copyListingAll entries hentry hnames h hbase

theorem runs_copyListingAll (entries : List (String × DiskEntry))
    (hentries : HavePlainNames entries)
    {names directory : List String} (hnames : ∀ name ∈ names, IsPlainName name) {disk : Disk}
    (h : disk.LeadsTo (names.foldl Path.join target) directory) (hbase : base <+: directory) :
    Runs base disk ((listingAll names entries).forM (copyItem source target))
      fun _ _ => True := by
  cases entries with
  | nil =>
    rw [listingAll]
    exact runs_pure trivial
  | cons item rest =>
    obtain ⟨name, entry⟩ := item
    rw [HavePlainNames] at hentries
    obtain ⟨hname, hentry, hrest⟩ := hentries
    have hnames' : ∀ other ∈ names ++ [name], IsPlainName other :=
      List.forall_mem_append.mpr ⟨hnames, List.forall_mem_singleton.mpr hname⟩
    have hpath : target.join ("/".intercalate (names ++ [name]))
        = (names ++ [name]).foldl Path.join target :=
      target.join_intercalate hnames' (List.concat_ne_nil name names)
    have hdestination : disk.Names ((names ++ [name]).foldl Path.join target) directory name := by
      rw [List.foldl_append]
      exact h.names_join hname
    rw [listingAll, List.forM_eq_forM, List.forM_cons, List.forM_append]
    -- The other entries are copied on the disk that this one leaves.
    have hlater : ∀ after, Confined base disk after →
        Runs base after (forM (listingAll names rest) (copyItem source target)) fun _ _ => True :=
      fun after hafter => runs_copyListingAll rest hrest hnames (hafter.leadsTo h) hbase
    unfold copyItem
    dsimp only
    rw [hpath]
    cases entry with
    | file content =>
      refine (runs_copyFile hdestination hbase _).bind fun _ after hafter _ => ?_
      rw [DiskEntry.listing]
      exact hlater after hafter
    | directory entries =>
      refine (runs_createDirectories hdestination hbase).bind fun _ made hmade hdirectory => ?_
      have hinner : made.LeadsTo ((names ++ [name]).foldl Path.join target) (directory ++ [name]) :=
        (hmade.names hdestination).leadsTo hdirectory
      have hcopied := runs_copyListing (.directory entries) hentry hnames' hinner
        (hbase.trans (List.prefix_append directory [name]))
      refine hcopied.bind fun _ after hafter _ => ?_
      exact hlater after (hmade.trans hafter)

end

theorem hasPlainNames_of_find? (h : disk.root.HasPlainNames)
    (hentry : disk.find? path = some entry) : entry.HasPlainNames := by
  unfold find? at hentry
  split at hentry
  · exact h.get? hentry
  · cases hentry

/-- Copying a directory to a name below the base is confined. The entry that is copied is read after
the target was created, so it may hold the target itself. -/
theorem runs_copyDirectory (h : disk.Names path directory name) (hbase : base <+: directory)
    (hnames : disk.root.HasPlainNames) (source : Path) :
    Runs base disk (copyDirectory source path) fun _ _ => True := by
  unfold copyDirectory
  refine (runs_createDirectories h.join_empty hbase).bind fun _ made hmade hdirectory => ?_
  refine runs_get_bind ?_
  split
  · exact runs_throw
  · next entry hfound =>
    have hentry : entry.HasPlainNames :=
      hasPlainNames_of_find? (hmade.hasPlainNames hnames) hfound
    have hpath : made.LeadsTo path (directory ++ [name]) := (hmade.names h).leadsTo hdirectory
    exact runs_copyListing entry hentry (List.forall_mem_nil _) hpath
      (hbase.trans (List.prefix_append directory [name]))

end Copies

/-! ## New directories -/

/-- A directory is created at a name in a directory that is there, or nothing changes. Nothing is
assumed of the path here, because an output directory may be given by any. -/
theorem createDirectory_cases (path : Path) (disk : Disk) :
    (∃ fault, (createDirectory path).run.run disk = (.error fault, disk))
      ∨ ∃ directory name, disk.Names path directory name
        ∧ disk.root.get? (directory ++ [name]) = none
        ∧ (createDirectory path).run.run disk = (.ok (), { disk with
          root := disk.root.alter (fun _ => some (.directory [])) (directory ++ [name]) }) := by
  rw [run_createDirectory]
  cases hplace : disk.place path with
  | error fault => exact .inl ⟨fault, rfl⟩
  | ok place =>
    cases place with
    | special => exact .inl ⟨.alreadyExists, rfl⟩
    | named directory name trailing =>
      cases hfound : disk.root.get? (directory ++ [name]) with
      | none =>
        refine .inr ⟨directory, name, names_of_place hplace, hfound, ?_⟩
        simp [hfound]
      | some entry => exact .inl ⟨.alreadyExists, by simp [hfound]⟩

/-- What holds after an action on a disk with `P`: `Q` if it succeeds, and `E` if it fails. -/
def Holds (P : Disk → Prop) (action : Action α) (Q E : Disk → Prop) : Prop :=
  ∀ disk, P disk → match action.run.run disk with
    | (.ok _, after) => Q after
    | (.error _, after) => E after

section Holds

variable {P P' E E' : Disk → Prop} {Q Q' : Disk → Prop}

/-- If the first action fails, so do both; else the second one starts with what the first one
brought about. -/
theorem Holds.bind (h : Holds P action Q E) (hnext : ∀ value, Holds Q (next value) Q' E) :
    Holds P (action >>= next) Q' E := by
  intro disk hdisk
  have hafter := h disk hdisk
  rw [run_bind]
  rcases hrun : action.run.run disk with ⟨result, after⟩
  rw [hrun] at hafter
  cases result with
  | error fault => exact hafter
  | ok value => exact hnext value after hafter

/-- A handler starts with what holds after the fault, and has to bring about the same as the
action. -/
theorem Holds.tryCatch {handler : DiskFault → Action α} (h : Holds P action Q E)
    (hhandler : ∀ fault, Holds E (handler fault) Q E') :
    Holds P (MonadExcept.tryCatch action handler) Q E' := by
  intro disk hdisk
  have hafter := h disk hdisk
  rw [run_tryCatch]
  rcases hrun : action.run.run disk with ⟨result, after⟩
  rw [hrun] at hafter
  cases result with
  | error fault => exact hhandler fault after hafter
  | ok value => exact hafter

theorem Holds.mono (h : Holds P action Q E) (hQ : ∀ disk, Q disk → Q' disk) :
    Holds P action Q' E := by
  intro disk hdisk
  have hafter := h disk hdisk
  rcases hrun : action.run.run disk with ⟨result, after⟩
  rw [hrun] at hafter
  cases result with
  | error fault => exact hafter
  | ok value => exact hQ after hafter

end Holds

/-- A disk with plain names on which a path leads to a directory. -/
def Reaches (path : Path) (disk : Disk) : Prop :=
  disk.root.HasPlainNames ∧ ∃ base, disk.LeadsTo path base

/-- A directory that was created can be reached by its path. Names stay plain in any case. -/
theorem holds_createDirectory (path : Path) :
    Holds (·.root.HasPlainNames) (createDirectory path) (Reaches path) (·.root.HasPlainNames) := by
  intro disk hdisk
  rcases createDirectory_cases path disk with ⟨fault, hrun⟩ | ⟨directory, name, hnames, hnone, hrun⟩
  · rw [hrun]
    exact hdisk
  · rw [hrun]
    -- The output directory may be anywhere, so nothing but growth is known here.
    have hconfined := confined_alter List.nil_prefix hnames.isPlainName
      (show (DiskEntry.directory []).HasPlainNames from trivial)
      (not_hasDirectory_of_eq_none hnone)
    refine ⟨hconfined.hasPlainNames hdisk, directory ++ [name], ?_⟩
    exact (hconfined.names hnames).leadsTo ⟨[], get?_alter_self hnames.hasDirectory⟩

/-- A directory that is there already can be reached by its path as well. This is what a failed
creation falls back on. -/
theorem holds_ifDirectory (path : Path) (fault : DiskFault) :
    Holds (·.root.HasPlainNames)
      (get >>= fun disk : Disk => if disk.isDirectory path then pure () else throw fault)
      (Reaches path) (·.root.HasPlainNames) := by
  intro disk hdisk
  have hrun : (get >>= fun disk : Disk =>
      if disk.isDirectory path then pure () else throw fault : Action Unit).run.run disk
        = (if disk.isDirectory path then pure () else throw fault : Action Unit).run.run disk := by
    rw [run_bind]
    rfl
  rw [hrun]
  by_cases hdirectory : disk.isDirectory path = true
  · rw [if_pos hdirectory]
    exact ⟨hdisk, leadsTo_of_isDirectory hdirectory⟩
  · rw [if_neg hdirectory]
    exact hdisk

/-- If a directory with its parents could be created, then the path leads to it. Induction on the
parents: a directory is tried before its parents, and once more after them. -/
theorem holds_createChain (chain : List Path) :
    Holds (·.root.HasPlainNames) (createChain chain)
      (fun after => after.root.HasPlainNames
        ∧ ∀ path ∈ chain.head?, path.text ≠ "" → ∃ base, after.LeadsTo path base)
      (·.root.HasPlainNames) := by
  induction chain with
  | nil => exact fun disk hdisk => ⟨hdisk, fun path hnone => nomatch hnone⟩
  | cons path parents ih =>
    have hreaches : ∀ after, Reaches path after → after.root.HasPlainNames
        ∧ ∀ other ∈ (path :: parents).head?, other.text ≠ "" →
          ∃ base, after.LeadsTo other base := by
      rintro after ⟨hnames, hpath⟩
      refine ⟨hnames, fun other hother _ => ?_⟩
      cases hother
      exact hpath
    rw [createChain]
    split
    · -- Nothing is created, which only happens at the end of a relative path.
      next hcomponents =>
      refine fun disk hdisk => ⟨hdisk, fun other hother htext => ?_⟩
      cases hother
      exact absurd (List.isEmpty_iff.mp hcomponents) (Path.components_ne_nil htext)
    · refine Holds.mono ((holds_createDirectory path).tryCatch fun fault => ?_) hreaches
      split
      · -- The directory is tried again after its parents.
        refine (ih.mono fun _ hnames => hnames.1).bind fun _ => ?_
        exact (holds_createDirectory path).tryCatch (holds_ifDirectory path)
      · exact holds_ifDirectory path _

end Disk

/-! ## Packs -/

namespace PackTree

open Disk

variable {base directory : List String} {disk : Disk} {path : Path} {name : String}

/-- Writing a file of a pack at a name below the base is confined, whether it is a text or a copy of
a file or directory. -/
theorem runs_persistFile (h : disk.Names path directory name) (hbase : base <+: directory)
    (hnames : disk.root.HasPlainNames) (file : PackFile) :
    Runs base disk (file.persist path) fun _ _ => True := by
  cases file with
  | text content => exact runs_writeFile h hbase _
  | copy source =>
    refine runs_get_bind ?_
    split
    · exact runs_copyDirectory h hbase hnames source
    · exact runs_copyFile h hbase source

/-- So is writing all files of a directory, one after the other. -/
theorem runs_persistFiles (files : List (String × PackFile))
    (hfiles : ∀ file ∈ files, IsPlainName file.1) (h : disk.LeadsTo path directory)
    (hbase : base <+: directory) (hnames : disk.root.HasPlainNames) :
    Runs base disk (files.forM fun (name, file) => file.persist (path.join name))
      fun _ _ => True := by
  induction files generalizing disk with
  | nil => exact runs_pure trivial
  | cons file files ih =>
    obtain ⟨hfile, hfiles⟩ := List.forall_mem_cons.mp hfiles
    have hfirst := runs_persistFile (h.names_join hfile) hbase hnames file.2
    refine hfirst.bind fun _ after hafter _ => ?_
    exact ih hfiles (hafter.leadsTo h) (hafter.hasPlainNames hnames)

/-- A tree with plain names only. -/
def IsPlain (tree : PackTree) : Prop :=
  ∀ entry ∈ tree.listing, ∀ name ∈ entry.1, IsPlainName name

/-- The names in a tree are those of its files and directories, and those in its directories. -/
theorem isPlain_node {files : List (String × PackFile)} {directories : List (String × PackTree)}
    (h : (node files directories).IsPlain) :
    (∀ file ∈ files, IsPlainName file.1)
      ∧ ∀ inner ∈ directories, IsPlainName inner.1 ∧ inner.2.IsPlain := by
  constructor
  · intro file hfile
    exact h _ (mem_listing_node.mpr (.inl ⟨file, hfile, rfl⟩)) file.1 (List.mem_singleton_self _)
  · intro inner hinner
    constructor
    · exact h _ (mem_listing_node.mpr (.inr (mem_listingAll.mpr ⟨inner, hinner, .inl rfl⟩)))
        inner.1 (List.mem_singleton_self _)
    · intro entry hentry name hname
      exact h _ (mem_listing_node.mpr (.inr (mem_listingAll.mpr
        ⟨inner, hinner, .inr ⟨entry, hentry, rfl⟩⟩))) name (List.mem_cons_of_mem _ hname)

/-- Writes what is in a tree into a directory that is there. -/
def persistContents (path : Path) : PackTree → Action Unit
  | node files directories => do
    persistAll path directories
    files.forM fun (name, file) => file.persist (path.join name)

theorem persist_eq (path : Path) (tree : PackTree) :
    tree.persist path = (createDirectories path >>= fun _ => tree.persistContents path) := by
  cases tree with
  | node files directories =>
    rw [persist]
    rfl

mutual

/-- What is in a tree is written below the directory that it is written into. Induction on the tree,
first its directories and then its files, as they are written. -/
theorem runs_persistContents (tree : PackTree) (htree : tree.IsPlain) {disk : Disk} {path : Path}
    {directory : List String} (h : disk.LeadsTo path directory) (hbase : base <+: directory)
    (hnames : disk.root.HasPlainNames) :
    Runs base disk (tree.persistContents path) fun _ _ => True := by
  cases tree with
  | node files directories =>
    obtain ⟨hfiles, hdirectories⟩ := isPlain_node htree
    rw [persistContents]
    refine (runs_persistAll directories hdirectories h hbase hnames).bind fun _ after hafter _ => ?_
    exact runs_persistFiles files hfiles (hafter.leadsTo h) hbase (hafter.hasPlainNames hnames)

theorem runs_persistAll (directories : List (String × PackTree))
    (hdirectories : ∀ inner ∈ directories, IsPlainName inner.1 ∧ inner.2.IsPlain) {disk : Disk}
    {path : Path} {directory : List String} (h : disk.LeadsTo path directory)
    (hbase : base <+: directory) (hnames : disk.root.HasPlainNames) :
    Runs base disk (persistAll path directories) fun _ _ => True := by
  cases directories with
  | nil =>
    rw [persistAll]
    exact runs_pure trivial
  | cons inner rest =>
    obtain ⟨name, tree⟩ := inner
    obtain ⟨⟨hname, htree⟩, hrest⟩ := List.forall_mem_cons.mp hdirectories
    have hinner : disk.Names (path.join name) directory name := h.names_join hname
    -- The directory of the tree is created first, and the tree is written into it.
    have htreeRuns : Runs base disk (tree.persist (path.join name)) fun _ _ => True := by
      rw [persist_eq]
      refine (runs_createDirectories hinner hbase).bind fun _ made hmade hdirectory => ?_
      exact runs_persistContents tree htree ((hmade.names hinner).leadsTo hdirectory)
        (hbase.trans (List.prefix_append directory [name])) (hmade.hasPlainNames hnames)
    rw [persistAll]
    refine htreeRuns.bind fun _ after hafter _ => ?_
    exact runs_persistAll rest hrest (hafter.leadsTo h) hbase (hafter.hasPlainNames hnames)

end

/-- **Writing a tree with plain names stays inside the output directory.** Either that directory
cannot be created, and nothing else is done, or it is there and only what is below it changes. -/
theorem persist_confined {tree : PackTree} (htree : tree.IsPlain) {disk : Disk}
    (hnames : disk.root.HasPlainNames) {output : Path} (houtput : output.text ≠ "") :
    ∃ result made, (createDirectories output).run.run disk = (result, made)
      ∧ ((∃ fault, result = .error fault
          ∧ (tree.persist output).run.run disk = (.error fault, made))
        ∨ ∃ base, made.LeadsTo output base
          ∧ Confined base made ((tree.persist output).run.run disk).2) := by
  have hmade := holds_createChain (output :: output.parents) disk hnames
  rw [← createDirectories] at hmade
  rw [persist_eq, run_bind]
  generalize (createDirectories output).run.run disk = outcome at hmade ⊢
  obtain ⟨result, made⟩ := outcome
  refine ⟨result, made, rfl, ?_⟩
  cases result with
  | error fault => exact .inl ⟨fault, rfl, rfl⟩
  | ok value =>
    obtain ⟨hmadeNames, hleads⟩ := hmade
    obtain ⟨base, hpath⟩ := hleads output rfl houtput
    refine .inr ⟨base, hpath, ?_⟩
    exact (runs_persistContents tree htree hpath (List.prefix_refl base) hmadeNames).1

end PackTree

end Reskin
