import Mathlib.Data.List.Forall2
import Reskin.Proofs.Reported
import Reskin.Workspace.Build

/-!
# Files that are read

A file that is read and breaks no rule comes with its statements; any other file comes with a
report. So the files that are there are those that were read without faults, and if nothing is
reported these are all files.

* **`IsRead`**: a file with the statements of its text.
* **`load_cases`**: what can become of one file.
* **`forall₂_loadAll`**: without reports, every file is there, in order.
* **`exists_errorFree_resolve_of_build`**: a workspace that is built holds files that are read, and
  no error was reported for it.
* **`isSome_build_iff`**: there is a workspace just if no error was reported.
-/

namespace Reskin

namespace CheckedFile

/-- A file with the statements of its text. -/
structure IsRead (files : Files) (path : Path) (file : CheckedFile) : Prop where
  path_eq : file.path = path
  exists_text : ∃ text, files.read path = some text
    ∧ statements? text file.id = .ok file.statements

theorem statements?_ne_error_nil {text : String} {id : FileId} :
    statements? text id ≠ .error [] := by
  unfold statements?
  split
  · nofun
  · split
    · nofun
    · next hviolations =>
      intro h
      exact hviolations (Except.error.inj h)

theorem check_of_statements? {text : String} {id : FileId} {statements : List Statement}
    (h : statements? text id = .ok statements) : Statement.check statements = [] := by
  unfold statements? at h
  split at h
  · cases h
  · split at h
    · next hcheck =>
      cases h
      exact hcheck
    · cases h

variable {files : Files}

theorem IsRead.check {path : Path} {file : CheckedFile} (h : IsRead files path file) :
    Statement.check file.statements = [] := by
  obtain ⟨text, -, hstatements⟩ := h.exists_text
  exact check_of_statements? hstatements

/-- A file is read, or it is not there and something is reported about it. -/
theorem load_cases (sources : Sources) (path : Path) :
    (∃ file, (load files sources path).2.value = some file ∧ IsRead files path file)
      ∨ ((load files sources path).2.value = none
        ∧ (load files sources path).2.diagnostics ≠ []) := by
  unfold load
  cases hread : files.read path with
  | none => exact .inr ⟨rfl, nofun⟩
  | some text =>
    cases hstatements : statements? text (sources.register ⟨text, some path⟩).2 with
    | ok statements =>
      simp only [hstatements]
      exact .inl ⟨_, rfl, rfl, text, hread, hstatements⟩
    | error diagnostics =>
      simp only [hstatements]
      refine .inr ⟨trivial, ?_⟩
      rintro rfl
      exact statements?_ne_error_nil hstatements

theorem value_loadAll_cons (sources : Sources) (path : Path) (paths : List Path) :
    (loadAll files sources (path :: paths)).2.value
      = (load files sources path).2.value.toList
        ++ (loadAll files (load files sources path).1 paths).2.value := rfl

theorem diagnostics_loadAll_cons (sources : Sources) (path : Path) (paths : List Path) :
    (loadAll files sources (path :: paths)).2.diagnostics
      = (load files sources path).2.diagnostics
        ++ (loadAll files (load files sources path).1 paths).2.diagnostics := rfl

/-- If nothing is reported, all files are there, each with the statements of its text. Induction on
the files. -/
theorem forall₂_loadAll {sources : Sources} {paths : List Path}
    (h : (loadAll files sources paths).2.diagnostics = []) :
    List.Forall₂ (IsRead files) paths (loadAll files sources paths).2.value := by
  induction paths generalizing sources with
  | nil => exact .nil
  | cons path paths ih =>
    rw [diagnostics_loadAll_cons, List.append_eq_nil_iff] at h
    rw [value_loadAll_cons]
    rcases load_cases sources path with ⟨file, hvalue, hread⟩ | ⟨-, hreported⟩
    · rw [hvalue]
      exact .cons hread (ih h.2)
    · exact absurd h.1 hreported

/-- Also if something is reported, the files that are there have the statements of their texts. -/
theorem isRead_of_mem_loadAll {sources : Sources} {paths : List Path} {file : CheckedFile}
    (h : file ∈ (loadAll files sources paths).2.value) : IsRead files file.path file := by
  induction paths generalizing sources with
  | nil => cases h
  | cons path paths ih =>
    rw [value_loadAll_cons, List.mem_append, Option.mem_toList] at h
    rcases h with hfirst | hrest
    · rcases load_cases sources path with ⟨other, hvalue, hread⟩ | ⟨hnone, -⟩
      · cases hfirst.symm.trans hvalue
        rw [hread.path_eq]
        exact hread
      · cases hfirst.symm.trans hnone
    · exact ih hrest

end CheckedFile

/-- A workspace that is built comes from files that were read, and no error was reported for it. All
facts about workspaces that are built start from this. -/
theorem Workspace.exists_errorFree_resolve_of_build {files : Files} {extension : String}
    {sources : Sources} {root : Path} {workspace : Workspace}
    (h : (build files extension sources root).2.value = some workspace) :
    ∃ checked, (∀ file ∈ checked, CheckedFile.IsRead files file.path file)
      ∧ hasErrors (resolve files root checked).diagnostics = false
      ∧ workspace = (resolve files root checked).value := by
  unfold build at h
  split at h
  · cases h
  · cases h
    exact ⟨[], List.forall_mem_nil _, rfl, rfl⟩
  · next paths _ _ =>
    refine ⟨(CheckedFile.loadAll files sources paths).2.value, ?_, ?_⟩
    · intro file hfile
      exact CheckedFile.isRead_of_mem_loadAll hfile
    dsimp only at h
    split at h
    · cases h
    · split at h
      · cases h
      · next hnone =>
        cases h
        rw [Bool.not_eq_true, Reported.hasErrors_append, Bool.or_eq_false_iff] at hnone
        exact ⟨hnone.2, rfl⟩

theorem Workspace.exists_resolve_of_build {files : Files} {extension : String} {sources : Sources}
    {root : Path} {workspace : Workspace}
    (h : (build files extension sources root).2.value = some workspace) :
    ∃ checked, (∀ file ∈ checked, CheckedFile.IsRead files file.path file)
      ∧ workspace = (resolve files root checked).value := by
  obtain ⟨checked, hread, -, hworkspace⟩ := exists_errorFree_resolve_of_build h
  exact ⟨checked, hread, hworkspace⟩

/-- A workspace is there just if no error was reported. -/
theorem Workspace.isSome_build_iff {files : Files} {extension : String} {sources : Sources}
    {root : Path} :
    (build files extension sources root).2.value.isSome
      ↔ hasErrors (build files extension sources root).2.diagnostics = false := by
  unfold build
  split
  · exact iff_of_false Bool.false_ne_true (by simp [hasErrors, Diagnostic.isError,
      Diagnostic.severity, Diagnostic.general, Cause.severity])
  · exact iff_of_true rfl rfl
  · dsimp only
    split
    · next herrors => simp [herrors]
    · split
      · next herrors => simp [herrors]
      · next hnone => simp [hnone]

end Reskin
