import Reskin.Proofs.Compiler.Session
import Reskin.Proofs.Files.Memory

/-!
# Faulty files side by side

All files are read, also behind a faulty one, and what is reported about a file depends on its text
and its number alone. So one faulty file neither hides nor changes what is reported about another;
it only keeps the workspace from being put together. Files without faults of their own can still
refer to names and files that are not there.

* **`CheckedFile.faults`** — what is reported about a text by itself.
* **`CheckedFile.diagnostics_load`**, **`CheckedFile.diagnostics_loadAll`** — what is reported about
  a file, and about all files.
* **`Workspace.build_faults`** — the headline.
-/

namespace Reskin

/-- A fault of arrangement is the only one that keeps tokens from being read, at a token or at the
end of the file. -/
theorem Statement.exists_fault_of_read {tokens : List Token} {diagnostic : Diagnostic}
    (h : Statement.read tokens = .error diagnostic) :
    ∃ fault, diagnostic.cause = .grammar fault := by
  unfold Statement.read at h
  cases hrun : Reader.run {} tokens with
  | error other =>
    rw [hrun] at h
    cases h
    obtain ⟨before, token, after, middle, -, -, hstep⟩ := Reader.run_eq_error hrun
    obtain ⟨fault, rfl, -⟩ := Reader.step_eq_error hstep
    exact ⟨fault, rfl⟩
  | ok reader =>
    rw [hrun] at h
    obtain ⟨fault, hcause, -⟩ := Reader.finish_eq_error h
    exact ⟨fault, hcause⟩

/-- Whatever is reported about a text by itself is an error, at each of the three stages of reading
it. -/
theorem Reports.isError {source : String} {file : Option FileId} {diagnostic : Diagnostic}
    (h : Reports source file diagnostic) : diagnostic.isError = true := by
  cases h with
  | scan hscan =>
    obtain ⟨before, rest, fault, -, -, -, rfl⟩ := scan_eq_error hscan
    rfl
  | read hscan hread =>
    obtain ⟨fault, hcause⟩ := Statement.exists_fault_of_read hread
    rw [Diagnostic.isError, Diagnostic.severity, hcause]
    rfl
  | check hscan hread hcheck =>
    obtain ⟨token, -, fault, rfl⟩ := Statement.exists_token_of_mem_check hread hcheck
    rfl

namespace CheckedFile

/-! ## One file -/

/-- What is reported about a text by itself, as the file with a number: the first character sequence
that is no token, else the first token that cannot be read, else all violations. -/
def faults (text : String) (id : FileId) : List Diagnostic :=
  match Token.scan text (some id) with
  | .error diagnostic => [diagnostic]
  | .ok tokens =>
    match Statement.read tokens with
    | .error diagnostic => [diagnostic]
    | .ok statements => Statement.check statements

theorem isError_of_mem_faults {text : String} {id : FileId} {diagnostic : Diagnostic}
    (h : diagnostic ∈ faults text id) : diagnostic.isError = true := by
  unfold faults at h
  split at h
  · next hscan =>
    cases List.mem_singleton.mp h
    exact (Reports.scan hscan).isError
  · next tokens hscan =>
    split at h
    · next hread =>
      cases List.mem_singleton.mp h
      exact (Reports.read hscan hread).isError
    · next hread => exact (Reports.check hscan hread h).isError

/-- A file is there just if nothing is reported about its text. -/
theorem statements?_cases (text : String) (id : FileId) :
    (∃ statements, statements? text id = .ok statements ∧ faults text id = [])
      ∨ statements? text id = .error (faults text id) := by
  unfold statements? Statement.readSource faults
  cases Token.scan text (some id) with
  | error diagnostic => exact .inr rfl
  | ok tokens =>
    dsimp only
    cases Statement.read tokens with
    | error diagnostic => exact .inr rfl
    | ok statements =>
      dsimp only
      cases hcheck : Statement.check statements with
      | nil => exact .inl ⟨statements, rfl, rfl⟩
      | cons first rest => exact .inr rfl

variable {files : Files}

/-- A file gets the next number, and is reported with its faults. -/
theorem diagnostics_load (sources : Sources) {path : Path} {text : String}
    (h : files.read path = some text) :
    (load files sources path).2.diagnostics = faults text sources.files.length
      ∧ (load files sources path).1.files.length = sources.files.length + 1 := by
  have hid : (sources.register ⟨text, some path⟩).2 = sources.files.length := rfl
  have hlength : (sources.register ⟨text, some path⟩).1.files.length
      = sources.files.length + 1 := List.length_append
  unfold load
  rw [h]
  dsimp only
  rw [hid]
  rcases statements?_cases text sources.files.length with ⟨statements, hok, hnone⟩ | herror
  · rw [hok, hnone]
    exact ⟨rfl, hlength⟩
  · rw [herror]
    exact ⟨rfl, hlength⟩

/-! ## All files -/

/-- What is reported about files is what is reported about each of them, in order. Induction on the
files: a file with faults is registered like any other, so the next one gets the next number. -/
theorem diagnostics_loadAll {paths : List Path} {texts : List String}
    (h : List.Forall₂ (fun path text => files.read path = some text) paths texts)
    (sources : Sources) :
    (loadAll files sources paths).2.diagnostics
      = (texts.zipIdx sources.files.length).flatMap fun pair => faults pair.1 pair.2 := by
  induction h generalizing sources with
  | nil => rfl
  | cons hread _ ih =>
    obtain ⟨hfirst, hlength⟩ := diagnostics_load sources hread
    rw [diagnostics_loadAll_cons, hfirst, ih, hlength, List.zipIdx_cons, List.flatMap_cons]

theorem hasErrors_faults {texts : List (String × FileId)} :
    hasErrors (texts.flatMap fun pair => faults pair.1 pair.2) = true
      ↔ ∃ pair ∈ texts, faults pair.1 pair.2 ≠ [] := by
  rw [hasErrors, List.any_eq_true]
  constructor
  · rintro ⟨diagnostic, hmem, -⟩
    obtain ⟨pair, hpair, hmem⟩ := List.mem_flatMap.mp hmem
    exact ⟨pair, hpair, List.ne_nil_of_mem hmem⟩
  · rintro ⟨pair, hpair, hne⟩
    obtain ⟨diagnostic, hmem⟩ := List.exists_mem_of_ne_nil _ hne
    exact ⟨diagnostic, List.mem_flatMap.mpr ⟨pair, hpair, hmem⟩, isError_of_mem_faults hmem⟩

end CheckedFile

theorem MemoryFiles.exists_texts (files : MemoryFiles) (root : Path) (extension : String) :
    ∃ texts, List.Forall₂ (fun path text => files.read path = some text)
      (files.sources root extension) texts := by
  have hread : ∀ path ∈ files.sources root extension, (files.read path).isSome :=
    fun path hpath => isSome_read_of_mem_sources hpath
  generalize files.sources root extension = paths at hread
  induction paths with
  | nil => exact ⟨[], .nil⟩
  | cons path paths ih =>
    rw [List.forall_mem_cons] at hread
    obtain ⟨text, htext⟩ := Option.isSome_iff_exists.mp hread.1
    obtain ⟨texts, hrest⟩ := ih hread.2
    exact ⟨text :: texts, .cons htext hrest⟩

namespace Workspace

/-- After an error in a text nothing else is looked at, and the reports are those about the
texts. -/
theorem build_of_hasErrors {files : Files} {extension : String} {sources : Sources} {root : Path}
    {paths : List Path} (hpaths : files.sources root extension = .ok paths)
    (h : hasErrors (CheckedFile.loadAll files sources paths).2.diagnostics = true) :
    (build files extension sources root).2
      = ⟨none, (CheckedFile.loadAll files sources paths).2.diagnostics⟩ := by
  unfold build
  rw [hpaths]
  cases paths with
  | nil => cases h
  | cons path paths =>
    dsimp only
    rw [if_pos h]

/-- **A faulty file neither hides nor changes what is reported about another.** The source files
below a directory can be read. If there are faults in the texts of some of them, there is no
workspace, and what is reported is the faults of the texts, one file after the other, with the
number of each file. If there are none, only faults of statements are reported. -/
theorem build_faults (files : MemoryFiles) (extension : String) (root : Path) :
    ∃ texts, List.Forall₂ (fun path text => files.read path = some text)
        (files.sources root extension) texts
      ∧ ((∃ pair ∈ texts.zipIdx, CheckedFile.faults pair.1 pair.2 ≠ []) →
          (build files.view extension {} root).2
            = ⟨none, texts.zipIdx.flatMap fun pair => CheckedFile.faults pair.1 pair.2⟩)
      ∧ ((∀ pair ∈ texts.zipIdx, CheckedFile.faults pair.1 pair.2 = []) →
          ∀ diagnostic ∈ (build files.view extension {} root).2.diagnostics,
            ∃ fault : BuildFault, fault.isOfStatement = true
              ∧ diagnostic.cause = .build fault) := by
  obtain ⟨texts, htexts⟩ := files.exists_texts root extension
  have hpaths : files.view.sources root extension = .ok (files.sources root extension) := rfl
  have hloaded : (CheckedFile.loadAll files.view {} (files.sources root extension)).2.diagnostics
      = texts.zipIdx.flatMap fun pair => CheckedFile.faults pair.1 pair.2 :=
    CheckedFile.diagnostics_loadAll htexts {}
  refine ⟨texts, htexts, ?_, ?_⟩
  · intro hfaulty
    rw [← hloaded]
    apply build_of_hasErrors hpaths
    rw [hloaded]
    exact CheckedFile.hasErrors_faults.mpr hfaulty
  · intro hnone diagnostic hreport
    have hsilent := List.flatMap_eq_nil_iff.mpr hnone
    rcases (build_loaded {} hpaths).2.1 diagnostic hreport with hload | hresolve
    · rw [hloaded, hsilent] at hload
      cases hload
    · exact exists_fault_of_mem_resolve hresolve

end Workspace

end Reskin
