import Reskin.Diagnostic.Report
import Reskin.Proofs.Compiler.Success
import Reskin.Proofs.Source.Marking
import Reskin.Proofs.Workspace.Reports

/-!
# Sessions of a compiler

A compiler keeps the source files of all its calls, and a location names one of them by its number
only. The numbers go into the tokens of a file, and from there into whatever is reported about it,
in every stage of a call. A report may be shown after any number of further calls: it is still about
the same file, since files are only added behind those that are there.

* **`Sources.GrowsTo`** — files are added, and none is changed; **`Compiler.growsTo_after`** — so it
  is over a whole session.
* **`CheckedFile.IsRegistered`** — a source file of a call with its new number;
  **`CheckedFile.loadAll_registers`** — what the files of a call come to.
* **`Concerns`** — what a report is about in a source file, in all stages of a call, and
  **`Concerns.exists_location`** where that is.
* **`Compiler.exists_concerns_of_mem_compile`** — every report of a call is about a source file of
  that call.
* **`Compiler.session_reports`** — the headline: the line that a report points at can be shown, then
  and after any further calls.
-/

namespace Reskin

/-! ## Registered files -/

/-- Files are added to the registered ones, and none of these is changed. -/
def Sources.GrowsTo (before after : Sources) : Prop :=
  before.files <+: after.files

namespace Sources

variable {before middle after : Sources} {id : FileId} {file : SourceFile}

theorem GrowsTo.refl (sources : Sources) : sources.GrowsTo sources :=
  List.prefix_rfl

theorem GrowsTo.trans (hfirst : before.GrowsTo middle) (hsecond : middle.GrowsTo after) :
    before.GrowsTo after :=
  List.IsPrefix.trans hfirst hsecond

theorem growsTo_register (sources : Sources) (file : SourceFile) :
    sources.GrowsTo (sources.register file).1 :=
  List.prefix_append _ _

/-- A number stays with its file. So a location that was reported can be shown at any later time. -/
theorem GrowsTo.get?_eq (h : before.GrowsTo after) (hget : before.get? id = some file) :
    after.get? id = some file := by
  obtain ⟨added, hfiles⟩ := h
  have hlt : id < before.files.length := (List.getElem?_eq_some_iff.mp hget).1
  unfold get? at hget ⊢
  rw [← hfiles, List.getElem?_append_left hlt]
  exact hget

/-- A file that is registered is found under its number. -/
theorem get?_register (sources : Sources) (file : SourceFile) :
    (sources.register file).1.get? (sources.register file).2 = some file :=
  List.getElem?_concat_length

end Sources

/-! ## The files of a call -/

namespace CheckedFile

variable {files : Files} {paths : List Path} {path : Path} {before middle after : Sources}
  {id : FileId} {file : SourceFile} {text : String}

/-- A file at one of `paths` that is registered with a new number. -/
structure IsRegistered (files : Files) (paths : List Path) (before after : Sources) (id : FileId)
    (file : SourceFile) : Prop where
  length_le : before.files.length ≤ id
  get?_eq : after.get? id = some file
  exists_path : ∃ path ∈ paths, file.path = some path ∧ files.read path = some file.text

/-- A file is registered when it is read, and stays so for all that is registered later. -/
theorem isRegistered_register (hpath : path ∈ paths) (hread : files.read path = some text)
    (hgrows : (before.register ⟨text, some path⟩).1.GrowsTo after) :
    IsRegistered files paths before after before.files.length ⟨text, some path⟩ where
  length_le := Nat.le_refl _
  get?_eq := hgrows.get?_eq (before.get?_register _)
  exists_path := ⟨path, hpath, rfl, hread⟩

/-- What is registered by the later files of a call is registered by the call. -/
theorem IsRegistered.cons (h : IsRegistered files paths middle after id file)
    (hgrows : before.GrowsTo middle) : IsRegistered files (path :: paths) before after id file where
  length_le := Nat.le_trans (List.IsPrefix.length_le hgrows) h.length_le
  get?_eq := h.get?_eq
  exists_path := by
    obtain ⟨other, hother, hfile⟩ := h.exists_path
    exact ⟨other, List.mem_cons_of_mem path hother, hfile⟩

theorem IsRegistered.mono (h : IsRegistered files paths before middle id file)
    (hgrows : middle.GrowsTo after) : IsRegistered files paths before after id file where
  length_le := h.length_le
  get?_eq := hgrows.get?_eq h.get?_eq
  exists_path := h.exists_path

/-! ### Reading -/

/-- What the first stages report about a text: the fault that ends the division into tokens, else
the one that ends the reading, else the violations of the rules on scopes. -/
theorem reports_of_statements? {diagnostics : List Diagnostic} {diagnostic : Diagnostic}
    (h : statements? text id = .error diagnostics) (hreport : diagnostic ∈ diagnostics) :
    Reports text (some id) diagnostic := by
  unfold statements? Statement.readSource at h
  cases hscan : Token.scan text (some id) with
  | error fault =>
    rw [hscan] at h
    cases h
    cases List.mem_singleton.mp hreport
    exact .scan hscan
  | ok tokens =>
    rw [hscan] at h
    dsimp only at h
    cases hread : Statement.read tokens with
    | error fault =>
      rw [hread] at h
      cases h
      cases List.mem_singleton.mp hreport
      exact .read hscan hread
    | ok statements =>
      rw [hread] at h
      dsimp only at h
      split at h
      · cases h
      · cases h
        exact .check hscan hread hreport

/-- The statements of a text are read from its tokens, so what is known about places in tokens is
known about places in statements. -/
theorem exists_tokens_of_statements? {statements : List Statement}
    (h : statements? text id = .ok statements) :
    ∃ tokens, Token.scan text (some id) = .ok tokens ∧ Statement.read tokens = .ok statements := by
  unfold statements? Statement.readSource at h
  cases hscan : Token.scan text (some id) with
  | error fault =>
    rw [hscan] at h
    cases h
  | ok tokens =>
    rw [hscan] at h
    dsimp only at h
    cases hread : Statement.read tokens with
    | error fault =>
      rw [hread] at h
      cases h
    | ok statements =>
      rw [hread] at h
      dsimp only at h
      split at h
      · cases h
        exact ⟨tokens, rfl, hread⟩
      · cases h

/-! ### Loading -/

/-- A file that can be read gets the next number, and is there or is reported with it. This is all
that the induction over the files of a call needs. -/
theorem load_eq (sources : Sources) (hread : files.read path = some text) :
    (load files sources path).1 = (sources.register ⟨text, some path⟩).1
      ∧ (∀ diagnostic ∈ (load files sources path).2.diagnostics,
        Reports text (some sources.files.length) diagnostic)
      ∧ ∀ checked ∈ (load files sources path).2.value, checked.id = sources.files.length
        ∧ statements? text checked.id = .ok checked.statements := by
  have hid : (sources.register ⟨text, some path⟩).2 = sources.files.length := rfl
  unfold load
  rw [hread]
  dsimp only
  cases hstatements : statements? text (sources.register ⟨text, some path⟩).2 with
  | ok statements =>
    refine ⟨rfl, List.forall_mem_nil _, ?_⟩
    intro checked hchecked
    cases hchecked
    exact ⟨hid, hstatements⟩
  | error diagnostics =>
    refine ⟨rfl, fun diagnostic hreport => reports_of_statements? hstatements hreport, ?_⟩
    intro checked hchecked
    cases hchecked

/-- Loading a file registers one file or none, and never changes one. -/
theorem growsTo_load (files : Files) (sources : Sources) (path : Path) :
    sources.GrowsTo (load files sources path).1 := by
  cases hread : files.read path with
  | none =>
    have hsources : (load files sources path).1 = sources := by
      unfold load
      rw [hread]
    rw [hsources]
    exact .refl sources
  | some text =>
    rw [(load_eq sources hread).1]
    exact sources.growsTo_register _

theorem growsTo_loadAll (files : Files) (sources : Sources) (paths : List Path) :
    sources.GrowsTo (loadAll files sources paths).1 := by
  induction paths generalizing sources with
  | nil => exact .refl sources
  | cons path paths ih => exact (growsTo_load files sources path).trans (ih _)

/-- **What the files of a call come to.** If all of them can be read, every report is about the text
of one of them and carries its number, and so do the files without faults. Induction on the paths;
what was registered first stays registered while the rest is loaded. -/
theorem loadAll_registers (sources : Sources) (h : ∀ path ∈ paths, (files.read path).isSome) :
    (∀ diagnostic ∈ (loadAll files sources paths).2.diagnostics, ∃ id file,
      IsRegistered files paths sources (loadAll files sources paths).1 id file
        ∧ Reports file.text (some id) diagnostic)
      ∧ ∀ checked ∈ (loadAll files sources paths).2.value, ∃ file,
        IsRegistered files paths sources (loadAll files sources paths).1 checked.id file
          ∧ statements? file.text checked.id = .ok checked.statements := by
  induction paths generalizing sources with
  | nil => exact ⟨List.forall_mem_nil _, List.forall_mem_nil _⟩
  | cons path paths ih =>
    obtain ⟨hpath, hpaths⟩ := List.forall_mem_cons.mp h
    obtain ⟨text, hread⟩ := Option.isSome_iff_exists.mp hpath
    obtain ⟨hsources, hreports, hvalue⟩ := load_eq sources hread
    obtain ⟨ihreports, ihvalue⟩ := ih (load files sources path).1 hpaths
    -- The first file has the next number, and the numbers of the others are behind it.
    have hgrows := growsTo_load files sources path
    have hfirst : IsRegistered files (path :: paths) sources
        (loadAll files sources (path :: paths)).1 sources.files.length ⟨text, some path⟩ := by
      apply isRegistered_register List.mem_cons_self hread
      rw [← hsources]
      exact growsTo_loadAll files _ paths
    constructor
    · intro diagnostic hreport
      rw [diagnostics_loadAll_cons, List.mem_append] at hreport
      rcases hreport with hreport | hreport
      · exact ⟨_, _, hfirst, hreports diagnostic hreport⟩
      · obtain ⟨id, file, hregistered, habout⟩ := ihreports diagnostic hreport
        exact ⟨id, file, hregistered.cons hgrows, habout⟩
    · intro checked hchecked
      rw [value_loadAll_cons, List.mem_append, Option.mem_toList] at hchecked
      rcases hchecked with hchecked | hchecked
      · obtain ⟨hid, hstatements⟩ := hvalue checked hchecked
        refine ⟨⟨text, some path⟩, ?_, hstatements⟩
        rw [hid]
        exact hfirst
      · obtain ⟨file, hregistered, hstatements⟩ := ihvalue checked hchecked
        exact ⟨file, hregistered.cons hgrows, hstatements⟩

end CheckedFile

/-! ## What reports are about -/

/-- What a report of a call is about in a source text with the number `id`: the text itself, or its
statements. -/
inductive Concerns (files : Files) (root : Path) (id : FileId) (text : String)
    (diagnostic : Diagnostic) : Prop where
  | reading (h : Reports text (some id) diagnostic)
  | building {statements : List Statement}
      (hstatements : CheckedFile.statements? text id = .ok statements)
      (h : IsBuildReport files root statements diagnostic)

/-- A location on a line of a registered file. -/
structure Location.IsIn (id : FileId) (file : SourceFile) (location : Location) : Prop where
  file_eq : location.file = some id
  line_isSome : (file.line? location.line).isSome

variable {files : Files} {root : Path} {id : FileId} {file : SourceFile} {diagnostic : Diagnostic}

/-- The line of a place in a text is there, also behind the last newline. -/
theorem SourceFile.isSome_line?_after {before rest : List Char}
    (h : file.text.toList = before ++ rest) :
    (file.line? (Position.after before).line).isSome := by
  rw [SourceFile.line?, h, Text.line?_append]
  rfl

/-- A stretch starts at a place in the text, so its line can be shown. -/
theorem IsStretch.isSome_line? {location : Location} {marked : String}
    (h : IsStretch file.text location marked) : (file.line? location.line).isSome := by
  obtain ⟨before, rest, htext, hplace⟩ := h.exists_text
  have hline : location.line = (Position.after before).line := congrArg Position.line hplace
  rw [hline]
  exact SourceFile.isSome_line?_after htext

/-- A report of the first stages names a line of the text. For a fault in a piece, the line is that
of the start of the piece, wherever the marked range is. -/
theorem Reports.exists_location (h : Reports file.text (some id) diagnostic) :
    ∃ location, diagnostic.location = some location ∧ location.IsIn id file := by
  cases h with
  | scan hscan =>
    -- Wherever the marked range of a fault is, its line is that of the piece where it occurs.
    obtain ⟨before, rest, fault, htext, -, -, rfl⟩ := scan_eq_error hscan
    exact ⟨_, rfl, rfl, SourceFile.isSome_line?_after htext⟩
  | read hscan hread =>
    obtain ⟨location, marked, hlocation, hfile, -, hpoints⟩ := exists_pointsAt_of_read hscan hread
    exact ⟨location, hlocation, hfile, hpoints.isStretch.isSome_line?⟩
  | check hscan hread hcheck =>
    obtain ⟨location, marked, hlocation, hfile, -, hpoints⟩ :=
      exists_pointsAt_of_check hscan hread hcheck
    exact ⟨location, hlocation, hfile, hpoints.isStretch.isSome_line?⟩

/-- **A report is at a line of the file that it is about.** -/
theorem Concerns.exists_location (h : Concerns files root id file.text diagnostic) :
    ∃ location, diagnostic.location = some location ∧ location.IsIn id file := by
  cases h with
  | reading h => exact h.exists_location
  | building hstatements h =>
    obtain ⟨token, htoken, cause, rfl⟩ := h.exists_token
    obtain ⟨tokens, hscan, hread⟩ := CheckedFile.exists_tokens_of_statements? hstatements
    have hmem : token ∈ tokens := Statement.mem_of_mem_tokens_read hread htoken
    have hstretch := isStretch_of_mem_scan hscan hmem
    exact ⟨token.location, rfl, file_of_mem_scan hscan hmem, hstretch.isSome_line?⟩

/-! ## Calls -/

variable {paths : List Path}

/-- What is reported about the statements of a loaded file is about that file, because the file
keeps the number it was registered with. -/
theorem CheckedFile.exists_concerns_of_mem_loadAll {sources : Sources} {checked : CheckedFile}
    (hread : ∀ path ∈ paths, (files.read path).isSome)
    (hchecked : checked ∈ (loadAll files sources paths).2.value)
    (hreport : IsBuildReport files root checked.statements diagnostic) :
    ∃ id file, IsRegistered files paths sources (loadAll files sources paths).1 id file
      ∧ Concerns files root id file.text diagnostic := by
  obtain ⟨file, hregistered, hstatements⟩ := (loadAll_registers sources hread).2 checked hchecked
  exact ⟨checked.id, file, hregistered, .building hstatements hreport⟩

namespace Workspace

variable {extension : String} {sources : Sources}

/-- What becomes of the files of a call once they are loaded: no more files are registered, and
reports are only added by the resolution. -/
theorem build_loaded (sources : Sources) (hpaths : files.sources root extension = .ok paths) :
    (build files extension sources root).1 = (CheckedFile.loadAll files sources paths).1
      ∧ (∀ diagnostic ∈ (build files extension sources root).2.diagnostics,
        diagnostic ∈ (CheckedFile.loadAll files sources paths).2.diagnostics
          ∨ diagnostic ∈ (resolve files root
            (CheckedFile.loadAll files sources paths).2.value).diagnostics)
      ∧ ∀ workspace ∈ (build files extension sources root).2.value, workspace
        = (resolve files root (CheckedFile.loadAll files sources paths).2.value).value := by
  unfold build
  rw [hpaths]
  cases paths with
  | nil =>
    refine ⟨rfl, List.forall_mem_nil _, ?_⟩
    intro workspace hworkspace
    cases hworkspace
    rfl
  | cons path paths =>
    dsimp only
    split
    · refine ⟨rfl, fun diagnostic hreport => .inl hreport, ?_⟩
      intro workspace hworkspace
      cases hworkspace
    · refine ⟨rfl, fun diagnostic hreport => List.mem_append.mp hreport, ?_⟩
      intro workspace hworkspace
      split at hworkspace
      · cases hworkspace
      · exact (Option.some.inj hworkspace).symm

/-- Every report of a build is about a source file of the call, from whichever of the two stages it
comes. -/
theorem exists_concerns_of_mem_build (hpaths : files.sources root extension = .ok paths)
    (hread : ∀ path ∈ paths, (files.read path).isSome)
    (h : diagnostic ∈ (build files extension sources root).2.diagnostics) :
    ∃ id file, CheckedFile.IsRegistered files paths sources
        (build files extension sources root).1 id file
      ∧ Concerns files root id file.text diagnostic := by
  obtain ⟨hsources, hreports, -⟩ := build_loaded sources hpaths
  rw [hsources]
  rcases hreports diagnostic h with hload | hresolve
  · obtain ⟨id, file, hregistered, habout⟩ :=
      (CheckedFile.loadAll_registers sources hread).1 diagnostic hload
    exact ⟨id, file, hregistered, .reading habout⟩
  · obtain ⟨checked, hchecked, hreport⟩ := exists_file_of_mem_resolve hresolve
    exact CheckedFile.exists_concerns_of_mem_loadAll hread hchecked hreport

/-- The keys of a workspace that is built are those of the files that were loaded. So a warning
about a key is about the file in which the key was written. -/
theorem exists_concerns_of_mem_keys {workspace : Workspace} {block : Block} {key : Token}
    (hpaths : files.sources root extension = .ok paths)
    (hread : ∀ path ∈ paths, (files.read path).isSome)
    (hbuilt : (build files extension sources root).2.value = some workspace)
    (hblock : block ∈ workspace.blocks) (hkey : key ∈ block.keys) :
    ∃ id file, CheckedFile.IsRegistered files paths sources
        (build files extension sources root).1 id file
      ∧ Concerns files root id file.text (.located (.noItemMatches key.text) key.location) := by
  obtain ⟨hsources, -, hworkspace⟩ := build_loaded sources hpaths
  rw [hworkspace workspace hbuilt] at hblock
  rw [hsources]
  obtain ⟨checked, hchecked, hreport⟩ := exists_file_of_mem_keys hblock hkey
  exact CheckedFile.exists_concerns_of_mem_loadAll hread hchecked hreport

end Workspace

namespace Compiler

theorem sources_compile (compiler : Compiler) (files : Files) (root : Path) :
    (compiler.compile files root).1.sources
      = (Workspace.build files compiler.config.extension compiler.sources root).1 := by
  unfold compile
  dsimp only
  split <;> rfl

theorem config_compile (compiler : Compiler) (files : Files) (root : Path) :
    (compiler.compile files root).1.config = compiler.config := by
  unfold compile
  dsimp only
  split <;> rfl

/-- **Every report of a call is about a source file of that call.** The stage that makes the pack
adds warnings about keys only. -/
theorem exists_concerns_of_mem_compile {compiler : Compiler}
    (hpaths : files.sources root compiler.config.extension = .ok paths)
    (hread : ∀ path ∈ paths, (files.read path).isSome)
    (h : diagnostic ∈ (compiler.compile files root).2.diagnostics) :
    ∃ id file, CheckedFile.IsRegistered files paths compiler.sources
        (compiler.compile files root).1.sources id file
      ∧ Concerns files root id file.text diagnostic := by
  rw [sources_compile]
  rcases compile_cases compiler files root with
    ⟨-, hcompile⟩ | ⟨workspace, hbuilt, -, hgrounded, hcompile⟩
  · rw [hcompile] at h
    exact Workspace.exists_concerns_of_mem_build hpaths hread h
  · rw [hcompile, List.mem_append] at h
    rcases h with hbuild | hpack
    · exact Workspace.exists_concerns_of_mem_build hpaths hread hbuild
    · -- The generation of a pack reports only keys.
      obtain ⟨block, hblock, key, hkey, rfl⟩ := Pack.exists_key_of_mem_diagnostics hgrounded hpack
      exact Workspace.exists_concerns_of_mem_keys hpaths hread hbuilt hblock hkey

/-! ## Sessions -/

/-- A call of a compiler: the files that it sees, and the directory. -/
structure Call where
  files : MemoryFiles
  root : Path

/-- A compiler after some calls. -/
def after (compiler : Compiler) (calls : List Call) : Compiler :=
  calls.foldl (fun compiler call => (compiler.compile call.files.view call.root).1) compiler

theorem after_append (compiler : Compiler) (earlier later : List Call) :
    compiler.after (earlier ++ later) = (compiler.after earlier).after later :=
  List.foldl_append

theorem config_after (compiler : Compiler) (calls : List Call) :
    (compiler.after calls).config = compiler.config := by
  induction calls generalizing compiler with
  | nil => rfl
  | cons call calls ih =>
    have hstep := compiler.config_compile call.files.view call.root
    exact (ih _).trans hstep

/-- A call registers its source files, and changes none of the others. -/
theorem growsTo_compile (compiler : Compiler) (call : Call) :
    compiler.sources.GrowsTo (compiler.compile call.files.view call.root).1.sources := by
  have hpaths : call.files.view.sources call.root compiler.config.extension
      = .ok (call.files.sources call.root compiler.config.extension) := rfl
  rw [sources_compile, (Workspace.build_loaded _ hpaths).1]
  exact CheckedFile.growsTo_loadAll _ _ _

/-- **Files are only added over a session.** Induction on the calls. -/
theorem growsTo_after (compiler : Compiler) (calls : List Call) :
    compiler.sources.GrowsTo (compiler.after calls).sources := by
  induction calls generalizing compiler with
  | nil => exact .refl _
  | cons call calls ih => exact (growsTo_compile compiler call).trans (ih _)

/-- **File numbers stay valid over a whole session.** Over any calls the registered files only grow.
Every report of a call has a location, which names a file that this call has registered: a source
file below its directory, with its path and text, which the report is about. The line that the
location names can be shown, after the call and after any further calls. -/
theorem session_reports (compiler : Compiler) (earlier later : List Call) (call : Call) :
    (compiler.after earlier).sources.GrowsTo (compiler.after (earlier ++ later)).sources
      ∧ ∀ diagnostic ∈ ((compiler.after earlier).compile call.files.view call.root).2.diagnostics,
        ∃ location id file line, diagnostic.location = some location ∧ location.file = some id
          ∧ CheckedFile.IsRegistered call.files.view
            (call.files.sources call.root compiler.config.extension)
            (compiler.after earlier).sources (compiler.after (earlier ++ call :: later)).sources
            id file
          ∧ Concerns call.files.view call.root id file.text diagnostic
          ∧ Report.sourceLine? (compiler.after (earlier ++ call :: later)).sources location
            = some (file, line) := by
  constructor
  · rw [after_append]
    exact growsTo_after _ later
  · intro diagnostic hreport
    have hpaths : call.files.view.sources call.root (compiler.after earlier).config.extension
        = .ok (call.files.sources call.root compiler.config.extension) := by
      rw [config_after]
      rfl
    have hread : ∀ path ∈ call.files.sources call.root compiler.config.extension,
        (call.files.view.read path).isSome := fun path => MemoryFiles.isSome_read_of_mem_sources
    obtain ⟨id, file, hregistered, hconcerns⟩ :=
      exists_concerns_of_mem_compile hpaths hread hreport
    obtain ⟨location, hlocation, hin⟩ := hconcerns.exists_location
    obtain ⟨line, hline⟩ := Option.isSome_iff_exists.mp hin.line_isSome
    -- What the call has registered stays as it is while further calls are made.
    have hlast : compiler.after (earlier ++ call :: later)
        = ((compiler.after earlier).compile call.files.view call.root).1.after later :=
      after_append compiler earlier (call :: later)
    have hkept := hregistered.mono (growsTo_after _ later)
    rw [← hlast] at hkept
    refine ⟨location, id, file, line, hlocation, hin.file_eq, hkept, hconcerns, ?_⟩
    simp only [Report.sourceLine?, hin.file_eq, hkept.get?_eq, hline, Option.bind_eq_bind,
      Option.bind_some, Option.pure_def]

def missingTextureCall : Call :=
  ⟨.ofList [(⟨"pack/a.rep"⟩, "any for\x7bitems='t'\x7d")], ⟨"pack"⟩⟩

def faultyEscape : String :=
  "\n let x = 'a\\q'"

/-- A call for a source file with an escape that there is not, on its second line. -/
def faultyEscapeCall : Call :=
  ⟨.ofList [(⟨"lib/b.rep"⟩, faultyEscape)], ⟨"lib"⟩⟩

def faultyEscapeReport : Diagnostic :=
  .located (.lexical (.invalidEscape "\\q")) ⟨some 1, 2, 12, 2⟩

/-- The report of the second of three calls is still about its file after the third one. -/
theorem session_reports_threeCalls :
    faultyEscapeReport ∈ ((Compiler.after ⟨{}, {}⟩ [missingTextureCall]).compile
        faultyEscapeCall.files.view faultyEscapeCall.root).2.diagnostics
      ∧ Concerns faultyEscapeCall.files.view faultyEscapeCall.root 1 faultyEscape faultyEscapeReport
      ∧ ∃ line, Report.sourceLine? (Compiler.after ⟨{}, {}⟩
          [missingTextureCall, faultyEscapeCall, missingTextureCall]).sources ⟨some 1, 2, 12, 2⟩
        = some (⟨faultyEscape, some ⟨"lib/b.rep"⟩⟩, line) := by
  have hreport : faultyEscapeReport ∈ ((Compiler.after ⟨{}, {}⟩ [missingTextureCall]).compile
      faultyEscapeCall.files.view faultyEscapeCall.root).2.diagnostics := by
    decide +kernel
  obtain ⟨location, id, file, line, hlocation, hid, hregistered, hconcerns, hshown⟩ :=
    (session_reports ⟨{}, {}⟩ [missingTextureCall] [missingTextureCall] faultyEscapeCall).2
      faultyEscapeReport hreport
  cases hlocation
  cases hid
  -- The call has one source file only, so that is the one which is shown.
  have hpaths : faultyEscapeCall.files.sources faultyEscapeCall.root "rep" = [⟨"lib/b.rep"⟩] := by
    decide +kernel
  have hread : faultyEscapeCall.files.read ⟨"lib/b.rep"⟩ = some faultyEscape := by
    decide +kernel
  obtain ⟨path, hpath, hfile, htext⟩ := hregistered.exists_path
  have hmem : path ∈ [Path.mk "lib/b.rep"] := hpaths ▸ hpath
  cases List.mem_singleton.mp hmem
  have hsame : file.text = faultyEscape := Option.some.inj (htext.symm.trans hread)
  obtain ⟨text, name⟩ := file
  cases hsame
  cases hfile
  exact ⟨hreport, hconcerns, line, hshown⟩

end Compiler

end Reskin
