import Reskin.Proofs.Compiler.Layout
import Reskin.Proofs.Workspace.Agreement
import Reskin.Proofs.Workspace.Faults

/-!
# The place of a definition does not matter

A source text is cut into pieces before anything is read, and pieces that are definitions are moved
to other places between the statements of the file. The file is still read without faults, and the
workspace comes to the same: its names have the same values, and its rules differ in the places of
their tokens only. Every file that is read and breaks no rule has such pieces, one for each of its
statements (`Statement.exists_pieces`).

* **`MovesDefinitions`** — two texts that differ in the places of definitions;
  **`Files.MovesDefinitions`** — two views of files with such texts.
* **`MovesDefinitions.exists_readSource`**, **`CheckedFile.loadAll_movesDefinitions`**,
  **`Workspace.resolve_movesDefinitions`** — one stage after the other.
* **`Workspace.build_movesDefinitions`** — the headline.
-/

namespace Reskin

open Statement (Rearranges)

/-! ## Source texts -/

/-- Two source texts that are put together from the same pieces, of which only definitions may have
moved. -/
def MovesDefinitions (source moved : String) : Prop :=
  ∃ pieces others, Moves pieces others
    ∧ (Token.scan source none).map (List.map Token.text) = .ok pieces.flatten
    ∧ (Token.scan moved none).map (List.map Token.text) = .ok others.flatten

/-- A text that has tokens with some texts has them for every file, and only their places are left
open. -/
theorem exists_scan_of_texts {source : String} {texts : List String}
    (h : (Token.scan source none).map (List.map Token.text) = .ok texts) (file : Option FileId) :
    ∃ tokens, Token.scan source file = .ok tokens
      ∧ tokens.map Token.unplaced = texts.map (Token.bare file) := by
  cases hscan : Token.scan source none with
  | error diagnostic =>
    rw [hscan] at h
    cases h
  | ok tokens =>
    rw [hscan] at h
    rw [← Except.ok.inj h]
    exact scan_unplaced hscan file

/-- A text whose definitions are moved is read, and has the same statements but for this. Places are
forgotten for this, since the tokens of the two texts stand at different ones. -/
theorem MovesDefinitions.exists_readSource {source moved : String}
    (h : MovesDefinitions source moved) {file : Option FileId} {statements : List Statement}
    (hread : Statement.readSource source file = .ok statements)
    (hcheck : Statement.check statements = []) :
    ∃ others, Statement.readSource moved file = .ok others
      ∧ Statement.check others = []
      ∧ Rearranges (statements.map Statement.unplaced) (others.map Statement.unplaced) := by
  obtain ⟨pieces, otherPieces, hmoves, htexts, hotherTexts⟩ := h
  obtain ⟨tokens, hscan, htokens⟩ := exists_scan_of_texts htexts file
  obtain ⟨otherTokens, hotherScan, hotherTokens⟩ := exists_scan_of_texts hotherTexts file
  unfold Statement.readSource at hread ⊢
  rw [hscan] at hread
  rw [hotherScan]
  dsimp only at hread ⊢
  have hbare := Statement.read_unplaced tokens
  rw [htokens, hread] at hbare
  have hbareCheck := Statement.check_unplaced statements
  rw [hcheck] at hbareCheck
  obtain ⟨others, hothers, hrearranges⟩ := hmoves.exists_read file hbare hbareCheck
  have hmovedCheck := Statement.check_of_rearranges hrearranges hbareCheck
  have hotherBare := Statement.read_unplaced otherTokens
  rw [hotherTokens, hothers] at hotherBare
  cases hresult : Statement.read otherTokens with
  | error diagnostic =>
    rw [hresult] at hotherBare
    cases hotherBare
  | ok result =>
    rw [hresult] at hotherBare
    cases hotherBare
    rw [Statement.check_unplaced, List.map_eq_nil_iff] at hmovedCheck
    exact ⟨result, rfl, hmovedCheck, hrearranges⟩

/-! ## Loading -/

/-- Two views of files that differ in the texts of source files only, where definitions may have
moved. -/
structure Files.MovesDefinitions (files moved : Files) (root : Path) (extension : String) :
    Prop where
  sources_eq : moved.sources root extension = files.sources root extension
  present_eq : moved.present = files.present
  isFile_eq : moved.isFile = files.isFile
  texts : ∀ paths, files.sources root extension = .ok paths → ∀ path ∈ paths,
    ∃ source other, files.read path = some source ∧ moved.read path = some other
      ∧ Reskin.MovesDefinitions source other

namespace CheckedFile

theorem ofStatements_of_check {statements : List Statement}
    (h : Statement.check statements = []) (path : Path) (id : FileId) :
    ofStatements path id (.ok statements) = ⟨some ⟨path, id, statements⟩, []⟩ := by
  unfold ofStatements
  dsimp only
  rw [h]

theorem exists_of_silent {path : Path} {id : FileId} {result : Except Diagnostic (List Statement)}
    (h : (ofStatements path id result).diagnostics = []) :
    ∃ statements, result = .ok statements ∧ Statement.check statements = [] := by
  cases result with
  | error diagnostic => cases h
  | ok statements =>
    refine ⟨statements, rfl, ?_⟩
    unfold ofStatements at h
    dsimp only at h
    split at h
    · next hcheck => exact hcheck
    · next hcheck => exact absurd h hcheck

variable {files moved : Files} {sources others : Sources}

/-- A file whose definitions are moved is there, like the file itself. Its number is the same, as
the same number of files was registered before it. -/
theorem load_movesDefinitions {path : Path} {source other : String}
    (hsource : files.read path = some source) (hother : moved.read path = some other)
    (h : MovesDefinitions source other) (hlength : sources.files.length = others.files.length)
    (hsilent : (load files sources path).2.diagnostics = []) :
    ∃ file otherFile, (load files sources path).2 = ⟨some file, []⟩
      ∧ (load moved others path).2 = ⟨some otherFile, []⟩
      ∧ otherFile.path = file.path ∧ Rearranges file.unplaced otherFile.unplaced := by
  rw [load_eq_ofStatements hsource] at hsilent ⊢
  rw [load_eq_ofStatements hother, ← hlength]
  obtain ⟨statements, hread, hcheck⟩ := exists_of_silent hsilent
  obtain ⟨moved, hmoved, hmovedCheck, hrearranges⟩ := h.exists_readSource hread hcheck
  rw [hread, hmoved, ofStatements_of_check hcheck, ofStatements_of_check hmovedCheck]
  exact ⟨_, _, rfl, rfl, rfl, rfl, hrearranges⟩

/-- Files whose definitions are moved are all there, like the files themselves. Induction on the
files, with as many registered on both sides. -/
theorem loadAll_movesDefinitions {paths : List Path}
    (h : ∀ path ∈ paths, ∃ source other, files.read path = some source
      ∧ moved.read path = some other ∧ MovesDefinitions source other)
    (hlength : sources.files.length = others.files.length)
    (hsilent : (loadAll files sources paths).2.diagnostics = []) :
    (loadAll moved others paths).2.diagnostics = []
      ∧ List.Forall₂ (fun file other => other.path = file.path
          ∧ Rearranges file.unplaced other.unplaced)
        (loadAll files sources paths).2.value (loadAll moved others paths).2.value := by
  induction paths generalizing sources others with
  | nil => exact ⟨rfl, .nil⟩
  | cons path paths ih =>
    rw [List.forall_mem_cons] at h
    obtain ⟨⟨source, other, hsource, hother, hmoves⟩, hrest⟩ := h
    rw [diagnostics_loadAll_cons, List.append_eq_nil_iff] at hsilent
    obtain ⟨file, otherFile, hload, hotherLoad, hfile⟩ :=
      load_movesDefinitions hsource hother hmoves hlength hsilent.1
    have hnext : (load files sources path).1.files.length
        = (load moved others path).1.files.length := by
      rw [(diagnostics_load sources hsource).2, (diagnostics_load others hother).2, hlength]
    obtain ⟨hreports, hfiles⟩ := ih hrest hnext hsilent.2
    rw [diagnostics_loadAll_cons, value_loadAll_cons, value_loadAll_cons, hload, hotherLoad,
      hreports]
    exact ⟨rfl, .cons hfile hfiles⟩

end CheckedFile

/-! ## Building -/

/-- All that is reported about files while they are loaded are errors. -/
theorem CheckedFile.isError_of_mem_loadAll {files : Files} {sources : Sources} {paths : List Path}
    (h : ∀ path ∈ paths, (files.read path).isSome) :
    ∀ diagnostic ∈ (loadAll files sources paths).2.diagnostics, diagnostic.isError = true := by
  intro diagnostic hreport
  obtain ⟨id, path, -, habout⟩ := (loadAll_registers sources h).1 diagnostic hreport
  exact habout.isError

theorem eq_nil_of_hasErrors {diagnostics : List Diagnostic}
    (h : ∀ diagnostic ∈ diagnostics, diagnostic.isError = true)
    (hnone : hasErrors diagnostics = false) : diagnostics = [] := by
  rw [hasErrors, List.any_eq_false] at hnone
  rw [List.eq_nil_iff_forall_not_mem]
  intro diagnostic hmem
  exact hnone diagnostic hmem (h diagnostic hmem)

namespace Workspace

variable {files moved : Files} {root : Path} {extension : String}

theorem isError_of_mem_resolve {checked : List CheckedFile} :
    ∀ diagnostic ∈ (resolve files root checked).diagnostics, diagnostic.isError = true := by
  intro diagnostic hreport
  obtain ⟨fault, -, hcause⟩ := exists_fault_of_mem_resolve hreport
  rw [Diagnostic.isError, Diagnostic.severity, hcause]
  rfl

/-- A workspace that is there comes without any report. With an error there is none, and everything
that can be reported up to this point is an error. -/
theorem silent_of_ofChecked {checked : Reported (List CheckedFile)} {workspace : Workspace}
    (herrors : ∀ diagnostic ∈ checked.diagnostics, diagnostic.isError = true)
    (h : (ofChecked files root checked).value = some workspace) :
    checked.diagnostics = [] ∧ (resolve files root checked.value).diagnostics = []
      ∧ workspace = (resolve files root checked.value).value := by
  unfold ofChecked at h
  split at h
  · cases h
  · next hload =>
    dsimp only at h
    split at h
    · cases h
    · next hnone =>
      cases h
      rw [Bool.not_eq_true, Reported.hasErrors_append, Bool.or_eq_false_iff] at hnone
      have hresolve := eq_nil_of_hasErrors isError_of_mem_resolve hnone.2
      exact ⟨eq_nil_of_hasErrors herrors hnone.1, hresolve, rfl⟩

theorem ofChecked_of_silent {checked : Reported (List CheckedFile)}
    (hload : checked.diagnostics = [])
    (hresolve : (resolve files root checked.value).diagnostics = []) :
    ofChecked files root checked = ⟨some (resolve files root checked.value).value, []⟩ := by
  unfold ofChecked
  dsimp only
  rw [hload, hresolve]
  rfl

/-- A source of a workspace and one of another workspace, in which names have the same values, with
the same rules but for the places of tokens. -/
structure SameSource (workspace other : Workspace) (source otherSource : PackSource) : Prop where
  path_eq : otherSource.path = source.path
  id_eq : otherSource.id = source.id
  lookup_eq : ∀ files root,
    (Environment.mk files root otherSource.locals other.globals).lookup
      = (Environment.mk files root source.locals workspace.globals).lookup
  rules_eq : otherSource.rules.map Rule.unplaced = source.rules.map Rule.unplaced

theorem sameSource_of_agrees {workspace other : Workspace} {source otherSource : PackSource}
    (hglobals : other.globals.unplaced.get? = workspace.globals.unplaced.get?)
    (hpath : otherSource.path = source.path)
    (h : PackSource.Agrees source.unplaced otherSource.unplaced) :
    SameSource workspace other source otherSource where
  path_eq := hpath
  id_eq := h.id_eq
  lookup_eq := by
    intro files root
    have hagrees := agrees_of_get? files.shape root h.get?_eq hglobals
    have hsource := Environment.lookup_unplaced ⟨files, root, source.locals, workspace.globals⟩
    have hother := Environment.lookup_unplaced ⟨files, root, otherSource.locals, other.globals⟩
    rw [← hsource, ← hother]
    exact hagrees.lookup_eq
  rules_eq := h.rules_eq

/-- What files become does not depend on where their definitions are, up to places. Both workspaces
are compared without places, where the statements are the same but for their order. -/
theorem resolve_movesDefinitions {checked others : List CheckedFile}
    (hshape : moved.shape = files.shape)
    (h : List.Forall₂ (fun file other => other.path = file.path
      ∧ CheckedFile.Rearranges file.unplaced other.unplaced) checked others)
    (hsilent : (resolve files root checked).diagnostics = []) :
    (resolve moved root others).diagnostics = []
      ∧ List.Forall₂ (SameSource (resolve files root checked).value
          (resolve moved root others).value)
        (resolve files root checked).value.files (resolve moved root others).value.files := by
  have hchecked := resolve_unplaced files root checked
  have hothers := resolve_unplaced moved root others
  rw [hshape] at hothers
  have hsilentChecked : (resolve files.shape root (checked.map CheckedFile.unplaced)).diagnostics
      = [] := by
    rw [← hchecked, Reported.unplaced, hsilent]
    rfl
  have hrearranges : List.Forall₂ CheckedFile.Rearranges (checked.map CheckedFile.unplaced)
      (others.map CheckedFile.unplaced) := by
    rw [List.forall₂_map_left_iff, List.forall₂_map_right_iff]
    exact h.imp fun file other hfile => hfile.2
  obtain ⟨hreports, hglobals, hsources⟩ :=
    resolve_rearranges files.shape root hrearranges hsilentChecked
  rw [← hothers] at hreports hglobals hsources
  rw [← hchecked] at hglobals hsources
  refine ⟨List.map_eq_nil_iff.mp hreports, ?_⟩
  have hpaths : List.Forall₂ (fun path other => other = path)
      ((resolve files root checked).value.files.map PackSource.path)
      ((resolve moved root others).value.files.map PackSource.path) := by
    rw [paths_resolve, paths_resolve, List.forall₂_map_left_iff, List.forall₂_map_right_iff]
    exact h.imp fun file other hfile => hfile.1
  rw [List.forall₂_map_left_iff, List.forall₂_map_right_iff] at hpaths
  have hagree : List.Forall₂ (fun source other =>
      PackSource.Agrees (PackSource.unplaced source) (PackSource.unplaced other))
      (resolve files root checked).value.files (resolve moved root others).value.files :=
    List.forall₂_map_right_iff.mp (List.forall₂_map_left_iff.mp hsources)
  exact hpaths.mp (fun source other => sameSource_of_agrees hglobals) hagree

/-- **The place of a definition in its file does not matter.** If a workspace is built, and the
definitions of each file are moved to other places between its statements, then a workspace is built
without any report, in which all names have the same values in every file and all rules are the same
but for the places of tokens. -/
theorem build_movesDefinitions (h : files.MovesDefinitions moved root extension)
    (sources : Sources) {workspace : Workspace}
    (hbuilt : (build files extension sources root).2.value = some workspace) :
    ∃ other, (build moved extension sources root).2 = ⟨some other, []⟩
      ∧ other.root = workspace.root
      ∧ List.Forall₂ (SameSource workspace other) workspace.files other.files := by
  have hshape : moved.shape = files.shape := by
    unfold Files.shape
    rw [h.present_eq, h.isFile_eq]
  cases hpaths : files.sources root extension with
  | error reason =>
    unfold build at hbuilt
    rw [hpaths] at hbuilt
    cases hbuilt
  | ok paths =>
    have htexts := h.texts paths hpaths
    have hmovedPaths := h.sources_eq.trans hpaths
    cases paths with
    | nil =>
      unfold build at hbuilt ⊢
      rw [hpaths] at hbuilt
      rw [hmovedPaths]
      cases hbuilt
      exact ⟨⟨root, {}, []⟩, rfl, rfl, .nil⟩
    | cons path paths =>
      rw [build_eq_ofChecked sources hpaths] at hbuilt
      rw [build_eq_ofChecked sources hmovedPaths]
      have hread : ∀ file ∈ path :: paths, (files.read file).isSome := by
        intro file hfile
        obtain ⟨source, other, hsource, -⟩ := htexts file hfile
        rw [hsource, Option.isSome_some]
      obtain ⟨hload, hresolve, rfl⟩ :=
        silent_of_ofChecked (CheckedFile.isError_of_mem_loadAll hread) hbuilt
      obtain ⟨hmovedLoad, hfiles⟩ := CheckedFile.loadAll_movesDefinitions htexts rfl hload
      obtain ⟨hmovedResolve, hsources⟩ := resolve_movesDefinitions hshape hfiles hresolve
      exact ⟨_, ofChecked_of_silent hmovedLoad hmovedResolve, rfl, hsources⟩

end Workspace

/-! ## Files in memory -/

/-- Two pools with the same paths, and source files whose definitions are moved, are such views:
which files there are depends on the paths only. -/
theorem MemoryFiles.movesDefinitions_view {files moved : MemoryFiles} {root : Path}
    {extension : String} (hpaths : moved.entries.map Prod.fst = files.entries.map Prod.fst)
    (htexts : ∀ path ∈ files.sources root extension, ∃ source other,
      files.read path = some source ∧ moved.read path = some other
        ∧ MovesDefinitions source other) :
    files.view.MovesDefinitions moved.view root extension := by
  have hkeys : moved.keys = files.keys := by
    have hmap : ∀ pool : MemoryFiles, pool.keys
        = (pool.entries.map Prod.fst).map Path.components := by
      intro pool
      rw [List.map_map]
      rfl
    rw [hmap, hmap, hpaths]
  have hread : ∀ path, (moved.read path).isSome = (files.read path).isSome := by
    intro path
    rw [Bool.eq_iff_iff, isSome_read_iff, isSome_read_iff, hkeys]
  have hsources : moved.sources root extension = files.sources root extension := by
    unfold MemoryFiles.sources
    rw [hpaths]
  refine ⟨congrArg Except.ok hsources, present_view_eq hread, funext hread, ?_⟩
  intro paths hview path hpath
  cases hview
  exact htexts path hpath

/-- A local variable, a block that uses it, and a global variable that it uses. -/
def definitionPieces : List (List String) :=
  [["let", "t", "=", "'$(d)/t'"], ["any", "for", "\x7b", "items", "=", "'$(t)'", "\x7d"],
    ["global", "d", "=", "'p'"]]

/-- A pool with one source file and a texture. -/
def texturePool (text : String) : MemoryFiles :=
  ⟨[(⟨"pack/a.rep"⟩, text), (⟨"pack/p/t.png"⟩, "")]⟩

def localFirst : String :=
  "let t='$(d)/t' any for\x7bitems='$(t)'\x7d global d='p'"

def globalFirst : String :=
  "global d='p' any for\x7bitems='$(t)'\x7d let t='$(d)/t'"

theorem movesDefinitions_localFirst : MovesDefinitions localFirst globalFirst := by
  refine ⟨definitionPieces, definitionPieces.reverse, ⟨?_, ?_, ?_⟩, ?_, ?_⟩
  · intro piece hpiece
    have hok : ∀ piece ∈ definitionPieces,
        (Statement.read (piece.map (Token.bare none))).isOk = true := by decide +kernel
    exact isFile_of_isOk (hok piece hpiece)
  · exact definitionPieces.reverse_perm.symm
  · decide +kernel
  · decide +kernel
  · decide +kernel

theorem Workspace.build_movesDefinitions_localFirst :
    ∃ workspace other, (build (texturePool localFirst).view "rep" {} ⟨"pack"⟩).2.value
        = some workspace
      ∧ workspace.files.map (fun source => source.rules.length) = [1]
      ∧ (build (texturePool globalFirst).view "rep" {} ⟨"pack"⟩).2 = ⟨some other, []⟩
      ∧ List.Forall₂ (SameSource workspace other) workspace.files other.files := by
  have hbuilt : ∃ workspace ∈ (build (texturePool localFirst).view "rep" {} ⟨"pack"⟩).2.value,
      workspace.files.map (fun source => source.rules.length) = [1] := by decide +kernel
  have hsources : (texturePool localFirst).sources ⟨"pack"⟩ "rep" = [⟨"pack/a.rep"⟩] := by
    decide +kernel
  have hlocal : (texturePool localFirst).read ⟨"pack/a.rep"⟩ = some localFirst := by
    decide +kernel
  have hglobal : (texturePool globalFirst).read ⟨"pack/a.rep"⟩ = some globalFirst := by
    decide +kernel
  obtain ⟨workspace, hworkspace, hrules⟩ := hbuilt
  have hmoves : (texturePool localFirst).view.MovesDefinitions (texturePool globalFirst).view
      ⟨"pack"⟩ "rep" := by
    refine MemoryFiles.movesDefinitions_view rfl ?_
    rw [hsources, List.forall_mem_singleton]
    exact ⟨localFirst, globalFirst, hlocal, hglobal, movesDefinitions_localFirst⟩
  obtain ⟨other, hother, -, hfiles⟩ := build_movesDefinitions hmoves {} hworkspace
  exact ⟨workspace, other, hworkspace, hrules, hother, hfiles⟩

end Reskin
