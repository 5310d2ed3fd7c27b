import Reskin.Compiler
import Reskin.Proofs.Files.Memory
import Reskin.Proofs.Place.Pack
import Reskin.Proofs.Token.Layout
import Reskin.Proofs.Workspace.Loading

/-!
# Layout and comments do not show in a pack

Two source texts may differ in their blanks, line breaks and comments and still have the same tokens
but for their places. Since no stage of a compilation looks at places, two compilations of such
texts take the same turns: they give the same pack, or none, and report the same at other lines and
columns.

* **`SameTokens`** — two texts with the same tokens.
* **`CheckedFile.loadAll_sameTokens`**, **`Workspace.build_sameTokens`**,
  **`Compiler.compile_sameTokens`** — two runs of a stage, for any two views of files whose source
  files have the same tokens.
* **`Compiler.compile_sameUpToLayout`** — the headline, for files in memory.
-/

namespace Reskin

/-! ## Texts with the same tokens -/

/-- Two source texts that are divided into tokens with the same texts. -/
def SameTokens (a b : String) : Prop :=
  ∃ tokens others, Token.scan a none = .ok tokens ∧ Token.scan b none = .ok others
    ∧ tokens.map Token.text = others.map Token.text

/-- Where pieces are laid out has no influence on the texts of their tokens. Induction on the
pieces. -/
theorem place_unplaced (file : Option FileId) (position : Position) (pieces : List Piece) :
    (Token.place file position pieces).1.map Token.unplaced
      = ((Piece.lexemes pieces).map String.ofList).map fun text => ⟨text, 0, 0, file⟩ := by
  induction pieces generalizing position with
  | nil => rfl
  | cons piece pieces ih =>
    cases piece with
    | gap text => exact ih _
    | lexeme text => exact congrArg (⟨String.ofList text, 0, 0, file⟩ :: ·) (ih _)

/-- The tokens of a text do not depend on its number, but for the number itself. So texts may be
compared without numbers, and the files of two runs have theirs. -/
theorem scan_unplaced {source : String} {tokens : List Token}
    (h : Token.scan source none = .ok tokens) (file : Option FileId) :
    ∃ others, Token.scan source file = .ok others
      ∧ others.map Token.unplaced = (tokens.map Token.text).map fun text => ⟨text, 0, 0, file⟩ := by
  unfold Token.scan at h ⊢
  generalize Piece.split source.toList = split at h ⊢
  obtain ⟨pieces, fault⟩ := split
  cases fault with
  | some fault => cases h
  | none =>
    cases h
    exact ⟨_, rfl, by rw [place_unplaced, text_place]⟩

/-- Texts with the same tokens have the same statements, or the same report, up to places. This
hands over to the lemmas on the reader, which sees tokens only. -/
theorem SameTokens.readSource {a b : String} (h : SameTokens a b) (file : Option FileId) :
    unplacedResult (List.map Statement.unplaced) (Statement.readSource a file)
      = unplacedResult (List.map Statement.unplaced) (Statement.readSource b file) := by
  obtain ⟨tokens, others, ha, hb, htexts⟩ := h
  obtain ⟨placedA, hscanA, hplacedA⟩ := scan_unplaced ha file
  obtain ⟨placedB, hscanB, hplacedB⟩ := scan_unplaced hb file
  unfold Statement.readSource
  rw [hscanA, hscanB]
  show unplacedResult _ (Statement.read placedA) = unplacedResult _ (Statement.read placedB)
  rw [← Statement.read_unplaced, ← Statement.read_unplaced, hplacedA, hplacedB, htexts]

/-- A value that is only there if no error was reported. Whether there is one can be told without
places, since the severity follows from the cause. -/
theorem Reported.unplaced_unlessErrors {α β : Type} (f : α → β) (value : α)
    (diagnostics : List Diagnostic) :
    (Reported.mk (if hasErrors diagnostics then none else some value) diagnostics).unplaced
        (Option.map f)
      = ⟨if hasErrors (diagnostics.map Diagnostic.unplaced) then none else some (f value),
          diagnostics.map Diagnostic.unplaced⟩ := by
  rw [hasErrors_map_unplaced, Reported.unplaced]
  split <;> rfl

/-! ## Two runs of each stage -/

namespace CheckedFile

/-- What becomes of the statements of a source file. -/
def ofStatements (path : Path) (id : FileId) :
    Except Diagnostic (List Statement) → Reported (Option CheckedFile)
  | .error diagnostic => ⟨none, [diagnostic]⟩
  | .ok statements =>
    match Statement.check statements with
    | [] => ⟨some ⟨path, id, statements⟩, []⟩
    | violations => ⟨none, violations⟩

/-- Loading a file that can be read registers it, and what comes out depends on its statements
only. -/
theorem load_eq_ofStatements {files : Files} {sources : Sources} {path : Path} {source : String}
    (h : files.read path = some source) :
    load files sources path
      = (⟨sources.files ++ [⟨source, some path⟩]⟩, ofStatements path sources.files.length
        (Statement.readSource source (some sources.files.length))) := by
  unfold load statements? ofStatements
  rw [h]
  dsimp only [Sources.register]
  cases Statement.readSource source (some sources.files.length) with
  | error diagnostic => rfl
  | ok statements =>
    dsimp only
    cases Statement.check statements <;> rfl

/-- Dropping places commutes with the check of the statements. The violations are the same up to
places, and there are none on one side just if there are none on the other. -/
theorem ofStatements_unplaced (path : Path) (id : FileId)
    (result : Except Diagnostic (List Statement)) :
    (ofStatements path id result).unplaced (Option.map unplaced)
      = ofStatements ⟨""⟩ id (unplacedResult (List.map Statement.unplaced) result) := by
  cases result with
  | error diagnostic => rfl
  | ok statements =>
    unfold ofStatements unplacedResult
    dsimp only
    rw [Statement.check_unplaced]
    cases Statement.check statements <;> rfl

/-- Two source files with the same tokens: what the pairs of files of two runs have in common. -/
def SameText (filesA filesB : Files) (p q : Path) : Prop :=
  ∃ a b, filesA.read p = some a ∧ filesB.read q = some b ∧ SameTokens a b

variable {filesA filesB : Files} {sourcesA sourcesB : Sources}

/-- Two files with the same tokens are loaded to the same, up to places. The number of registered
files comes along, since it is the number of the next file. -/
theorem load_sameTokens {p q : Path} (h : SameText filesA filesB p q)
    (hsources : sourcesA.files.length = sourcesB.files.length) :
    (load filesA sourcesA p).2.unplaced (Option.map unplaced)
        = (load filesB sourcesB q).2.unplaced (Option.map unplaced)
      ∧ (load filesA sourcesA p).1.files.length = (load filesB sourcesB q).1.files.length := by
  obtain ⟨a, b, ha, hb, htokens⟩ := h
  rw [load_eq_ofStatements ha, load_eq_ofStatements hb, hsources]
  constructor
  · rw [ofStatements_unplaced, ofStatements_unplaced, htokens.readSource]
  · simp [hsources]

/-- Two lists of files, pair by pair with the same tokens, are loaded to the same. Induction on the
pairs; the numbers stay in step by `load_sameTokens`. -/
theorem loadAll_sameTokens {ps qs : List Path} (h : List.Forall₂ (SameText filesA filesB) ps qs)
    (hsources : sourcesA.files.length = sourcesB.files.length) :
    (loadAll filesA sourcesA ps).2.unplaced (List.map unplaced)
      = (loadAll filesB sourcesB qs).2.unplaced (List.map unplaced) := by
  induction h generalizing sourcesA sourcesB with
  | nil => rfl
  | @cons p q ps qs hfirst _ ih =>
    obtain ⟨hload, hlength⟩ := load_sameTokens hfirst hsources
    obtain ⟨hfile, hreports⟩ := Reported.unplaced_eq_iff.mp hload
    obtain ⟨hfiles, hrest⟩ := Reported.unplaced_eq_iff.mp (ih hlength)
    rw [Reported.unplaced_eq_iff, value_loadAll_cons, value_loadAll_cons, diagnostics_loadAll_cons,
      diagnostics_loadAll_cons, List.map_append, List.map_append, List.map_append, List.map_append,
      ← Option.toList_map, ← Option.toList_map, hfile, hfiles, hreports, hrest]
    exact ⟨rfl, rfl⟩

end CheckedFile

namespace Workspace

/-- The workspace of checked files, which is only there if no error was reported. -/
def ofChecked (files : Files) (root : Path) (checked : Reported (List CheckedFile)) :
    Reported (Option Workspace) :=
  if hasErrors checked.diagnostics then ⟨none, checked.diagnostics⟩
  else
    let resolved := resolve files root checked.value
    let diagnostics := checked.diagnostics ++ resolved.diagnostics
    ⟨if hasErrors diagnostics then none else some resolved.value, diagnostics⟩

/-- Building a workspace goes through the loaded files, if there is a source file at all. -/
theorem build_eq_ofChecked {files : Files} {extension : String} {root path : Path}
    {paths : List Path} (sources : Sources)
    (h : files.sources root extension = .ok (path :: paths)) :
    (build files extension sources root).2
      = ofChecked files root (CheckedFile.loadAll files sources (path :: paths)).2 := by
  unfold build ofChecked
  rw [h]
  dsimp only
  split <;> rfl

/-- Dropping places commutes with the resolution of names and files. On the right the files are
reduced to their shape, since only their presence is asked for. -/
theorem ofChecked_unplaced (files : Files) (root : Path) (checked : Reported (List CheckedFile)) :
    (ofChecked files root checked).unplaced (Option.map unplaced)
      = ofChecked files.shape root (checked.unplaced (List.map CheckedFile.unplaced)) := by
  obtain ⟨files', reports⟩ := checked
  show _ = ofChecked files.shape root ⟨files'.map CheckedFile.unplaced, reports.map _⟩
  unfold ofChecked
  rw [hasErrors_map_unplaced, ← resolve_unplaced]
  split
  · rfl
  · rw [Reported.unplaced_unlessErrors, List.map_append]
    rfl

variable {filesA filesB : Files} {sourcesA sourcesB : Sources}

/-- Two views of the same shape, with the same tokens in their source files, are built to the same
workspace, up to places. -/
theorem build_sameTokens {extension : String} {root : Path} {ps qs : List Path}
    (hshape : filesA.shape = filesB.shape) (hA : filesA.sources root extension = .ok ps)
    (hB : filesB.sources root extension = .ok qs)
    (h : List.Forall₂ (CheckedFile.SameText filesA filesB) ps qs)
    (hsources : sourcesA.files.length = sourcesB.files.length) :
    (build filesA extension sourcesA root).2.unplaced (Option.map unplaced)
      = (build filesB extension sourcesB root).2.unplaced (Option.map unplaced) := by
  cases h with
  | nil =>
    unfold build
    rw [hA, hB]
  | cons hfirst hrest =>
    rw [build_eq_ofChecked sourcesA hA, build_eq_ofChecked sourcesB hB, ofChecked_unplaced,
      ofChecked_unplaced, hshape, CheckedFile.loadAll_sameTokens (.cons hfirst hrest) hsources]

end Workspace

namespace Compiler

/-- The pack of what was built, which is only there if no error was reported. -/
def packOf (config : Config) (built : Reported (Option Workspace)) : Reported (Option PackTree) :=
  match built.value with
  | none => ⟨none, built.diagnostics⟩
  | some workspace =>
    let pack := Pack.ofWorkspace Catalog.vanilla config workspace
    let diagnostics := built.diagnostics ++ pack.diagnostics
    ⟨if hasErrors diagnostics then none else some pack.value, diagnostics⟩

/-- A compilation goes through the workspace that was built, so the lemmas on building apply to
it. -/
theorem compile_eq_packOf (compiler : Compiler) (files : Files) (root : Path) :
    (compiler.compile files root).2 = packOf compiler.config
      (Workspace.build files compiler.config.extension compiler.sources root).2 := by
  unfold compile workspace packOf
  dsimp only
  cases (Workspace.build files compiler.config.extension compiler.sources root).2.value <;> rfl

/-- A pack has no places in it, so only those of the reports are dropped. -/
theorem packOf_unplaced (config : Config) (built : Reported (Option Workspace)) :
    (packOf config built).unplaced (Option.map id)
      = packOf config (built.unplaced (Option.map Workspace.unplaced)) := by
  obtain ⟨workspace?, reports⟩ := built
  show _ = packOf config ⟨workspace?.map Workspace.unplaced, reports.map _⟩
  unfold packOf
  cases workspace? with
  | none => rfl
  | some workspace =>
    dsimp only [Option.map_some]
    rw [← Pack.ofWorkspace_unplaced, Reported.unplaced_unlessErrors, List.map_append]
    rfl

/-- The same for a whole compilation, for any two views of files. -/
theorem compile_sameTokens (compiler : Compiler) {filesA filesB : Files} {root : Path}
    {ps qs : List Path} (hshape : filesA.shape = filesB.shape)
    (hA : filesA.sources root compiler.config.extension = .ok ps)
    (hB : filesB.sources root compiler.config.extension = .ok qs)
    (h : List.Forall₂ (CheckedFile.SameText filesA filesB) ps qs) :
    (compiler.compile filesA root).2.unplaced (Option.map id)
      = (compiler.compile filesB root).2.unplaced (Option.map id) := by
  rw [compile_eq_packOf, compile_eq_packOf, packOf_unplaced, packOf_unplaced,
    Workspace.build_sameTokens hshape hA hB h rfl]

end Compiler

/-! ## Files in memory -/

/-- Two pools that hold the same paths, and source files with the same tokens at each of them. Other
files may differ in any way. -/
structure MemoryFiles.SameUpToLayout (extension : String) (a b : MemoryFiles) : Prop where
  same_paths : ∀ path, (a.read path).isSome = (b.read path).isSome
  same_tokens : ∀ path textA textB, path.hasExtension extension = true →
    a.read path = some textA → b.read path = some textB → SameTokens textA textB

/-- The source files at one path, perhaps spelled in two ways, have the same tokens. Both are found
since a pool looks its paths up by their components. -/
theorem MemoryFiles.SameUpToLayout.sameText {extension : String} {a b : MemoryFiles}
    (h : SameUpToLayout extension a b) {root p q : Path} (hp : p ∈ a.sources root extension)
    (hpq : p.components = q.components) : CheckedFile.SameText a.view b.view p q := by
  have hreadA := isSome_read_of_mem_sources hp
  have hreadB : (b.read p).isSome := by rw [← h.same_paths, hreadA]
  obtain ⟨textA, htextA⟩ := Option.isSome_iff_exists.mp hreadA
  obtain ⟨textB, htextB⟩ := Option.isSome_iff_exists.mp hreadB
  have hextension := (mem_sources_iff.mp hp).2.2
  exact ⟨textA, textB, htextA, (read_congr hpq).symm.trans htextB,
    h.same_tokens p textA textB hextension htextA htextB⟩

/-- **Layout and comments do not influence a compilation.** Two sets of files that hold the same
paths, and source files with the same tokens, give the same pack or none. The reports are the same
but for the lines and columns of their places. -/
theorem Compiler.compile_sameUpToLayout (compiler : Compiler) (root : Path)
    {filesA filesB : List (Path × String)}
    (h : MemoryFiles.SameUpToLayout compiler.config.extension (.ofList filesA) (.ofList filesB)) :
    (compiler.compile (MemoryFiles.ofList filesA).view root).2.value
        = (compiler.compile (MemoryFiles.ofList filesB).view root).2.value
      ∧ (compiler.compile (MemoryFiles.ofList filesA).view root).2.diagnostics.map
          Diagnostic.unplaced
        = (compiler.compile (MemoryFiles.ofList filesB).view root).2.diagnostics.map
          Diagnostic.unplaced := by
  have hsources := MemoryFiles.forall₂_sources (MemoryFiles.nodup_keys_ofList filesA)
    (MemoryFiles.nodup_keys_ofList filesB) h.same_paths root compiler.config.extension
  have htexts := ((List.forall₂_and_left _ _).mpr ⟨fun p hp => hp, hsources⟩).imp
    fun p q hpair => h.sameText hpair.1 hpair.2
  have hshape : (MemoryFiles.ofList filesA).view.shape
      = (MemoryFiles.ofList filesB).view.shape := by
    have hisFile : (MemoryFiles.ofList filesA).view.isFile
        = (MemoryFiles.ofList filesB).view.isFile := funext h.same_paths
    unfold Files.shape
    rw [MemoryFiles.present_view_eq h.same_paths, hisFile]
  have hcompile := compile_sameTokens compiler hshape rfl rfl htexts
  rw [Option.map_id, Reported.unplaced_eq_iff] at hcompile
  exact hcompile

/-- A block without comments, in one line. -/
def plainBlock : String :=
  "any for\x7bitems\x7bbow nothing\x7d='t'\x7d"

/-- The same block with comments, in several lines. -/
def commentedBlock : String :=
  "any // for \x7b\n  for\t\x7b items /* = */ \x7b bow\nnothing\x7d = 't' /*\x7d*/ \x7d\n"

def blockTexts : List String :=
  ["any", "for", "\x7b", "items", "\x7b", "bow", "nothing", "\x7d", "=", "'t'", "\x7d"]

def plainPack : List (Path × String) :=
  [(⟨"pack/a.rep"⟩, plainBlock), (⟨"pack/t.png"⟩, "")]

/-- The same files in another order. The path of the source file is spelled in another way, and the
texture has another content. -/
def commentedPack : List (Path × String) :=
  [(⟨"pack/t.png"⟩, "png"), (⟨"pack//a.rep"⟩, commentedBlock)]

/-- Texts have the same tokens if both are divided into the given ones, which a computation
decides. -/
theorem sameTokens_of_texts {a b : String} {texts : List String}
    (ha : (Token.scan a none).map (List.map Token.text) = .ok texts)
    (hb : (Token.scan b none).map (List.map Token.text) = .ok texts) : SameTokens a b := by
  cases hscanA : Token.scan a none with
  | error diagnostic =>
    rw [hscanA] at ha
    cases ha
  | ok tokens =>
    cases hscanB : Token.scan b none with
    | error diagnostic =>
      rw [hscanB] at hb
      cases hb
    | ok others =>
      rw [hscanA] at ha
      rw [hscanB] at hb
      exact ⟨tokens, others, hscanA, hscanB, Except.ok.inj (ha.trans hb.symm)⟩

theorem sameUpToLayout_packs :
    MemoryFiles.SameUpToLayout "rep" (.ofList plainPack) (.ofList commentedPack) := by
  have hplain : (Token.scan plainBlock none).map (List.map Token.text) = .ok blockTexts := by
    decide +kernel
  have hcommented : (Token.scan commentedBlock none).map (List.map Token.text)
      = .ok blockTexts := by decide +kernel
  have hperm : (MemoryFiles.ofList plainPack).keys.Perm
      (MemoryFiles.ofList commentedPack).keys := by decide +kernel
  refine ⟨fun path => ?_, fun path textA textB hextension hA hB => ?_⟩
  · rw [Bool.eq_iff_iff, MemoryFiles.isSome_read_iff, MemoryFiles.isSome_read_iff, hperm.mem_iff]
  · obtain ⟨p, hp, hcomponentsA⟩ := MemoryFiles.exists_mem_of_read hA
    obtain ⟨q, hq, hcomponentsB⟩ := MemoryFiles.exists_mem_of_read hB
    have hentriesA : (MemoryFiles.ofList plainPack).entries = plainPack := by decide +kernel
    have hentriesB : (MemoryFiles.ofList commentedPack).entries = commentedPack := by decide +kernel
    have hnot : (Path.mk "pack/t.png").hasExtension "rep" = false := by decide +kernel
    rw [hentriesA] at hp
    rw [hentriesB] at hq
    simp only [plainPack, commentedPack, List.mem_cons, Prod.mk.injEq, List.not_mem_nil,
      or_false] at hp hq
    -- The texture is no source file, so both texts are those of the block.
    rcases hp with ⟨rfl, rfl⟩ | ⟨rfl, -⟩
    · rcases hq with ⟨rfl, -⟩ | ⟨rfl, rfl⟩
      · rw [← Path.hasExtension_congr hcomponentsB, hnot] at hextension
        cases hextension
      · exact sameTokens_of_texts hplain hcommented
    · rw [← Path.hasExtension_congr hcomponentsA, hnot] at hextension
      cases hextension

theorem Compiler.compile_sameUpToLayout_packs :
    MemoryFiles.SameUpToLayout "rep" (.ofList plainPack) (.ofList commentedPack)
      ∧ (Compiler.compile ⟨{}, {}⟩ (MemoryFiles.ofList plainPack).view ⟨"pack"⟩).2.value
        = (Compiler.compile ⟨{}, {}⟩ (MemoryFiles.ofList commentedPack).view ⟨"pack"⟩).2.value
      ∧ (Compiler.compile ⟨{}, {}⟩ (MemoryFiles.ofList plainPack).view ⟨"pack"⟩).2.diagnostics.map
          Diagnostic.unplaced
        = (Compiler.compile ⟨{}, {}⟩ (MemoryFiles.ofList commentedPack).view
            ⟨"pack"⟩).2.diagnostics.map Diagnostic.unplaced :=
  ⟨sameUpToLayout_packs, Compiler.compile_sameUpToLayout ⟨{}, {}⟩ ⟨"pack"⟩ sameUpToLayout_packs⟩

end Reskin
