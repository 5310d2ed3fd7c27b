import Reskin.Files.Memory
import Reskin.Proofs.Pack.Tree
import Reskin.PropertyFile
import Reskin.Workspace.Convert

/-!
# Paths of textures and models

A texture or model may be written with or without its extension. The extension is put behind the
text of a path, but it is read off the last component. The two fit together unless the path is empty
or ends in `/`: otherwise something stands in front of the dot.

* **`Path.extension?_append`** — which paths get the extension that is put behind them.
* **`Environment.findAsset?_of_eq_some`** — what is found for a path is a file, and it is found
  again for its own path.
* **`Environment.resolveAsset_of_findAsset?`**, **`Environment.exists_findAsset?`** — a literal is
  resolved without a report of a missing file just if something is found for its text.
* **`Environment.resolveVariant_spelling`** — how a texture or model is spelled does not matter.
* **`Environment.hasExtension_resolveVariant_iff`** — which paths have the extension of their kind.
-/

namespace Reskin

/-! ## File names and extensions -/

namespace Path

variable {path extension : String}

/-- A segment that does not end in a dot is a name. -/
theorem Component.ofSegment?_of_getLast? {segment : List Char} {last : Char}
    (h : segment.getLast? = some last) (hlast : last ≠ '.') :
    ofSegment? segment = some (.name (String.ofList segment)) := by
  have hother : ∀ short ∈ [[], ['.'], ['.', '.']], segment ≠ short := by
    rintro short hshort rfl
    simp only [List.mem_cons, List.not_mem_nil, or_false] at hshort
    rcases hshort with rfl | rfl | rfl
    · cases h
    all_goals exact hlast (Option.some.inj h).symm
  rw [ofSegment?, if_neg (by simp [hother]), if_neg (by simp [hother])]

/-- The component of the last segment comes last, if it counts. The first segment is treated in
another way, so it has to be told whether it is the last one. -/
theorem getLast?_components {segments : List (List Char)} {last : List Char} {component : Component}
    (hsplit : Text.splitAll '/' path.toList = segments ++ [last])
    (hlast : Component.ofSegment? last = some component) :
    (Path.mk path).components.getLast? = some component := by
  unfold components
  rw [hsplit]
  split
  · next heq =>
    -- The path starts at the root, so its first segment is not its last.
    cases segments with
    | nil => cases heq
    | cons first front =>
      have hrest := (List.cons.inj heq).2
      rw [← hrest]
      simp [hlast, List.getLast?_cons]
  · next heq =>
    cases segments with
    | nil =>
      cases heq
      cases hlast
    | cons first front =>
      have hrest := (List.cons.inj heq).2
      rw [← hrest]
      simp [hlast, List.getLast?_cons]
  · simp [hlast]

/-- What is put behind a path becomes a part of its last segment. Nothing else stands in that
segment just if the path is empty or ends in `/`. -/
theorem exists_splitAll_append (path : String) {rest : String} (hrest : '/' ∉ rest.toList) :
    ∃ segments name, (name = "" ↔ path = "" ∨ path.toList.getLast? = some '/')
      ∧ Text.splitAll '/' (path ++ rest).toList = segments ++ [(name ++ rest).toList] := by
  rcases PackTree.slash_cases path with hpath | ⟨parent, name, rfl, hname⟩
  · refine ⟨[], path, ?_, ?_⟩
    · exact (or_iff_left fun hend => hpath (List.mem_of_getLast? hend)).symm
    · have hboth : '/' ∉ (path ++ rest).toList := by simp [hpath, hrest]
      rw [Text.splitAll_of_not_mem hboth, List.nil_append]
  · refine ⟨Text.splitAll '/' parent.toList, name, ?_, ?_⟩
    · constructor
      · rintro rfl
        exact .inr (by simp)
      · rintro (hempty | hend)
        · exact absurd hempty (by simp)
        · -- A last character that belongs to the name is no separator.
          by_contra hne
          have hne : name.toList ≠ [] := mt String.toList_eq_nil_iff.mp hne
          rw [String.toList_append, List.getLast?_append_of_ne_nil _ hne] at hend
          exact hname (List.mem_of_getLast? hend)
    · have hboth : '/' ∉ (name ++ rest).toList := by simp [hname, hrest]
      have htoList : (parent ++ "/" ++ name ++ rest).toList
          = parent.toList ++ '/' :: (name ++ rest).toList := by simp
      rw [htoList, Text.splitAll_append, Text.splitAll_of_not_mem hboth]

/-- A text that can stand as an extension. -/
structure IsExtension (text : String) : Prop where
  ne_empty : text ≠ ""
  slash : '/' ∉ text.toList
  dot : '.' ∉ text.toList

/-- A path gets the extension that is put behind it, unless nothing stands in front of the dot. Then
the whole last segment is taken for a name that starts with a dot. -/
theorem extension?_append (h : IsExtension extension) :
    (Path.mk (path ++ "." ++ extension)).extension?
      = if path = "" ∨ path.toList.getLast? = some '/' then none else some extension := by
  have hrest : '/' ∉ ("." ++ extension).toList := by simp [h.slash]
  obtain ⟨segments, name, hname, hsplit⟩ := exists_splitAll_append path hrest
  rw [← String.append_assoc] at hsplit
  have htoList : (name ++ ("." ++ extension)).toList = name.toList ++ '.' :: extension.toList := by
    simp
  have hsegment : Component.ofSegment? (name ++ ("." ++ extension)).toList
      = some (.name (name ++ ("." ++ extension))) := by
    -- The segment ends as the extension does, which is not in a dot.
    obtain ⟨last, hlast⟩ := Option.isSome_iff_exists.mp
      (List.getLast?_isSome.mpr (mt String.toList_eq_nil_iff.mp h.ne_empty))
    have hend : (name ++ ("." ++ extension)).toList.getLast? = some last := by
      rw [htoList, List.getLast?_append, List.getLast?_cons, hlast]
      rfl
    have hdot : last ≠ '.' := by
      rintro rfl
      exact h.dot (List.mem_of_getLast? hlast)
    rw [Component.ofSegment?_of_getLast? hend hdot, String.ofList_toList]
  have hfileName : (Path.mk (path ++ "." ++ extension)).fileName?
      = some (name ++ ("." ++ extension)) := by
    rw [fileName?, getLast?_components hsplit hsegment]
  rw [extension?, hfileName]
  simp only [htoList, Text.splitLast_append _ h.dot, ← hname]
  split_ifs with hempty
  · rw [hempty]
    rfl
  · obtain ⟨c, cs, hcs⟩ := List.exists_cons_of_ne_nil (mt String.toList_eq_nil_iff.mp hempty)
    simp only [hcs, String.ofList_toList]

end Path

theorem Variant.isExtension_extension (variant : Variant) :
    Path.IsExtension variant.extension := by
  cases variant <;> constructor <;> decide

/-! ## The file of a path -/

namespace Environment

variable {env : Environment} {path found extension : String}

theorem withExtension_of_not (h : ¬(Path.mk path).hasExtension extension = true) :
    withExtension path extension = path ++ "." ++ extension :=
  if_neg h

/-- A path has the extension that is put behind it where that is missing, unless nothing stands in
front of the dot. -/
theorem hasExtension_withExtension_iff (h : Path.IsExtension extension) :
    (Path.mk (withExtension path extension)).hasExtension extension = true
      ↔ (Path.mk path).hasExtension extension = true
        ∨ path ≠ "" ∧ path.toList.getLast? ≠ some '/' := by
  by_cases hhas : (Path.mk path).hasExtension extension = true
  · rw [withExtension, if_pos hhas]
    exact iff_of_true hhas (.inl hhas)
  · rw [withExtension_of_not hhas, Path.hasExtension, Path.extension?_append h, or_iff_right hhas,
      decide_eq_true_iff, ← not_or]
    split_ifs with hend
    · exact iff_of_false (by simp) (not_not_intro hend)
    · exact iff_of_true rfl hend

/-- A file whose path has the extension is found for its path. -/
theorem findAsset?_of_hasExtension (h : (Path.mk path).hasExtension extension = true)
    (hfile : env.files.isFile (env.root.join path) = true) :
    env.findAsset? path extension = some path := by
  have hne : path ≠ "" := by
    rintro rfl
    cases h
  have hsame : withExtension path extension = path := if_pos h
  rw [findAsset?, hsame, List.find?_cons_of_pos (by simp [hne, hfile])]

/-- What is found for a path is a file, and it is found again for its own path. Either it has the
extension, or it is the path as it was written, for which the same file is found again. -/
theorem findAsset?_of_eq_some (hend : path.toList.getLast? ≠ some '/')
    (hextension : Path.IsExtension extension) (h : env.findAsset? path extension = some found) :
    env.files.isFile (env.root.join found) = true
      ∧ env.findAsset? found extension = some found := by
  have hfound := List.find?_some h
  rw [Bool.and_eq_true, decide_eq_true_iff] at hfound
  obtain ⟨hne, hfile⟩ := hfound
  refine ⟨hfile, ?_⟩
  rcases List.mem_cons.mp (List.mem_of_find?_eq_some h) with rfl | hmem
  · exact findAsset?_of_hasExtension
      ((hasExtension_withExtension_iff hextension).mpr (.inr ⟨hne, hend⟩)) hfile
  · rw [List.mem_singleton.mp hmem] at h ⊢
    exact h

end Environment

/-! ## The file of a literal -/

/-- A report of a file that cannot be found. -/
def Diagnostic.IsMissingAsset (diagnostic : Diagnostic) : Prop :=
  ∃ kind path root, diagnostic.cause = .build (.missingAsset kind path root)

namespace Environment

variable {env : Environment} {found extension : String} {kind : AssetKind} {token : Token}

/-- A literal for whose text a file is found adds no report to those of its references. -/
theorem resolveAsset_of_findAsset?
    (h : env.findAsset? (env.resolve token).value extension = some found) :
    env.resolveAsset kind extension token = ⟨found, (env.resolve token).diagnostics⟩ := by
  simp only [resolveAsset, bind, h, pure, List.append_nil]

/-- Only what cannot be found is reported as missing. -/
theorem exists_findAsset? (h : ∀ diagnostic ∈ (env.resolveAsset kind extension token).diagnostics,
      ¬ diagnostic.IsMissingAsset) :
    ∃ found, env.findAsset? (env.resolve token).value extension = some found := by
  cases hfound : env.findAsset? (env.resolve token).value extension with
  | some found => exact ⟨found, rfl⟩
  | none =>
    have hmissing : env.missing kind (env.resolve token).value token
        ∈ (env.resolveAsset kind extension token).diagnostics := by
      simp [resolveAsset, hfound, Reported.report]
    exact absurd ⟨kind, (env.resolve token).value, env.root, rfl⟩ (h _ hmissing)

/-- The texture or model that a literal names. -/
def resolveVariant (env : Environment) : Variant → Token → Reported String
  | .texture => env.resolveTexture
  | .model => env.resolveModel

theorem exists_resolveVariant_eq (env : Environment) (variant : Variant) :
    ∃ kind, env.resolveVariant variant = env.resolveAsset kind variant.extension := by
  cases variant with
  | texture => exact ⟨.texture, rfl⟩
  | model => exact ⟨.model, rfl⟩

/-- How a texture or model is spelled does not matter, for a path that is not empty and does not end
in `/`. Without its extension it means the file with the extension, if that is there. And what a
path means is a file that is there, with a path of its own that means the same file. Neither adds a
report to those of the references in the literal. -/
theorem resolveVariant_spelling (env : Environment) (variant : Variant) (path : String)
    (hne : path ≠ "") (hend : path.toList.getLast? ≠ some '/') :
    ((Path.mk path).hasExtension variant.extension = false →
        env.files.isFile (env.root.join (path ++ "." ++ variant.extension)) = true →
        ∀ token, (env.resolve token).value ∈ [path, path ++ "." ++ variant.extension] →
          env.resolveVariant variant token
            = ⟨path ++ "." ++ variant.extension, (env.resolve token).diagnostics⟩)
      ∧ ∀ token, (env.resolve token).value = path →
        (∀ diagnostic ∈ (env.resolveVariant variant token).diagnostics,
          ¬ diagnostic.IsMissingAsset) →
        env.files.isFile (env.root.join (env.resolveVariant variant token).value) = true
          ∧ ∀ again, (env.resolve again).value = (env.resolveVariant variant token).value →
            env.resolveVariant variant again
              = ⟨(env.resolveVariant variant token).value, (env.resolve again).diagnostics⟩ := by
  obtain ⟨kind, hresolve⟩ := env.exists_resolveVariant_eq variant
  rw [hresolve]
  have hextension := variant.isExtension_extension
  constructor
  · intro hbare hfile token htoken
    have hwith : withExtension path variant.extension = path ++ "." ++ variant.extension := by
      rw [withExtension, hbare, if_neg Bool.false_ne_true]
    have hfound : env.findAsset? path variant.extension
        = some (path ++ "." ++ variant.extension) := by
      rw [findAsset?, hwith, List.find?_cons_of_pos (by simp [hne, hfile])]
    apply resolveAsset_of_findAsset?
    rcases List.mem_pair.mp htoken with htoken | htoken
    · rw [htoken, hfound]
    · rw [htoken, (findAsset?_of_eq_some hend hextension hfound).2]
  · intro token htoken hreports
    obtain ⟨found, hfound⟩ := exists_findAsset? hreports
    rw [resolveAsset_of_findAsset? hfound]
    rw [htoken] at hfound
    obtain ⟨hfile, hagain⟩ := findAsset?_of_eq_some hend hextension hfound
    refine ⟨hfile, ?_⟩
    intro again hvalue
    apply resolveAsset_of_findAsset?
    rw [hvalue, hagain]

/-- A texture in memory, and a variable for its directory. -/
def burning : Environment where
  files := (MemoryFiles.ofList [(⟨"pack/textures/fire.png"⟩, "")]).view
  root := ⟨"pack"⟩
  locals := ⟨[⟨"dir", "textures", ⟨"dir", 1, 1, none⟩⟩]⟩
  globals := ⟨[]⟩

/-- The texture can be written with a reference and without its extension, or in full. -/
theorem resolveVariant_spelling_burning :
    burning.resolveVariant .texture ⟨"\"$(dir)/fire\"", 2, 1, none⟩ = ⟨"textures/fire.png", []⟩
      ∧ burning.resolveVariant .texture ⟨"\"textures/fire.png\"", 3, 1, none⟩
        = ⟨"textures/fire.png", []⟩
      ∧ burning.files.isFile (burning.root.join "textures/fire.png") = true := by
  have hspelling := resolveVariant_spelling burning .texture "textures/fire" (by decide) (by decide)
  have hbare : burning.resolve ⟨"\"$(dir)/fire\"", 2, 1, none⟩ = ⟨"textures/fire", []⟩ :=
    congrArg₂ Reported.mk (by decide +kernel) (by decide +kernel)
  have hfull : burning.resolve ⟨"\"textures/fire.png\"", 3, 1, none⟩ = ⟨"textures/fire.png", []⟩ :=
    congrArg₂ Reported.mk (by decide +kernel) (by decide +kernel)
  have hfirst : burning.resolveVariant .texture ⟨"\"$(dir)/fire\"", 2, 1, none⟩
      = ⟨"textures/fire.png", []⟩ := by
    rw [hspelling.1 (by decide +kernel) (by decide +kernel) _ (by rw [hbare]; decide), hbare]
    rfl
  -- The first literal is resolved without a report, so its file has a path that means the same.
  have hagain := hspelling.2 _ (by rw [hbare]) (by rw [hfirst]; simp)
  rw [hfirst] at hagain
  refine ⟨hfirst, ?_, hagain.1⟩
  rw [hagain.2 _ (by rw [hfull]), hfull]

/-! ## The extension of what a literal names -/

/-- A literal names the file as it is written only if the file with the extension is not there. If
neither is, the path with the extension is used, and a report is made. -/
theorem value_resolveAsset :
    (env.resolveAsset kind extension token).value
      = if (env.resolve token).value ≠ ""
          ∧ env.files.isFile
            (env.root.join (withExtension (env.resolve token).value extension)) = false
          ∧ env.files.isFile (env.root.join (env.resolve token).value) = true
        then (env.resolve token).value
        else withExtension (env.resolve token).value extension := by
  generalize hpath : (env.resolve token).value = path
  have hvalue : (env.resolveAsset kind extension token).value
      = (env.findAsset? path extension).getD (withExtension path extension) := by
    rw [← hpath]
    cases hfound : env.findAsset? (env.resolve token).value extension <;>
      simp [resolveAsset, hfound]
  rw [hvalue, findAsset?]
  by_cases hne : path = ""
  · simp [hne]
  · by_cases hwith : env.files.isFile (env.root.join (withExtension path extension)) = true
    · simp [hne, hwith]
    · by_cases hfile : env.files.isFile (env.root.join path) = true <;>
        simp [hne, hwith, hfile]

/-- The path of a texture or model has the extension of its kind just if the literal has it, or if
it can be put behind the text of the literal and no file stands in its way: the literal is not empty
and does not end in `/`, and the file with the extension is there or the one as written is not. -/
theorem hasExtension_resolveVariant_iff (env : Environment) (variant : Variant) (token : Token) :
    (Path.mk (env.resolveVariant variant token).value).hasExtension variant.extension = true
      ↔ (Path.mk (env.resolve token).value).hasExtension variant.extension = true
        ∨ (env.resolve token).value ≠ "" ∧ (env.resolve token).value.toList.getLast? ≠ some '/'
          ∧ (env.files.isFile (env.root.join
              ((env.resolve token).value ++ "." ++ variant.extension)) = true
            ∨ env.files.isFile (env.root.join (env.resolve token).value) = false) := by
  obtain ⟨kind, hresolve⟩ := env.exists_resolveVariant_eq variant
  have hextension := variant.isExtension_extension
  rw [hresolve, value_resolveAsset]
  by_cases hhas : (Path.mk (env.resolve token).value).hasExtension variant.extension = true
  · have hwith : withExtension (env.resolve token).value variant.extension
        = (env.resolve token).value := if_pos hhas
    rw [hwith, ite_self]
    exact iff_of_true hhas (.inl hhas)
  · rw [or_iff_right hhas]
    split_ifs with hwritten
    · -- The file as written lacks the extension, and it stands in the way.
      rw [withExtension_of_not hhas] at hwritten
      refine iff_of_false hhas ?_
      rintro ⟨-, -, hfile | hfile⟩
      · exact absurd hfile (by simp [hwritten.2.1])
      · exact absurd hwritten.2.2 (by simp [hfile])
    · rw [hasExtension_withExtension_iff hextension, or_iff_right hhas]
      rw [withExtension_of_not hhas] at hwritten
      constructor
      · rintro ⟨hne, hend⟩
        refine ⟨hne, hend, ?_⟩
        by_contra hboth
        exact hwritten ⟨hne, by simpa using hboth⟩
      · rintro ⟨hne, hend, -⟩
        exact ⟨hne, hend⟩

/-- An image of another format and one that has no name, both in memory. -/
def foreignImages : Environment where
  files := (MemoryFiles.ofList [(⟨"pack/fire.jpg"⟩, ""), (⟨"pack/dir/.png"⟩, "")]).view
  root := ⟨"pack"⟩
  locals := ⟨[]⟩
  globals := ⟨[]⟩

/-- Both images are found without a report, and neither path has the extension of a texture. -/
theorem texture_lacks_extension :
    foreignImages.resolveVariant .texture ⟨"\"fire.jpg\"", 1, 19, none⟩ = ⟨"fire.jpg", []⟩
      ∧ (Path.mk "fire.jpg").extension? ≠ some Variant.texture.extension
      ∧ foreignImages.resolveVariant .texture ⟨"\"dir/\"", 1, 19, none⟩ = ⟨"dir/.png", []⟩
      ∧ (Path.mk "dir/.png").extension? ≠ some Variant.texture.extension := by
  refine ⟨congrArg₂ Reported.mk ?_ ?_, ?_, congrArg₂ Reported.mk ?_ ?_, ?_⟩ <;> decide +kernel

end Environment

end Reskin
