import Mathlib.Data.List.Forall2
import Reskin.Proofs.Place.Conversion
import Reskin.Proofs.Variable.Arrangement
import Reskin.Proofs.Workspace.Conversion

/-!
# Workspaces with the same variables

The conversion of statements looks at variables by their names only, and a definition becomes no
rule. So files whose definitions are moved become the same sources, as long as nothing is reported
about their variables.

* **`Environment.Agrees`** — the same names have the same values; the conversion of a statement
  takes no notice of anything else (**`Environment.Agrees.fileRules_eq`**).
* **`Environment.gather_fileRules`** — the statements of a file with moved definitions.
* **`Workspace.resolve_rearranges`** — the headline.
-/

namespace Reskin

open Statement (Rearranges)

/-! ## Environments with the same variables -/

namespace Environment

/-- Two environments in which the same names have the same values. -/
structure Agrees (a b : Environment) : Prop where
  files_eq : a.files = b.files
  root_eq : a.root = b.root
  lookup_eq : a.lookup = b.lookup

namespace Agrees

variable {a b : Environment} (h : Agrees a b)
include h

theorem resolve_eq : a.resolve = b.resolve := by
  funext token
  unfold resolve
  rw [h.lookup_eq]

theorem missing_eq : a.missing = b.missing := by
  funext kind path token
  unfold missing
  rw [h.root_eq]

theorem resolveAsset_eq : a.resolveAsset = b.resolveAsset := by
  funext kind extension token
  unfold resolveAsset findAsset?
  rw [h.resolve_eq, h.missing_eq, h.files_eq, h.root_eq]

theorem copyEntry_eq : a.copyEntry = b.copyEntry := by
  funext pair
  unfold copyEntry
  rw [h.resolve_eq, h.missing_eq, h.files_eq, h.root_eq]

/-- The rules of a listing are the same, by induction on its statements. -/
theorem listingRules_eq : a.listingRules = b.listingRules := by
  funext kind mapAll keys body
  induction body generalizing keys with
  | nil =>
    cases mapAll with
    | none => rfl
    | some mapAll =>
      unfold listingRules resolveTexture
      dsimp only
      rw [h.resolveAsset_eq]
  | cons statement body ih =>
    cases statement with
    | predicate assignment =>
      unfold listingRules resolveTexture
      rw [h.resolveAsset_eq, ih]
    | model assignment =>
      unfold listingRules resolveModel
      rw [h.resolveAsset_eq, ih]
    | _ => exact ih _

theorem useRules_eq : a.useRules = b.useRules := by
  funext statement
  cases statement with
  | setAll target assignment =>
    unfold useRules resolveTexture
    dsimp only
    rw [h.resolveAsset_eq]
  | listing target keyword body mapAll =>
    unfold useRules
    dsimp only
    rw [h.listingRules_eq]
  | _ => rfl

theorem blockParts_eq : a.blockParts = b.blockParts := by
  funext statement
  cases statement with
  | predicate assignment =>
    unfold blockParts
    dsimp only
    rw [h.resolve_eq]
  | weight assignment =>
    unfold blockParts
    dsimp only
    rw [h.resolve_eq]
  | _ => rfl

theorem block_eq : a.block = b.block := by
  funext keyword body uses
  unfold block scopeRules
  rw [h.blockParts_eq, h.useRules_eq]

/-- What statements become depends on the values of names, and on nothing else of variables. The
lemmas before this one are the same for the parts of statements. -/
theorem fileRules_eq : a.fileRules = b.fileRules := by
  funext statement
  cases statement with
  | matchBlock keyword body uses =>
    unfold fileRules
    dsimp only
    rw [h.block_eq]
  | anyBlock keyword uses =>
    unfold fileRules
    dsimp only
    rw [h.block_eq]
  | copy keyword pairs =>
    unfold fileRules
    dsimp only
    rw [h.copyEntry_eq]
  | _ => rfl

end Agrees

end Environment

/-! ## Statements of a file -/

/-- Steps that do nothing may be left out: they neither report nor give a value. -/
theorem Reported.gather_filter {α β : Type} {p : α → Bool} {f : α → Reported (List β)}
    {xs : List α} (h : ∀ x ∈ xs, p x = false → f x = pure []) :
    Reported.gather (xs.filter p) f = Reported.gather xs f := by
  unfold Reported.gather
  dsimp only
  rw [List.flatMap_map, List.flatMap_map, List.flatMap_map, List.flatMap_map,
    flatMap_filter_of_nil, flatMap_filter_of_nil]
  · intro x hx hp
    rw [h x hx hp, Reported.diagnostics_pure]
  · intro x hx hp
    rw [h x hx hp, Reported.value_pure]

/-- Definitions become no rules, so it does not matter where they are. Both lists are compared
without their definitions. -/
theorem Environment.gather_fileRules (env : Environment) {statements moved : List Statement}
    (h : Rearranges statements moved) :
    Reported.gather moved env.fileRules = Reported.gather statements env.fileRules := by
  have hothers : ∀ list : List Statement,
      Reported.gather (list.filter fun statement => !statement.isDefinition) env.fileRules
        = Reported.gather list env.fileRules := by
    intro list
    apply Reported.gather_filter
    intro statement _ hdefinition
    cases statement with
    | definition scope keyword assignment => rfl
    | _ => cases hdefinition
  rw [← hothers, ← h.others_eq, hothers]

/-! ## Files that are read -/

/-- Two files with the same statements, of which only definitions may have moved. -/
structure CheckedFile.Rearranges (file other : CheckedFile) : Prop where
  id_eq : other.id = file.id
  statements : Statement.Rearranges file.statements other.statements

/-- Two sources with the same variables and rules. -/
structure PackSource.Agrees (source other : PackSource) : Prop where
  id_eq : other.id = source.id
  get?_eq : other.locals.get? = source.locals.get?
  rules_eq : other.rules = source.rules

namespace Workspace

variable (files : Files) (root : Path)

theorem agrees_of_get? {locals others globals otherGlobals : Variables}
    (hlocals : others.get? = locals.get?) (hglobals : otherGlobals.get? = globals.get?) :
    Environment.Agrees ⟨files, root, others, otherGlobals⟩ ⟨files, root, locals, globals⟩ where
  files_eq := rfl
  root_eq := rfl
  lookup_eq := by
    funext name
    unfold Environment.lookup
    rw [hlocals, hglobals]

/-- What a file becomes does not depend on where its definitions are. There are two reasons: its own
definitions become no rules, and the variables are looked up by name. -/
theorem convert_rearranges {globals otherGlobals : Variables}
    (hglobals : otherGlobals.get? = globals.get?) {pair other : CheckedFile × Variables}
    (hfile : CheckedFile.Rearranges pair.1 other.1) (hlocals : other.2.get? = pair.2.get?) :
    (convert files root otherGlobals other).diagnostics
        = (convert files root globals pair).diagnostics
      ∧ PackSource.Agrees (sourceOf files root globals pair.1 pair.2)
        (sourceOf files root otherGlobals other.1 other.2) := by
  have hrules : Reported.gather other.1.statements
        (Environment.mk files root other.2 otherGlobals).fileRules
      = Reported.gather pair.1.statements (Environment.mk files root pair.2 globals).fileRules := by
    rw [Environment.gather_fileRules _ hfile.statements,
      (agrees_of_get? files root hlocals hglobals).fileRules_eq]
  refine ⟨?_, hfile.id_eq, hlocals, congrArg Reported.value hrules⟩
  unfold convert
  dsimp only
  rw [hrules]
  rfl

/-- The reports of a workspace: those about variables, and those about each file. -/
theorem diagnostics_resolve {checked : List CheckedFile} {resolution : Reported Resolution}
    (h : Resolution.ofFiles (checked.map CheckedFile.statements) = resolution) :
    (resolve files root checked).diagnostics
      = resolution.diagnostics ++ (checked.zip resolution.value.locals).flatMap fun pair =>
        (convert files root resolution.value.globals pair).diagnostics := by
  subst h
  unfold resolve
  rw [Reported.diagnostics_bind, Reported.diagnostics_bind, Reported.diagnostics_pure,
    List.append_nil]
  exact congrArg (_ ++ ·) (List.flatMap_map ..)

/-- **What files become does not depend on where their definitions are**, as long as nothing is
reported. Then the variables are the same, and so is what each file becomes. -/
theorem resolve_rearranges {checked moved : List CheckedFile}
    (h : List.Forall₂ CheckedFile.Rearranges checked moved)
    (hsilent : (resolve files root checked).diagnostics = []) :
    (resolve files root moved).diagnostics = []
      ∧ (resolve files root moved).value.globals.get?
        = (resolve files root checked).value.globals.get?
      ∧ List.Forall₂ PackSource.Agrees (resolve files root checked).value.files
        (resolve files root moved).value.files := by
  rw [diagnostics_resolve files root rfl, List.append_eq_nil_iff] at hsilent
  have hstatements : List.Forall₂ Statement.Rearranges (checked.map CheckedFile.statements)
      (moved.map CheckedFile.statements) := by
    rw [List.forall₂_map_left_iff, List.forall₂_map_right_iff]
    exact h.imp fun file other hfile => hfile.statements
  obtain ⟨hvariables, hglobals, hlocals⟩ :=
    Resolution.ofFiles_rearranges hstatements hsilent.1
  have hpairs := (forall₂_zip_of h hlocals).imp fun pair other hpair =>
    convert_rearranges files root hglobals hpair.1 hpair.2
  refine ⟨?_, hglobals, ?_⟩
  · rw [diagnostics_resolve files root rfl, hvariables, List.nil_append, ← hsilent.2]
    exact flatMap_eq_of_forall₂ (hpairs.imp fun pair other hpair => hpair.1)
  · rw [files_resolve, files_resolve, List.forall₂_map_left_iff, List.forall₂_map_right_iff]
    exact hpairs.imp fun pair other hpair => hpair.2

theorem paths_resolve (checked : List CheckedFile) :
    (resolve files root checked).value.files.map PackSource.path
      = checked.map CheckedFile.path := by
  have hlength : checked.length
      = (Resolution.ofFiles (checked.map CheckedFile.statements)).value.locals.length := by
    rw [Resolution.length_locals, List.length_map]
  have hsources : (resolve files root checked).value.files.map PackSource.path
      = ((checked.zip (Resolution.ofFiles (checked.map CheckedFile.statements)).value.locals).map
        Prod.fst).map CheckedFile.path := by
    rw [files_resolve, List.map_map, List.map_map]
    rfl
  rw [hsources, List.map_fst_zip (Nat.le_of_eq hlength)]

end Workspace

end Reskin
