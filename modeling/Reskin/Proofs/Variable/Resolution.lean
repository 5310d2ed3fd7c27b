import Reskin.Proofs.List
import Reskin.Proofs.Variable.Registration
import Reskin.Proofs.Variable.Search

/-!
# Resolution of variables

The values of a workspace are described by equations that know nothing of the search: the value of
a definition is its text with the value of what each name means filled in (`Solves`). If every name
means something and no definition refers to itself by a chain of references, the equations have
exactly one solution, which is what the search returns. Otherwise a variable is reported.

* **`hasTargets_iff`**, **`acyclic_iff`** — the two conditions, on definitions and on the places
  where they were collected.
* **`Resolution.valueOf_ofFiles`** — the returned variables carry the values of the search.
* **`Resolution.ofFiles_solves`** — the headline.
-/

namespace Reskin

open Interpolation

namespace Definition

variable {files : List (List Statement)}

/-! ## References between definitions -/

/-- A definition refers to another one. -/
def Refers (files : List (List Statement)) (source target : Definition) : Prop :=
  ∃ name ∈ references source.value.value, PointsTo files source name target

/-- Every name in the value of a definition means something. -/
def AllTargets (files : List (List Statement)) : Prop :=
  ∀ definition, Registered files definition → ∀ name ∈ references definition.value.value,
    ∃ target, PointsTo files definition name target

/-- Some definition refers to itself by a chain of references. -/
def Cyclic (files : List (List Statement)) : Prop :=
  ∃ definition, Relation.TransGen (Refers files) definition definition

/-- References between places of collected definitions are those between the definitions. -/
theorem reference_iff {i j : Fin (collect files).value.length} :
    Reference (collect files).value i j
      ↔ Refers files ((collect files).value.get i) ((collect files).value.get j) := by
  refine exists_congr fun name => and_congr_right fun _ => ?_
  exact lookup?_eq_some_iff

theorem Registered.exists_index {definition : Definition} (h : Registered files definition) :
    ∃ i : Fin (collect files).value.length, (collect files).value.get i = definition := by
  exact List.get_of_mem (mem_collect_iff.mpr h)

/-- Every reference of a collected definition has a target just if every name means something. -/
theorem hasTargets_iff : HasTargets (collect files).value ↔ AllTargets files := by
  constructor
  · intro h definition hdefinition name hname
    obtain ⟨i, rfl⟩ := hdefinition.exists_index
    exact isSome_lookup?_iff.mp (h i name hname)
  · intro h i name hname
    exact isSome_lookup?_iff.mpr (h _ (registered_get i) name hname)

/-- A chain of references from a collected definition is one between places. Induction on the chain:
what a definition refers to is collected too. -/
theorem exists_chain {i : Fin (collect files).value.length} {target : Definition}
    (h : Relation.TransGen (Refers files) ((collect files).value.get i) target) :
    ∃ j : Fin (collect files).value.length, (collect files).value.get j = target
      ∧ Relation.TransGen (Reference (collect files).value) i j := by
  induction h with
  | single hstep =>
    obtain ⟨name, hname, htarget⟩ := hstep
    obtain ⟨j, rfl⟩ := htarget.1.exists_index
    exact ⟨j, rfl, .single (reference_iff.mpr ⟨name, hname, htarget⟩)⟩
  | tail _ hstep ih =>
    obtain ⟨k, rfl, hchain⟩ := ih
    obtain ⟨name, hname, htarget⟩ := hstep
    obtain ⟨j, rfl⟩ := htarget.1.exists_index
    exact ⟨j, rfl, hchain.tail (reference_iff.mpr ⟨name, hname, htarget⟩)⟩

theorem registered_of_chain {source target : Definition}
    (h : Relation.TransGen (Refers files) source target) : Registered files target := by
  obtain ⟨_, _, _, _, htarget⟩ := Relation.TransGen.tail'_iff.mp h
  exact htarget.1

/-- There is no cycle among places just if there is none among definitions. For a cycle of
definitions both ends are the same place, since a definition has only one. -/
theorem acyclic_iff : Acyclic (collect files).value ↔ ¬Cyclic files := by
  constructor
  · rintro hacyclic ⟨definition, hcycle⟩
    obtain ⟨i, rfl⟩ := (registered_of_chain hcycle).exists_index
    -- The chain ends at a place with the same definition, and there is only one such place.
    obtain ⟨j, hj, hchain⟩ := exists_chain hcycle
    have hij : i = j := eq_of_sameVariable (by rw [hj]; exact ⟨rfl, .inr rfl, rfl⟩)
    subst hij
    exact hacyclic i hchain
  · intro hcyclic i hchain
    refine hcyclic ⟨(collect files).value.get i, ?_⟩
    exact hchain.lift (fun k => (collect files).value.get k) fun _ _ => reference_iff.mp

/-! ## The variables of a scope -/

theorem mem_toVariables {definitions : List Definition} {values : Values definitions.length}
    {selected : Definition → Bool} {entry : Variable} :
    entry ∈ (toVariables definitions values selected).entries
      ↔ ∃ k, selected (definitions.get k) = true
        ∧ ⟨(definitions.get k).name.text, (values.lookup k).getD "", (definitions.get k).name⟩
          = entry := by
  simp [toVariables, List.mem_filterMap]

/-- In the variables of a scope a name is found with the value of the definition that belongs to the
scope. -/
theorem get?_toVariables {values : Values (collect files).value.length}
    {i : Fin (collect files).value.length} {scope : DefinitionScope} {file : Nat}
    (hi : ((collect files).value.get i).belongsTo scope file = true) :
    (toVariables (collect files).value values fun definition =>
        definition.belongsTo scope file).get? ((collect files).value.get i).name.text
      = some ⟨((collect files).value.get i).name.text, (values.lookup i).getD "",
        ((collect files).value.get i).name⟩ := by
  refine find?_eq_some_of_unique (mem_toVariables.mpr ⟨i, hi, rfl⟩) (beq_self_eq_true _) ?_
  intro entry hentry hname
  obtain ⟨k, hk, rfl⟩ := mem_toVariables.mp hentry
  -- Two definitions of one name in one scope are collected at one place.
  have hki : k = i := eq_of_sameVariable (sameVariable_of_belongsTo hk hi (beq_iff_eq.mp hname))
  rw [hki]

end Definition

/-! ## The result -/

namespace Resolution

open Definition

variable {files : List (List Statement)}

/-- The final value of the variable that a definition defines. -/
def valueOf (resolution : Resolution) (definition : Definition) : Option String :=
  match definition.scope with
  | .global => (resolution.globals.get? definition.name.text).map Variable.value
  | .file => (resolution.locals[definition.file]?.bind fun locals =>
      locals.get? definition.name.text).map Variable.value

/-- The value of the variable of a definition is what the search has found for it. The variables of
a scope are made from the values of the search, for the definitions that belong to the scope. -/
theorem valueOf_ofFiles (i : Fin (collect files).value.length) :
    (ofFiles files).value.valueOf ((collect files).value.get i)
      = (resolveAll (collect files).value).value.lookup i := by
  obtain ⟨value, hvalue⟩ := Option.isSome_iff_exists.mp (resolveAll_known i)
  rw [hvalue, valueOf]
  cases hscope : ((collect files).value.get i).scope with
  | global =>
    have hbelongs : ((collect files).value.get i).belongsTo .global 0 = true :=
      belongsTo_iff.mpr ⟨hscope, .inl rfl⟩
    show Option.map _ (Variables.get? (toVariables _ _ _) _) = _
    rw [get?_toVariables hbelongs, hvalue]
    rfl
  | file =>
    have hbelongs : ((collect files).value.get i).belongsTo .file
        ((collect files).value.get i).file = true :=
      belongsTo_iff.mpr ⟨hscope, .inr rfl⟩
    have hlt := file_get_lt i
    have hlocals : (ofFiles files).value.locals[((collect files).value.get i).file]?
        = some (toVariables (collect files).value (resolveAll (collect files).value).value
          fun definition => definition.belongsTo .file ((collect files).value.get i).file) := by
      show (files.zipIdx.map _)[_]? = _
      rw [List.getElem?_map, List.getElem?_zipIdx, List.getElem?_eq_getElem hlt]
      simp
    rw [hlocals, Option.bind_some, get?_toVariables hbelongs, hvalue]
    rfl

/-- Repeated definitions are reported first, and then what the search has to report. -/
theorem diagnostics_ofFiles :
    (ofFiles files).diagnostics
      = (collect files).diagnostics ++ (resolveAll (collect files).value).diagnostics := by
  simp [ofFiles]

/-- Whether a diagnostic reports a variable that could not be resolved. -/
def IsUnresolved (diagnostic : Diagnostic) : Prop :=
  ∃ name, diagnostic.cause = .build (.unresolvedVariable name)

/-- An unresolved variable is reported if and only if the search reports anything. Collecting
reports repeated definitions only. -/
theorem exists_isUnresolved_iff :
    (∃ diagnostic ∈ (ofFiles files).diagnostics, IsUnresolved diagnostic)
      ↔ (resolveAll (collect files).value).diagnostics ≠ [] := by
  rw [diagnostics_ofFiles]
  constructor
  · rintro ⟨diagnostic, hmem, name, hname⟩ hnil
    rw [hnil, List.append_nil] at hmem
    -- What collecting reports are repeated definitions.
    obtain ⟨other, hother⟩ := cause_of_mem_collect hmem
    rw [hname] at hother
    cases hother
  · intro hne
    obtain ⟨diagnostic, hmem⟩ := List.exists_mem_of_ne_nil _ hne
    exact ⟨diagnostic, List.mem_append_right _ hmem, cause_of_mem_resolveAll hmem⟩

/-- The equations for final values: each one is the text of its definition, in which every name is
replaced by the value of what it means. -/
def Solves (files : List (List Statement)) (value : Definition → Option String) : Prop :=
  ∀ definition, Registered files definition → ∃ find : String → Option String,
    (∀ name ∈ references definition.value.value,
      ∃ target, PointsTo files definition name target ∧ find name = value target)
    ∧ value definition = some (fill find definition.value.value)

/-- Without missing targets and cycles, the values of the search solve the equations. For the values
of the names take those that are known at the end. -/
theorem solves_valueOf (htargets : AllTargets files) (hcyclic : ¬Cyclic files) :
    Solves files (ofFiles files).value.valueOf := by
  intro definition hdefinition
  obtain ⟨i, rfl⟩ := hdefinition.exists_index
  refine ⟨known (collect files).value (resolveAll (collect files).value).value i, ?_, ?_⟩
  · intro name hname
    obtain ⟨target, htarget⟩ := htargets _ hdefinition name hname
    obtain ⟨j, rfl⟩ := htarget.1.exists_index
    refine ⟨_, htarget, ?_⟩
    rw [valueOf_ofFiles, known, lookup?_eq_some_iff.mpr htarget, Option.bind_some]
  · rw [valueOf_ofFiles]
    exact resolveAll_value_eq (hasTargets_iff.mpr htargets) (acyclic_iff.mpr hcyclic) i

/-- Without missing targets and cycles, the equations have no other solution: a value of the search
was filled in from values that were there before it. -/
theorem eq_valueOf_of_solves (htargets : AllTargets files) (hcyclic : ¬Cyclic files)
    {value : Definition → Option String} (hvalue : Solves files value) {definition : Definition}
    (hdefinition : Registered files definition) :
    value definition = (ofFiles files).value.valueOf definition := by
  have hordered := resolveAll_ordered
    (resolveAll_silent_iff.mpr ⟨hasTargets_iff.mpr htargets, acyclic_iff.mpr hcyclic⟩)
  obtain ⟨i, rfl⟩ := hdefinition.exists_index
  obtain ⟨final, hfinal⟩ := Option.isSome_iff_exists.mp (resolveAll_known i)
  rw [valueOf_ofFiles, hfinal]
  refine hordered.unique (fun k => value ((collect files).value.get k)) ?_ hfinal
  intro k
  obtain ⟨find, hfind, heq⟩ := hvalue ((collect files).value.get k) (registered_get k)
  refine ⟨find, fun name hname => ?_, heq⟩
  obtain ⟨target, htarget, hname⟩ := hfind name hname
  obtain ⟨j, rfl⟩ := htarget.1.exists_index
  exact ⟨j, lookup?_eq_some_iff.mpr htarget, hname⟩

/-- **Resolution of variables.** If every name in a definition means something and there is no
cycle of references, then no variable is reported as unresolved, and the final values are the one
solution of the equations, which do not depend on any order. In general, a variable is reported as
unresolved if and only if some name means nothing or there is a cycle. -/
theorem ofFiles_solves (files : List (List Statement)) :
    (AllTargets files ∧ ¬Cyclic files →
      (∀ diagnostic ∈ (ofFiles files).diagnostics, ¬IsUnresolved diagnostic)
      ∧ Solves files (ofFiles files).value.valueOf
      ∧ ∀ value, Solves files value → ∀ definition, Registered files definition →
          value definition = (ofFiles files).value.valueOf definition)
    ∧ ((∃ diagnostic ∈ (ofFiles files).diagnostics, IsUnresolved diagnostic)
      ↔ ¬AllTargets files ∨ Cyclic files) := by
  have hreports : (∃ diagnostic ∈ (ofFiles files).diagnostics, IsUnresolved diagnostic)
      ↔ ¬AllTargets files ∨ Cyclic files := by
    rw [exists_isUnresolved_iff, ne_eq, resolveAll_silent_iff, hasTargets_iff, acyclic_iff,
      Classical.not_and_iff_not_or_not, Classical.not_not]
  refine ⟨?_, hreports⟩
  rintro ⟨htargets, hcyclic⟩
  refine ⟨fun diagnostic hmem hunresolved => ?_, solves_valueOf htargets hcyclic,
    fun value hvalue definition => eq_valueOf_of_solves htargets hcyclic hvalue⟩
  rcases hreports.mp ⟨diagnostic, hmem, hunresolved⟩ with h | h
  · exact h htargets
  · exact hcyclic h

/-- Two files, of which the first one uses a global variable of the second one, which in turn uses
one that is defined behind it. -/
def chainedFiles : List (List Statement) :=
  [[.definition .file ⟨"let", 1, 1, none⟩
      ⟨⟨"sword", 1, 5, none⟩, ⟨"=", 1, 11, none⟩, ⟨"'$(dir)/sword'", 1, 13, none⟩⟩],
    [.definition .global ⟨"global", 1, 1, none⟩
      ⟨⟨"dir", 1, 8, none⟩, ⟨"=", 1, 12, none⟩, ⟨"'$(base)'", 1, 14, none⟩⟩,
    .definition .global ⟨"global", 2, 1, none⟩
      ⟨⟨"base", 2, 8, none⟩, ⟨"=", 2, 13, none⟩, ⟨"'textures'", 2, 15, none⟩⟩]]

theorem ofFiles_solves_chainedFiles :
    (AllTargets chainedFiles ∧ ¬Cyclic chainedFiles)
      ∧ Solves chainedFiles (ofFiles chainedFiles).value.valueOf
      ∧ (ofFiles chainedFiles).value.valueOf
          ⟨.file, 0, ⟨"sword", 1, 5, none⟩, ⟨"'$(dir)/sword'", 1, 13, none⟩⟩
        = some "textures/sword" := by
  have hsilent : (ofFiles chainedFiles).diagnostics = [] := by decide +kernel
  have hresolvable : AllTargets chainedFiles ∧ ¬Cyclic chainedFiles := by
    rw [← Classical.not_not (a := AllTargets chainedFiles), ← not_or,
      ← (ofFiles_solves chainedFiles).2, hsilent]
    rintro ⟨diagnostic, hmem, _⟩
    cases hmem
  exact ⟨hresolvable, ((ofFiles_solves chainedFiles).1 hresolvable).2.1, by decide +kernel⟩

end Resolution

end Reskin
