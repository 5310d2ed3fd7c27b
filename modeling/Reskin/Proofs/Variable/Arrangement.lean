import Mathlib.Data.List.Forall2
import Mathlib.Data.List.Perm.Basic
import Reskin.Proofs.Statement.Arrangement
import Reskin.Proofs.Variable.Resolution

/-!
# Variables do not depend on where they are defined

All definitions are known before a value is looked at. So the order of definitions matters only
where a variable is defined again, which is reported. If none is, the same definitions in another
order come to the same variables.

* **`Definition.collect_silent_iff`** — nothing is reported if no variable is defined again.
* **`Definition.registered_eq`** — the same definitions count.
* **`Resolution.get?_select`** — a variable is found by the definition that counts.
* **`Resolution.ofFiles_rearranges`** — the headline, for files whose definitions are moved.
-/

namespace Reskin

open Statement (Rearranges)

namespace Definition

variable {files moved : List (List Statement)}

/-! ## Definitions in another order -/

/-- Nothing is reported if no variable is defined again. -/
theorem collect_silent_iff :
    (collect files).diagnostics = []
      ↔ (written files).Pairwise fun a b => ¬SameVariable a b := by
  rw [diagnostics_collect, List.map_eq_nil_iff, repeats_eq_nil_iff]

/-- If no variable is defined again, all definitions count, since none has an earlier one of its
variable in front of it. -/
theorem registered_iff_mem (h : (collect files).diagnostics = []) {definition : Definition} :
    Registered files definition ↔ definition ∈ written files := by
  refine ⟨First.mem, fun hmem => ?_⟩
  obtain ⟨before, after, hwritten⟩ := List.append_of_mem hmem
  rw [collect_silent_iff, hwritten, List.pairwise_append] at h
  exact ⟨before, after, hwritten, fun earlier hearlier =>
    h.2.2 earlier hearlier definition List.mem_cons_self⟩

theorem collect_silent_of_perm (hperm : (written files).Perm (written moved))
    (h : (collect files).diagnostics = []) : (collect moved).diagnostics = [] := by
  rw [collect_silent_iff] at h ⊢
  exact (hperm.pairwise_iff fun hab hba => hab hba.symm).mp h

/-- **The same definitions count** in any order, if no variable is defined again: then all of them
do. -/
theorem registered_eq (hperm : (written files).Perm (written moved))
    (h : (collect files).diagnostics = []) : Registered moved = Registered files := by
  funext definition
  apply propext
  rw [registered_iff_mem h, registered_iff_mem (collect_silent_of_perm hperm h), hperm.mem_iff]

/-- Moving statements inside of files moves the definitions that are written in them. A definition
keeps the number of its file. -/
theorem perm_written (h : List.Forall₂ Rearranges files moved) :
    (written files).Perm (written moved) := by
  have hfrom : ∀ start, ((files.zipIdx start).flatMap fun pair =>
        pair.1.filterMap (ofStatement? pair.2)).Perm
      ((moved.zipIdx start).flatMap fun pair => pair.1.filterMap (ofStatement? pair.2)) := by
    induction h with
    | nil => exact fun _ => .nil
    | cons hfirst _ ih =>
      intro start
      rw [List.zipIdx_cons, List.zipIdx_cons, List.flatMap_cons, List.flatMap_cons]
      exact (hfirst.perm.filterMap _).append (ih (start + 1))
  exact hfrom 0

end Definition

namespace Resolution

open Definition

variable {files moved : List (List Statement)} {scope : DefinitionScope} {file : Nat}

/-! ## Variables of a scope -/

/-- The variables of a scope, made from the collected definitions that belong to it. -/
def select (files : List (List Statement)) (scope : DefinitionScope) (file : Nat) : Variables :=
  toVariables (collect files).value (resolveAll (collect files).value).value fun definition =>
    definition.belongsTo scope file

theorem locals_ofFiles :
    (ofFiles files).value.locals = (List.range' 0 files.length).map (select files .file) := by
  rw [← List.zipIdx_map_snd, List.map_map]
  rfl

theorem length_locals (files : List (List Statement)) :
    (ofFiles files).value.locals.length = files.length := by
  rw [locals_ofFiles, List.length_map, List.length_range']

/-- A variable is found by the definition that counts, with the final value of that definition. -/
theorem get?_select {definition : Definition} (h : Registered files definition)
    (hbelongs : definition.belongsTo scope file = true) :
    (select files scope file).get? definition.name.text
      = some ⟨definition.name.text, ((ofFiles files).value.valueOf definition).getD "",
        definition.name⟩ := by
  obtain ⟨i, rfl⟩ := h.exists_index
  rw [valueOf_ofFiles]
  exact get?_toVariables hbelongs

theorem exists_registered_of_get? {name : String} {entry : Variable}
    (h : (select files scope file).get? name = some entry) :
    ∃ definition, Registered files definition ∧ definition.belongsTo scope file = true
      ∧ definition.name.text = name := by
  unfold Variables.get? at h
  have hname := List.find?_some h
  obtain ⟨i, hbelongs, rfl⟩ := mem_toVariables.mp (List.mem_of_find?_eq_some h)
  exact ⟨_, registered_get i, hbelongs, beq_iff_eq.mp hname⟩

/-- The same definitions with the same values are the same variables. A variable that is found for
one of the two comes from a definition that counts for both. -/
theorem get?_select_eq (hregistered : Registered moved = Registered files)
    (hvalue : ∀ definition, Registered files definition →
      (ofFiles moved).value.valueOf definition = (ofFiles files).value.valueOf definition)
    (scope : DefinitionScope) (file : Nat) :
    (select moved scope file).get? = (select files scope file).get? := by
  funext name
  cases hfiles : (select files scope file).get? name with
  | some entry =>
    obtain ⟨definition, hdefinition, hbelongs, rfl⟩ := exists_registered_of_get? hfiles
    have hmoved : Registered moved definition := hregistered ▸ hdefinition
    rw [← hfiles, get?_select hdefinition hbelongs, get?_select hmoved hbelongs,
      hvalue definition hdefinition]
  | none =>
    cases hmoved : (select moved scope file).get? name with
    | none => rfl
    | some entry =>
      obtain ⟨definition, hdefinition, hbelongs, rfl⟩ := exists_registered_of_get? hmoved
      rw [hregistered] at hdefinition
      rw [get?_select hdefinition hbelongs] at hfiles
      cases hfiles

/-! ## Files whose definitions are moved -/

/-- **Variables do not depend on where in a file they are defined.** If nothing is reported about
the variables of some files, then nothing is if definitions are moved, and the same variables are
found with the same values. Both lists of values solve the same equations, which have one
solution. -/
theorem ofFiles_rearranges (h : List.Forall₂ Rearranges files moved)
    (hsilent : (ofFiles files).diagnostics = []) :
    (ofFiles moved).diagnostics = []
      ∧ (ofFiles moved).value.globals.get? = (ofFiles files).value.globals.get?
      ∧ List.Forall₂ (fun locals others => others.get? = locals.get?)
        (ofFiles files).value.locals (ofFiles moved).value.locals := by
  rw [diagnostics_ofFiles, List.append_eq_nil_iff, resolveAll_silent_iff, hasTargets_iff,
    acyclic_iff] at hsilent
  obtain ⟨hcollect, htargets, hcyclic⟩ := hsilent
  have hperm := perm_written h
  have hregistered := registered_eq hperm hcollect
  -- All that is said about references and values rests on which definitions count.
  have hpoints : PointsTo moved = PointsTo files := by
    unfold PointsTo
    rw [hregistered]
  have htargetsMoved : AllTargets moved := by
    unfold AllTargets
    rw [hregistered, hpoints]
    exact htargets
  have hcyclicMoved : ¬Cyclic moved := by
    unfold Cyclic Refers
    rw [hpoints]
    exact hcyclic
  have hsolves : Solves files (ofFiles moved).value.valueOf := by
    have hsolved := solves_valueOf htargetsMoved hcyclicMoved
    unfold Solves at hsolved ⊢
    rw [hregistered, hpoints] at hsolved
    exact hsolved
  have hvalue : ∀ definition, Registered files definition →
      (ofFiles moved).value.valueOf definition = (ofFiles files).value.valueOf definition :=
    fun definition => eq_valueOf_of_solves htargets hcyclic hsolves
  refine ⟨?_, get?_select_eq hregistered hvalue .global 0, ?_⟩
  · rw [diagnostics_ofFiles, collect_silent_of_perm hperm hcollect, List.nil_append,
      resolveAll_silent_iff, hasTargets_iff, acyclic_iff]
    exact ⟨htargetsMoved, hcyclicMoved⟩
  · rw [locals_ofFiles, locals_ofFiles, ← h.length_eq, List.forall₂_map_left_iff,
      List.forall₂_map_right_iff, List.forall₂_same]
    exact fun file _ => get?_select_eq hregistered hvalue .file file

end Resolution

end Reskin
