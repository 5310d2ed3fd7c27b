import Mathlib.Data.List.Basic
import Mathlib.Logic.Relation
import Reskin.Proofs.Interpolation
import Reskin.Proofs.Reported
import Reskin.Variable.Resolution

/-!
# The search for final values

Values are resolved depth first, with the definitions that are being resolved on a stack. The
search reports a reference if it has no target, or if its target is on the stack. So it reports
nothing if and only if every reference has a target and no chain of references comes back to where
it started; this is `resolveAll_silent_iff`.

* **`resolve_induct`** — the one induction behind all that follows. The stack grows on the way
  down, and it never holds a definition twice.
* **`resolve_extends`**, **`resolve_mem_or_known`** — what the search does in any case: it changes
  no value, and it gives a value to every definition that is not on the stack.
* **`Ordered`** — the invariant of a silent search: each value was put in behind the values of all
  the definitions it refers to. It gives both the order in which references go down
  (`Ordered.acyclic`) and the equations that the values fulfil (`Ordered.value_eq`).
* **`resolve_silent`** — in the other direction, without cycles the definitions on the stack are
  those in front of the current one, so no reference leads to one of them.
-/

namespace Reskin.Definition

open Interpolation

variable {definitions : List Definition}

/-! ## One definition

Either there is nothing to do, or the references are visited and the value is filled in. With
`resolve_induct` and `resolve_fresh`, nothing below has to unfold `resolve`. -/

/-- The value that a name has for a definition, as far as values are known. -/
def known (definitions : List Definition) (values : Values definitions.length)
    (i : Fin definitions.length) (name : String) : Option String :=
  (lookup? definitions (definitions.get i).file name).bind fun j => values.lookup j

/-- Resolves what a name in the value of a definition refers to. -/
def visit (definitions : List Definition) (visiting : List (Fin definitions.length))
    (i : Fin definitions.length) (values : Values definitions.length) (name : String) :
    Reported (Values definitions.length) :=
  match lookup? definitions (definitions.get i).file name with
  | some j => resolve definitions visiting j values
  | none => pure values

variable {visiting : List (Fin definitions.length)} {i : Fin definitions.length}
  {values : Values definitions.length}

/-- How a definition without a value is resolved: first all that it refers to, one after the other,
then its own text with the values that are known then. -/
theorem resolve_fresh (hi : i ∉ visiting) (hvalue : values.lookup i = none) :
    resolve definitions visiting i values = (do
      let after ← (references (definitions.get i).value.value).foldlM
        (visit definitions (i :: visiting) i) values
      Reported.reportAll
        ((unresolved (known definitions after i) (definitions.get i).value.value).map fun name =>
          .located (.build (.unresolvedVariable name)) (definitions.get i).value.location)
      return (i, fill (known definitions after i) (definitions.get i).value.value) :: after) := by
  rw [resolve, dif_neg (by simpa using hi), if_neg (by simp [hvalue])]
  rfl

/-- Induction along the search: what holds of each definition for a longer stack holds of one that
has no value yet. All facts about the search are proved with this. -/
theorem resolve_induct
    {motive : List (Fin definitions.length) → Fin definitions.length →
      Values definitions.length → Prop}
    (skip : ∀ visiting i values, (i ∈ visiting ∨ (values.lookup i).isSome) →
      resolve definitions visiting i values = pure values → motive visiting i values)
    (fresh : ∀ visiting i values, i ∉ visiting → values.lookup i = none →
      (∀ j state, motive (i :: visiting) j state) → motive visiting i values)
    (visiting : List (Fin definitions.length)) (i : Fin definitions.length)
    (values : Values definitions.length) : motive visiting i values := by
  by_cases hi : i ∈ visiting
  · exact skip visiting i values (.inl hi) (by rw [resolve, dif_pos (by simpa using hi)])
  · cases hvalue : values.lookup i with
    | some value =>
      have hknown : (values.lookup i).isSome := by simp [hvalue]
      refine skip visiting i values (.inr hknown) ?_
      rw [resolve, dif_neg (by simpa using hi), if_pos hknown]
    | none =>
      exact fresh visiting i values hi hvalue fun j state =>
        resolve_induct skip fresh (i :: visiting) j state
termination_by unvisited visiting
decreasing_by exact unvisited_cons_lt (by simpa using hi)

/-! ## What every search does -/

/-- Definitions on the stack get no value while the search is above them. So a definition gets its
value once, when the search comes back to it. -/
theorem lookup_resolve_of_mem (visiting : List (Fin definitions.length))
    (i : Fin definitions.length) (values : Values definitions.length)
    {k : Fin definitions.length} (hk : k ∈ visiting) :
    (resolve definitions visiting i values).value.lookup k = values.lookup k := by
  induction visiting, i, values using resolve_induct with
  | skip visiting i values _ hskip => rw [hskip, Reported.value_pure]
  | fresh visiting i values hi hvalue ih =>
    rw [resolve_fresh hi hvalue]
    have hne : (k == i) = false := by
      rw [beq_eq_false_iff_ne]
      rintro rfl
      exact hi hk
    show List.lookup k ((i, _) :: _) = _
    rw [List.lookup_cons, hne]
    refine Reported.foldlM_invariant
      (P := fun after : Values definitions.length => after.lookup k = values.lookup k) rfl ?_
    intro state name _ hstate
    rw [visit]
    split
    · next j _ => rw [ih j state (List.mem_cons_of_mem i hk), hstate]
    · exact hstate

/-- Visiting the references of a definition gives no value to the definition itself, as it is on the
stack. -/
theorem lookup_visitAll (names : List String) (hvalue : values.lookup i = none) :
    (names.foldlM (visit definitions (i :: visiting) i) values).value.lookup i = none := by
  refine Reported.foldlM_invariant
    (P := fun after : Values definitions.length => after.lookup i = none) hvalue ?_
  intro state name _ hstate
  rw [visit]
  split
  · next j _ => rw [lookup_resolve_of_mem _ j state List.mem_cons_self, hstate]
  · exact hstate

/-- The values of `before` are all there in `after`. -/
def Extends (before after : Values definitions.length) : Prop :=
  ∀ k value, before.lookup k = some value → after.lookup k = some value

theorem Extends.trans {a b c : Values definitions.length} (hab : Extends a b) (hbc : Extends b c) :
    Extends a c :=
  fun k value h => hbc k value (hab k value h)

theorem extends_cons {after : Values definitions.length} {value : String}
    (hfresh : after.lookup i = none) : Extends after ((i, value) :: after) := by
  intro k known hk
  have hne : (k == i) = false := by
    rw [beq_eq_false_iff_ne]
    rintro rfl
    rw [hfresh] at hk
    cases hk
  rw [List.lookup_cons, hne]
  exact hk

/-- The search changes no value. It adds one for a definition that had none. -/
theorem resolve_extends (visiting : List (Fin definitions.length)) (i : Fin definitions.length)
    (values : Values definitions.length) :
    Extends values (resolve definitions visiting i values).value := by
  induction visiting, i, values using resolve_induct with
  | skip visiting i values _ hskip =>
    rw [hskip]
    exact fun _ _ h => h
  | fresh visiting i values hi hvalue ih =>
    rw [resolve_fresh hi hvalue]
    refine Extends.trans ?_ (extends_cons (lookup_visitAll _ hvalue))
    refine Reported.foldlM_invariant (P := Extends values) (fun _ _ h => h) ?_
    intro state name _ hstate
    rw [visit]
    split
    · next j _ => exact hstate.trans (ih j state)
    · exact hstate

/-- The search gives a value to every definition that is not on the stack. -/
theorem resolve_mem_or_known (visiting : List (Fin definitions.length))
    (i : Fin definitions.length) (values : Values definitions.length) :
    i ∈ visiting ∨ ((resolve definitions visiting i values).value.lookup i).isSome := by
  induction visiting, i, values using resolve_induct with
  | skip visiting i values hskipped hskip => rwa [hskip, Reported.value_pure]
  | fresh visiting i values hi hvalue _ =>
    right
    rw [resolve_fresh hi hvalue]
    show (List.lookup i ((i, _) :: _)).isSome = true
    rw [List.lookup_cons_self]
    rfl

/-! ## The invariant of a silent search -/

/-- Each value was filled in from values behind it, which include all that it refers to. -/
inductive Ordered : Values definitions.length → Prop where
  | nil : Ordered []
  | cons {i : Fin definitions.length} {rest : Values definitions.length}
      (hfresh : rest.lookup i = none)
      (hreferences : ∀ name ∈ references (definitions.get i).value.value,
        (known definitions rest i name).isSome)
      (hrest : Ordered rest) :
      Ordered ((i, fill (known definitions rest i) (definitions.get i).value.value) :: rest)

/-- **A search without reports keeps the order.** All names of the definition had a value when its
own was filled in, or they would have been reported. -/
theorem resolve_ordered (visiting : List (Fin definitions.length)) (i : Fin definitions.length)
    (values : Values definitions.length) (hordered : Ordered values)
    (hsilent : (resolve definitions visiting i values).diagnostics = []) :
    Ordered (resolve definitions visiting i values).value := by
  induction visiting, i, values using resolve_induct with
  | skip visiting i values _ hskip =>
    rw [hskip]
    exact hordered
  | fresh visiting i values hi hvalue ih =>
    rw [resolve_fresh hi hvalue] at hsilent ⊢
    simp only [Reported.diagnostics_bind, Reported.diagnostics_reportAll,
      Reported.diagnostics_pure, List.append_nil, List.append_eq_nil_iff, List.map_eq_nil_iff,
      unresolved_eq_nil_iff] at hsilent
    obtain ⟨hvisits, hreferences⟩ := hsilent
    refine .cons (lookup_visitAll _ hvalue) hreferences ?_
    refine Reported.foldlM_silent_invariant hordered ?_ hvisits
    intro state name _ hstate hstep
    rw [visit] at hstep ⊢
    split at hstep
    · next j _ => exact ih j state hstate hstep
    · exact hstate

/-! ### References go down -/

/-- A definition refers to another one. -/
def Reference (definitions : List Definition) (i j : Fin definitions.length) : Prop :=
  ∃ name ∈ references (definitions.get i).value.value,
    lookup? definitions (definitions.get i).file name = some j

/-- A known value of a reference is the value of its target. -/
theorem isSome_of_known {j : Fin definitions.length} {name : String}
    (hname : lookup? definitions (definitions.get i).file name = some j)
    (h : (known definitions values i name).isSome) : (values.lookup j).isSome := by
  rwa [known, hname] at h

theorem isSome_lookup_cons {k : Fin definitions.length} {value : String}
    (h : (List.lookup k ((i, value) :: values)).isSome) : k = i ∨ (values.lookup k).isSome := by
  by_cases hk : k = i
  · exact .inl hk
  · rw [List.lookup_cons, beq_eq_false_iff_ne.mpr hk] at h
    exact .inr h

theorem isSome_lookup_cons_of_isSome {k : Fin definitions.length} {value : String}
    (h : (values.lookup k).isSome) : (List.lookup k ((i, value) :: values)).isSome := by
  rw [List.lookup_cons]
  cases k == i with
  | true => rfl
  | false => exact h

/-- What a definition with a value refers to has a value too: it had one when the value of the
definition was filled in. -/
theorem Ordered.closed (h : Ordered values) {j : Fin definitions.length}
    (hi : (values.lookup i).isSome) (hij : Reference definitions i j) :
    (values.lookup j).isSome := by
  induction h with
  | nil => cases hi
  | cons hfresh hreferences hrest ih =>
    apply isSome_lookup_cons_of_isSome
    rcases isSome_lookup_cons hi with rfl | hi
    · obtain ⟨name, hname, htarget⟩ := hij
      exact isSome_of_known htarget (hreferences name hname)
    · exact ih hi

theorem Ordered.closed_chain (h : Ordered values) {j : Fin definitions.length}
    (hi : (values.lookup i).isSome)
    (hij : Relation.ReflTransGen (Reference definitions) i j) : (values.lookup j).isSome := by
  induction hij with
  | refl => exact hi
  | tail _ hstep ih => exact h.closed ih hstep

/-- No chain of references comes back to where it started: from the newest value it goes down, and
stays among the values behind it. -/
theorem Ordered.acyclic (h : Ordered values) (hi : (values.lookup i).isSome) :
    ¬Relation.TransGen (Reference definitions) i i := by
  induction h with
  | nil => cases hi
  | @cons k rest hfresh hreferences hrest ih =>
    rcases isSome_lookup_cons hi with rfl | hi
    · -- The chain goes down from the newest value at once, and then stays below it.
      intro hcycle
      obtain ⟨j, ⟨name, hname, htarget⟩, hback⟩ := Relation.TransGen.head'_iff.mp hcycle
      have hj : (rest.lookup j).isSome := isSome_of_known htarget (hreferences name hname)
      have hdown : (rest.lookup i).isSome := hrest.closed_chain hj hback
      rw [hfresh] at hdown
      cases hdown
    · exact ih hi

/-! ### Values fulfil their equations -/

theorem known_of_extends {before after : Values definitions.length} (h : Extends before after)
    {name : String} (hname : (known definitions before i name).isSome) :
    known definitions after i name = known definitions before i name := by
  obtain ⟨value, hvalue⟩ := Option.isSome_iff_exists.mp hname
  rw [hvalue]
  obtain ⟨j, hj, hlookup⟩ := Option.bind_eq_some_iff.mp hvalue
  rw [known, hj]
  exact h j value hlookup

/-- Each value is the text of its definition with the values of its references filled in. Values
that were put in later do not change what the names mean. -/
theorem Ordered.value_eq (h : Ordered values) {value : String}
    (hi : values.lookup i = some value) :
    (∀ name ∈ references (definitions.get i).value.value, (known definitions values i name).isSome)
      ∧ value = fill (known definitions values i) (definitions.get i).value.value := by
  induction h with
  | nil => cases hi
  | @cons k rest hfresh hreferences hrest ih =>
    have hextends : Extends rest
        ((k, fill (known definitions rest k) (definitions.get k).value.value) :: rest) :=
      extends_cons hfresh
    have hrest : (∀ name ∈ references (definitions.get i).value.value,
          (known definitions rest i name).isSome)
        ∧ value = fill (known definitions rest i) (definitions.get i).value.value := by
      by_cases hk : i = k
      · subst hk
        rw [List.lookup_cons_self] at hi
        exact ⟨hreferences, (Option.some.inj hi).symm⟩
      · rw [List.lookup_cons, beq_eq_false_iff_ne.mpr hk] at hi
        exact ih hi
    obtain ⟨hknown, hvalue⟩ := hrest
    -- The names have the same values among all values as among those behind the newest one.
    refine ⟨fun name hname => ?_, ?_⟩
    · rw [known_of_extends hextends (hknown name hname)]
      exact hknown name hname
    · rw [hvalue]
      exact fill_congr fun name hname => (known_of_extends hextends (hknown name hname)).symm

/-- The equations have one solution: values that were put in in order agree with any other.
Induction on the order, oldest value first. -/
theorem Ordered.unique (h : Ordered values) (other : Fin definitions.length → Option String)
    (hother : ∀ i, ∃ find : String → Option String,
      (∀ name ∈ references (definitions.get i).value.value, ∃ j,
        lookup? definitions (definitions.get i).file name = some j ∧ find name = other j)
      ∧ other i = some (fill find (definitions.get i).value.value))
    {value : String} (hi : values.lookup i = some value) : other i = some value := by
  induction h generalizing i value with
  | nil => cases hi
  | @cons k rest hfresh hreferences hrest ih =>
    by_cases hk : i = k
    · -- The newest value is filled in from those behind it, which agree by induction.
      subst hk
      rw [List.lookup_cons_self] at hi
      obtain ⟨find, hfind, hvalue⟩ := hother i
      rw [hvalue, ← hi]
      congr 1
      refine fill_congr fun name hname => ?_
      obtain ⟨j, hj, hfindName⟩ := hfind name hname
      obtain ⟨below, hbelow⟩ := Option.isSome_iff_exists.mp
        (isSome_of_known hj (hreferences name hname))
      rw [hfindName, ih hbelow, known, hj, Option.bind_some, hbelow]
    · rw [List.lookup_cons, beq_eq_false_iff_ne.mpr hk] at hi
      exact ih hi

/-! ## When the search is silent -/

/-- Every reference has a target. -/
def HasTargets (definitions : List Definition) : Prop :=
  ∀ i : Fin definitions.length, ∀ name ∈ references (definitions.get i).value.value,
    (lookup? definitions (definitions.get i).file name).isSome

/-- No chain of references comes back to where it started. -/
def Acyclic (definitions : List Definition) : Prop :=
  ∀ i : Fin definitions.length, ¬Relation.TransGen (Reference definitions) i i

/-- If all definitions on the stack lead to a definition, then they and the definition itself lead
to what it refers to. -/
theorem stack_leads {j : Fin definitions.length}
    (hstack : ∀ k ∈ visiting, Relation.TransGen (Reference definitions) k i)
    (hij : Reference definitions i j) :
    ∀ k ∈ i :: visiting, Relation.TransGen (Reference definitions) k j := by
  intro k hk
  rcases List.mem_cons.mp hk with rfl | hk
  · exact .single hij
  · exact (hstack k hk).tail hij

/-- Without cycles, visiting the references of a definition gives a value to all of them. A
reference that is on the stack would get none, but it would close a cycle. -/
theorem known_visitAll (htargets : HasTargets definitions) (hacyclic : Acyclic definitions)
    (hstack : ∀ k ∈ visiting, Relation.TransGen (Reference definitions) k i) :
    ∀ name ∈ references (definitions.get i).value.value,
      (known definitions ((references (definitions.get i).value.value).foldlM
        (visit definitions (i :: visiting) i) values).value i name).isSome := by
  refine Reported.foldlM_forall
    (Q := fun name (after : Values definitions.length) =>
      (known definitions after i name).isSome) ?_ ?_
  · intro state name hname
    obtain ⟨j, hj⟩ := Option.isSome_iff_exists.mp (htargets i name hname)
    rw [known, visit, hj]
    -- If the target were on the stack, it would lead to itself.
    refine (resolve_mem_or_known (i :: visiting) j state).resolve_left fun hmem => ?_
    exact hacyclic j (stack_leads hstack ⟨name, hname, hj⟩ j hmem)
  · intro state name _ other hother
    have hextends : Extends state (visit definitions (i :: visiting) i state name).value := by
      rw [visit]
      split
      · exact resolve_extends _ _ _
      · exact fun _ _ h => h
    rw [known_of_extends hextends hother]
    exact hother

/-- Without cycles, a search whose stack leads to its definition reports nothing. The condition on
the stack goes on to what the definition refers to. -/
theorem resolve_silent (htargets : HasTargets definitions) (hacyclic : Acyclic definitions)
    (visiting : List (Fin definitions.length)) (i : Fin definitions.length)
    (values : Values definitions.length)
    (hstack : ∀ k ∈ visiting, Relation.TransGen (Reference definitions) k i) :
    (resolve definitions visiting i values).diagnostics = [] := by
  induction visiting, i, values using resolve_induct with
  | skip visiting i values _ hskip => rw [hskip, Reported.diagnostics_pure]
  | fresh visiting i values hi hvalue ih =>
    rw [resolve_fresh hi hvalue]
    simp only [Reported.diagnostics_bind, Reported.diagnostics_reportAll,
      Reported.diagnostics_pure, List.append_nil, List.append_eq_nil_iff, List.map_eq_nil_iff,
      unresolved_eq_nil_iff]
    refine ⟨?_, known_visitAll htargets hacyclic hstack⟩
    refine Reported.foldlM_silent (P := fun _ => True) trivial (fun _ _ _ _ => trivial) ?_
    intro state name hname _
    rw [visit]
    split
    · next j hj => exact ih j state (stack_leads hstack ⟨name, hname, hj⟩)
    · rfl

/-- What is reported while a definition is resolved is at the value of a definition that refers to
the name. It may be another one, which was resolved on the way. -/
theorem exists_definition_of_mem_resolve (visiting : List (Fin definitions.length))
    (i : Fin definitions.length) (values : Values definitions.length) {diagnostic : Diagnostic}
    (h : diagnostic ∈ (resolve definitions visiting i values).diagnostics) :
    ∃ definition ∈ definitions, ∃ name ∈ references definition.value.value, diagnostic
      = .located (.build (.unresolvedVariable name)) definition.value.location := by
  induction visiting, i, values using resolve_induct with
  | skip visiting i values _ hskip =>
    rw [hskip] at h
    cases h
  | fresh visiting i values hi hvalue ih =>
    rw [resolve_fresh hi hvalue] at h
    simp only [Reported.diagnostics_bind, Reported.diagnostics_reportAll,
      Reported.diagnostics_pure, List.append_nil, List.mem_append] at h
    rcases h with h | h
    · obtain ⟨state, name, _, h⟩ := Reported.mem_diagnostics_foldlM h
      rw [visit] at h
      split at h
      · next j _ => exact ih j state h
      · cases h
    · obtain ⟨name, hname, heq⟩ := List.mem_map.mp h
      exact ⟨definitions.get i, List.get_mem _ i, name, (List.mem_filter.mp hname).1, heq.symm⟩

/-! ## All definitions -/

/-- In the end every definition has a value, if only one with names left in it. -/
theorem resolveAll_known (i : Fin definitions.length) :
    ((resolveAll definitions).value.lookup i).isSome := by
  refine Reported.foldlM_forall
    (Q := fun i (after : Values definitions.length) => (after.lookup i).isSome) ?_ ?_ i
    (List.mem_finRange i)
  · intro state k _
    exact (resolve_mem_or_known [] k state).resolve_left List.not_mem_nil
  · intro state k _ other hother
    obtain ⟨value, hvalue⟩ := Option.isSome_iff_exists.mp hother
    rw [resolve_extends [] k state other value hvalue]
    rfl

theorem resolveAll_ordered (hsilent : (resolveAll definitions).diagnostics = []) :
    Ordered (resolveAll definitions).value :=
  Reported.foldlM_silent_invariant .nil (fun state i _ => resolve_ordered [] i state) hsilent

/-- The search reports nothing if and only if every reference has a target and there is no cycle. If
it is silent, its values are in order, and these cannot have a cycle. -/
theorem resolveAll_silent_iff :
    (resolveAll definitions).diagnostics = [] ↔ HasTargets definitions ∧ Acyclic definitions := by
  constructor
  · intro hsilent
    have hordered := resolveAll_ordered hsilent
    refine ⟨fun i name hname => ?_, fun i => hordered.acyclic (resolveAll_known i)⟩
    obtain ⟨value, hvalue⟩ := Option.isSome_iff_exists.mp (resolveAll_known i)
    exact Option.isSome_of_isSome_bind ((hordered.value_eq hvalue).1 name hname)
  · rintro ⟨htargets, hacyclic⟩
    refine Reported.foldlM_silent (P := fun _ => True) trivial (fun _ _ _ _ => trivial) ?_
    intro state i _ _
    exact resolve_silent htargets hacyclic [] i state fun k hk => absurd hk List.not_mem_nil

theorem exists_definition_of_mem_resolveAll {diagnostic : Diagnostic}
    (h : diagnostic ∈ (resolveAll definitions).diagnostics) :
    ∃ definition ∈ definitions, ∃ name ∈ references definition.value.value, diagnostic
      = .located (.build (.unresolvedVariable name)) definition.value.location := by
  obtain ⟨state, i, _, h⟩ := Reported.mem_diagnostics_foldlM h
  exact exists_definition_of_mem_resolve [] i state h

theorem cause_of_mem_resolveAll {diagnostic : Diagnostic}
    (h : diagnostic ∈ (resolveAll definitions).diagnostics) :
    ∃ name, diagnostic.cause = .build (.unresolvedVariable name) := by
  obtain ⟨_, _, name, _, rfl⟩ := exists_definition_of_mem_resolveAll h
  exact ⟨name, rfl⟩

/-- The final values are those of the equations, all names being looked up among the final
values. -/
theorem resolveAll_value_eq (htargets : HasTargets definitions) (hacyclic : Acyclic definitions)
    (i : Fin definitions.length) :
    (resolveAll definitions).value.lookup i
      = some (fill (known definitions (resolveAll definitions).value i)
          (definitions.get i).value.value) := by
  have hordered := resolveAll_ordered (resolveAll_silent_iff.mpr ⟨htargets, hacyclic⟩)
  obtain ⟨value, hvalue⟩ := Option.isSome_iff_exists.mp (resolveAll_known i)
  rw [hvalue, ← (hordered.value_eq hvalue).2]

end Reskin.Definition
