import Reskin.Proofs.Place.Reading
import Reskin.Proofs.Variable.Search

/-!
# Variables do not depend on places

Definitions are compared by the texts of their names, and values are read from the texts of their
literals. A definition is known by its index, and the definitions without places have the same
indices: `index` renames one to the other, so the search takes the same turns in both.

* **`Reported.unplaced_bind`**, **`Reported.unplaced_foldlM`** — steps that do not look at places
  can be put one after the other.
* **`Definition.resolve_unplaced`** — one search.
* **`Resolution.ofFiles_unplaced`** — all variables of a list of files.
-/

namespace Reskin

/-! ## Steps that report -/

namespace Reported

variable {α β γ δ : Type}

/-- A result and its reports without places. -/
def unplaced (f : α → β) (result : Reported α) : Reported β :=
  ⟨f result.value, result.diagnostics.map Diagnostic.unplaced⟩

@[simp] theorem unplaced_pure (f : α → β) (a : α) : (pure a : Reported α).unplaced f = pure (f a) :=
  rfl

/-- Two steps in a row do not depend on places if neither of them does. The second one is only asked
about the value that the first one gives. -/
theorem unplaced_bind (f : α → γ) {g : β → δ} {x : Reported α} {next : α → Reported β}
    {next' : γ → Reported δ} (h : (next x.value).unplaced g = next' (f x.value)) :
    (x >>= next).unplaced g = x.unplaced f >>= next' := by
  show Reported.mk _ _ = Reported.mk (next' (f x.value)).value
    (x.diagnostics.map Diagnostic.unplaced ++ (next' (f x.value)).diagnostics)
  rw [← h]
  simp [unplaced]

theorem unplaced_eq_iff {f : α → γ} {g : β → γ} {x : Reported α} {y : Reported β} :
    x.unplaced f = y.unplaced g ↔ f x.value = g y.value
      ∧ x.diagnostics.map Diagnostic.unplaced = y.diagnostics.map Diagnostic.unplaced :=
  Iff.of_eq (Reported.mk.injEq ..)

theorem unplaced_reportAll_bind (f : α → β) (diagnostics : List Diagnostic) (next : Reported α) :
    (reportAll diagnostics >>= fun _ => next).unplaced f
      = reportAll (diagnostics.map Diagnostic.unplaced) >>= fun _ => next.unplaced f :=
  unplaced_bind id rfl

/-- A fold of steps that do not depend on places does not either. -/
theorem unplaced_foldlM {σ τ : Type} (f : σ → τ) (g : α → β) {step : σ → α → Reported σ}
    {step' : τ → β → Reported τ} (h : ∀ state x, (step state x).unplaced f = step' (f state) (g x))
    (xs : List α) (init : σ) :
    (xs.foldlM step init).unplaced f = (xs.map g).foldlM step' (f init) := by
  induction xs generalizing init with
  | nil => rfl
  | cons x xs ih =>
    rw [List.map_cons, List.foldlM_cons, List.foldlM_cons, ← h]
    exact unplaced_bind f (ih _)

end Reported

namespace Definition

/-! ## Registration -/

/-- A definition without the places of its tokens. -/
def unplaced (definition : Definition) : Definition :=
  { definition with name := definition.name.unplaced, value := definition.value.unplaced }

/-- Whether a name is taken is decided by its text and its scope. -/
theorem register_unplaced (definitions : List Definition) (definition : Definition) :
    (register definitions definition).unplaced (List.map unplaced)
      = register (definitions.map unplaced) definition.unplaced := by
  have hclashes : (definitions.map unplaced).any definition.unplaced.clashes
      = definitions.any definition.clashes := by
    rw [List.any_map]
    rfl
  unfold register
  rw [hclashes]
  split
  · rfl
  · rw [Reported.unplaced_pure, List.map_append]
    rfl

theorem ofStatement?_unplaced (file : Nat) (statement : Statement) :
    ofStatement? file statement.unplaced = (ofStatement? file statement).map unplaced := by
  cases statement <;> rfl

/-- The definitions of some files are those of the files without places, one by one. -/
theorem written_unplaced (files : List (List Statement)) :
    written (files.map (List.map Statement.unplaced)) = (written files).map unplaced := by
  unfold written
  rw [List.zipIdx_map, List.flatMap_map, List.map_flatMap]
  congr 1
  funext ⟨statements, file⟩
  simp only [Prod.map_apply, id_eq, List.filterMap_map, List.map_filterMap]
  congr 1
  funext statement
  exact ofStatement?_unplaced file statement

/-- So the same definitions count. -/
theorem collect_unplaced (files : List (List Statement)) :
    (collect files).unplaced (List.map unplaced)
      = collect (files.map (List.map Statement.unplaced)) := by
  unfold collect
  rw [written_unplaced]
  exact Reported.unplaced_foldlM _ _ register_unplaced _ _

/-! ## Indices -/

variable {definitions : List Definition}

/-- The index of a definition among the definitions without places. -/
def index (i : Fin definitions.length) : Fin (definitions.map unplaced).length :=
  i.cast (List.length_map unplaced).symm

theorem index_inj {i j : Fin definitions.length} : index i = index j ↔ i = j := by
  simp [index, Fin.ext_iff]

/-- Values with the indices of the definitions without places. -/
def reindex (values : Values definitions.length) : Values (definitions.map unplaced).length :=
  values.map fun entry => (index entry.1, entry.2)

theorem get_index (i : Fin definitions.length) :
    (definitions.map unplaced).get (index i) = (definitions.get i).unplaced := by
  simp [index]

theorem file_unplaced (definition : Definition) : definition.unplaced.file = definition.file := rfl

theorem belongsTo_unplaced (definition : Definition) (scope : DefinitionScope) (file : Nat) :
    definition.unplaced.belongsTo scope file = definition.belongsTo scope file := rfl

theorem value_unplaced (definition : Definition) :
    definition.unplaced.value = definition.value.unplaced := rfl

/-- A value is found under the index that corresponds to its own. -/
theorem lookup_reindex (values : Values definitions.length) (i : Fin definitions.length) :
    (reindex values).lookup (index i) = values.lookup i := by
  induction values with
  | nil => rfl
  | cons entry rest ih =>
    have heq : (index i == index entry.1) = (i == entry.1) := by
      rw [Bool.eq_iff_iff, beq_iff_eq, beq_iff_eq, index_inj]
    rw [reindex, List.map_cons, List.lookup_cons, List.lookup_cons, heq, ← ih]
    rfl

theorem finRange_index :
    List.finRange (definitions.map unplaced).length
      = (List.finRange definitions.length).map index := by
  apply List.ext_get
  · simp
  · intro n h₁ h₂
    simp [index]

/-- What is looked for without regard to places is found at the same index. -/
theorem findFinIdx?_index {p : Definition → Bool}
    (hp : ∀ definition : Definition, p definition.unplaced = p definition) :
    (definitions.map unplaced).findFinIdx? p = (definitions.findFinIdx? p).map index := by
  apply Option.map_injective fun _ _ => Fin.ext
  rw [Option.map_map, ← List.findIdx?_eq_map_findFinIdx?_val, List.findIdx?_map]
  rw [show p ∘ unplaced = p from funext hp, List.findIdx?_eq_map_findFinIdx?_val]
  rfl

/-- A name means the same definition. -/
theorem lookup?_unplaced (file : Nat) (name : String) :
    lookup? (definitions.map unplaced) file name = (lookup? definitions file name).map index := by
  have hfind : ∀ scope, (definitions.map unplaced).findFinIdx? (fun definition =>
      definition.belongsTo scope file && definition.name.text == name)
        = (definitions.findFinIdx? fun definition =>
          definition.belongsTo scope file && definition.name.text == name).map index :=
    fun scope => findFinIdx?_index fun _ => rfl
  simp only [lookup?, hfind]
  cases definitions.findFinIdx? fun definition =>
    definition.belongsTo .file file && definition.name.text == name <;> rfl

/-! ## The search -/

theorem known_unplaced (values : Values definitions.length) (i : Fin definitions.length) :
    known (definitions.map unplaced) (reindex values) (index i) = known definitions values i := by
  funext name
  unfold known
  rw [get_index, file_unplaced, lookup?_unplaced, Option.bind_map]
  congr 1
  funext j
  exact lookup_reindex values j

theorem resolve_skip {visiting : List (Fin definitions.length)} {i : Fin definitions.length}
    {values : Values definitions.length} (h : i ∈ visiting ∨ (values.lookup i).isSome) :
    resolve definitions visiting i values = pure values := by
  rw [resolve]
  split
  · rfl
  · next hi => rw [if_pos (h.resolve_left (by simpa using hi))]

/-- Resolving what a value refers to does not depend on places, if resolving a definition does not.
This is the step of the induction below. -/
theorem visit_unplaced {visiting : List (Fin definitions.length)} (i : Fin definitions.length)
    (h : ∀ j state, (resolve definitions visiting j state).unplaced reindex
      = resolve (definitions.map unplaced) (visiting.map index) (index j) (reindex state))
    (values : Values definitions.length) (name : String) :
    (visit definitions visiting i values name).unplaced reindex
      = visit (definitions.map unplaced) (visiting.map index) (index i) (reindex values) name := by
  unfold visit
  rw [get_index, file_unplaced, lookup?_unplaced]
  cases lookup? definitions (definitions.get i).file name with
  | none => rfl
  | some j => exact h j values

/-- Where the text of a definition stands does not matter for what it resolves to, nor for the
definitions that are kept in the cache. The induction is along the search. -/
theorem resolve_unplaced (visiting : List (Fin definitions.length)) (i : Fin definitions.length)
    (values : Values definitions.length) :
    (resolve definitions visiting i values).unplaced reindex
      = resolve (definitions.map unplaced) (visiting.map index) (index i) (reindex values) := by
  induction visiting, i, values using resolve_induct with
  | skip visiting i values h hskip =>
    rw [hskip, resolve_skip, Reported.unplaced_pure]
    rw [lookup_reindex]
    exact h.imp (List.mem_map_of_mem) id
  | fresh visiting i values hi hvalue ih =>
    have hi' : index i ∉ visiting.map index := by
      rw [List.mem_map]
      rintro ⟨j, hj, hji⟩
      exact hi (index_inj.mp hji ▸ hj)
    have hvalue' : (reindex values).lookup (index i) = none := by rw [lookup_reindex, hvalue]
    rw [resolve_fresh hi hvalue, resolve_fresh hi' hvalue', get_index]
    have hvisit := Reported.unplaced_foldlM reindex id (visit_unplaced i ih)
      (Interpolation.references (definitions.get i).value.value) values
    rw [List.map_id, List.map_cons] at hvisit
    rw [value_unplaced, Token.value_unplaced, ← hvisit]
    refine Reported.unplaced_bind reindex ?_
    rw [known_unplaced]
    rw [Reported.unplaced_reportAll_bind, List.map_map]
    rfl

theorem resolveAll_unplaced (definitions : List Definition) :
    (resolveAll definitions).unplaced reindex = resolveAll (definitions.map unplaced) := by
  unfold resolveAll
  rw [finRange_index]
  exact Reported.unplaced_foldlM reindex index
    (fun values i => resolve_unplaced [] i values) _ _

end Definition

/-! ## Variables -/

/-- A variable without the place of its name. -/
def Variable.unplaced (entry : Variable) : Variable :=
  { entry with token := entry.token.unplaced }

def Variables.unplaced (scope : Variables) : Variables :=
  ⟨scope.entries.map Variable.unplaced⟩

def Resolution.unplaced (resolution : Resolution) : Resolution :=
  ⟨resolution.globals.unplaced, resolution.locals.map Variables.unplaced⟩

/-- The variables of a scope are the same, with their values and without the places of their
names. -/
theorem Definition.toVariables_unplaced {definitions : List Definition}
    (values : Values definitions.length) (scope : DefinitionScope) (file : Nat) :
    (toVariables definitions values fun definition => definition.belongsTo scope file).unplaced
      = toVariables (definitions.map unplaced) (reindex values)
        fun definition => definition.belongsTo scope file := by
  unfold toVariables Variables.unplaced
  rw [finRange_index, List.filterMap_map, List.map_filterMap]
  congr 2
  funext i
  have hget : (definitions.map unplaced)[index i] = definitions[i].unplaced := get_index i
  simp only [Function.comp_apply, hget, lookup_reindex, belongsTo_unplaced]
  split <;> rfl

/-- The variables of a list of files do not depend on places. -/
theorem Resolution.ofFiles_unplaced (files : List (List Statement)) :
    (Resolution.ofFiles files).unplaced Resolution.unplaced
      = Resolution.ofFiles (files.map (List.map Statement.unplaced)) := by
  unfold ofFiles
  rw [← Definition.collect_unplaced]
  refine Reported.unplaced_bind (List.map Definition.unplaced) ?_
  rw [← Definition.resolveAll_unplaced]
  refine Reported.unplaced_bind Definition.reindex ?_
  simp only [Reported.unplaced_pure, Resolution.unplaced, ← Definition.toVariables_unplaced,
    List.zipIdx_map, List.map_map]
  rfl

end Reskin
