import Reskin.Proofs.Variable.Arrangement
import Reskin.Proofs.Variable.Sites
import Reskin.Workspace.Convert

/-!
# What a scope holds

Definitions are collected in one list for all files, and the variables of each scope are taken from
that list once their values are known. A name is looked up twice: in the list, while values are
resolved, and among the variables, when statements are converted. Both come to the same.

* **`firstIn?`** — the first definition of a name in a scope; `token_get?_select` says that it is
  the one that the variable of the name has its token from, and `name_firstIn?_eq_some_iff` that it
  is made by the first statement that gives the name to the scope.
* **`exists_filter_isRedefinition`** — the other statements are reported.
* **`define_ofDefined`**, **`foldlM_define`** — a variable whose name was not defined before is
  accepted by its scope, and so are all variables of definitions that count, one after the other.
* **`lookup_ofFiles`** — the two look-ups.
* **`ofFiles_definesFirst`** — the headline.
-/

namespace Reskin

namespace Definition

variable {files : List (List Statement)} {scope : DefinitionScope} {file : Nat} {name : String}

/-! ## The first definition of a name -/

/-- The first definition of a name in a scope, in the order of the files and of their statements. -/
def firstIn? (files : List (List Statement)) (scope : DefinitionScope) (file : Nat)
    (name : String) : Option Definition :=
  (written files).find? fun definition =>
    definition.belongsTo scope file && definition.name.text == name

/-- The first definition of a name in a scope counts: nothing in front of it defines the
variable. -/
theorem registered_of_firstIn? {definition : Definition}
    (h : firstIn? files scope file name = some definition) :
    Registered files definition ∧ definition.belongsTo scope file = true
      ∧ definition.name.text = name := by
  obtain ⟨hfound, before, after, hwritten, hbefore⟩ := List.find?_eq_some_iff_append.mp h
  rw [Bool.and_eq_true, beq_iff_eq] at hfound
  refine ⟨⟨before, after, hwritten, fun earlier hearlier hsame => ?_⟩, hfound⟩
  -- An earlier definition of the variable would have been found in its place.
  have hnot := hbefore earlier hearlier
  rw [hsame.belongsTo hfound.1, hsame.2.2, hfound.2, beq_self_eq_true] at hnot
  cases hnot

/-- **The first definition of a name is made by the first statement that gives it to the scope.**
The list of definitions does not occur on the right: it is about the statements of the files. -/
theorem name_firstIn?_eq_some_iff {token : Token} :
    (firstIn? files scope file name).map Definition.name = some token
      ↔ ∃ site, DefinesFirst files scope file name site token := by
  have hselects : ∀ definition : Definition,
      (definition.belongsTo scope file && definition.name.text == name) = true
        ↔ definition.belongsTo scope file = true ∧ definition.name.text = name := by
    intro definition
    rw [Bool.and_eq_true, beq_iff_eq]
  rw [firstIn?, ← map_snd_sited, List.find?_map, Option.map_map, Option.map_eq_some_iff]
  simp only [find?_eq_some_iff_of_pairwise (pairwise_sited files) fun _ _ => Site.Before.asymm,
    Function.comp_apply, hselects]
  constructor
  · rintro ⟨⟨site, definition⟩, ⟨hmem, ⟨hbelongs, hname⟩, hfirst⟩, rfl⟩
    refine ⟨site, definesAt_iff.mpr ⟨definition, hmem, hbelongs, rfl, hname⟩, ?_⟩
    intro earlier other hbefore hdefines
    obtain ⟨known, hknown, hbelongs', rfl, hname'⟩ := definesAt_iff.mp hdefines
    exact hfirst (earlier, known) hknown hbefore ⟨hbelongs', hname'⟩
  · rintro ⟨site, hdefines, hfirst⟩
    obtain ⟨definition, hmem, hbelongs, rfl, hname⟩ := definesAt_iff.mp hdefines
    refine ⟨(site, definition), ⟨hmem, ⟨hbelongs, hname⟩, ?_⟩, rfl⟩
    rintro ⟨earlier, known⟩ hknown hbefore ⟨hbelongs', hname'⟩
    exact hfirst earlier known.name hbefore
      (definesAt_iff.mpr ⟨known, hknown, hbelongs', rfl, hname'⟩)

/-- The variable that a definition defines. -/
def toVariable (definition : Definition) (value : String) : Variable :=
  ⟨definition.name.text, value, definition.name⟩

end Definition

namespace Resolution

open Definition

variable {files : List (List Statement)} {scope : DefinitionScope} {file : Nat}

/-! ## The variables of a scope -/

/-- The variables of a scope: the global ones, or those of a file. -/
def variablesOf (resolution : Resolution) : DefinitionScope → Nat → Variables
  | .global, _ => resolution.globals
  | .file, file => resolution.locals.getD file {}

theorem select_global (file : Nat) : select files .global file = select files .global 0 := by
  unfold select
  congr

/-- The scopes of a resolution have the variables of the definitions that belong to them. A file
that is not there has no variables. -/
theorem variablesOf_ofFiles (scope : DefinitionScope) (file : Nat) :
    (ofFiles files).value.variablesOf scope file = select files scope file := by
  cases scope with
  | global => exact (select_global file).symm
  | file =>
    show (ofFiles files).value.locals.getD file {} = _
    rw [locals_ofFiles, List.getD_eq_getElem?_getD, List.getElem?_map]
    rcases Nat.lt_or_ge file files.length with hlt | hge
    · rw [List.getElem?_range' hlt]
      simp
    · -- No definition stands in a file that is not there.
      have hnone : (select files .file file).entries = [] := by
        refine List.eq_nil_iff_forall_not_mem.mpr fun entry hentry => ?_
        obtain ⟨i, hbelongs, -⟩ := mem_toVariables.mp hentry
        have hfile := (belongsTo_iff.mp hbelongs).2.resolve_left (by decide)
        have hlt := file_get_lt i
        omega
      rw [List.getElem?_eq_none (by simpa using hge)]
      show (⟨[]⟩ : Variables) = _
      rw [← hnone]

/-- A scope has at most one variable for each name, since two definitions of the name would be
one. -/
theorem nodup_select : ((select files scope file).entries.map Variable.name).Nodup := by
  rw [List.Nodup, List.pairwise_map]
  refine List.pairwise_filterMap.mpr ((List.nodup_finRange _).imp ?_)
  intro i j hne a ha b hb hname
  dsimp only at ha hb
  split at ha
  · next hi =>
    split at hb
    · next hj =>
      cases ha
      cases hb
      exact hne (eq_of_sameVariable (sameVariable_of_belongsTo hi hj hname))
    · cases hb
  · cases ha

/-- The variable of a name has the token of the first definition of the name. There is a variable
just if there is such a definition. -/
theorem token_get?_select (name : String) :
    ((select files scope file).get? name).map Variable.token
      = (firstIn? files scope file name).map Definition.name := by
  cases hfirst : firstIn? files scope file name with
  | some definition =>
    obtain ⟨hregistered, hbelongs, rfl⟩ := registered_of_firstIn? hfirst
    rw [get?_select hregistered hbelongs]
    rfl
  | none =>
    cases hget : (select files scope file).get? name with
    | none => rfl
    | some entry =>
      obtain ⟨definition, hregistered, hbelongs, hname⟩ := exists_registered_of_get? hget
      have hnot := List.find?_eq_none.mp hfirst definition hregistered.mem
      rw [hbelongs, hname, beq_self_eq_true] at hnot
      exact absurd rfl hnot

/-! ## Defining variables one after the other -/

/-- Puts the variable of a definition into its scope, unless the name is taken there. -/
def define (resolution : Resolution) (definition : Definition) (value : String) :
    Option Resolution :=
  match definition.scope with
  | .global =>
    (resolution.globals.define (definition.toVariable value)).map fun globals =>
      { resolution with globals := globals }
  | .file =>
    (resolution.locals[definition.file]?.bind fun locals =>
      locals.define (definition.toVariable value)).map fun locals =>
        { resolution with locals := resolution.locals.set definition.file locals }

/-- The variables of definitions with values that belong to a scope. -/
def inScope (scope : DefinitionScope) (file : Nat) (items : List (Definition × String)) :
    Variables :=
  ⟨(items.filter fun item => item.1.belongsTo scope file).map fun item => item.1.toVariable item.2⟩

/-- The scopes of a number of files, with the variables of definitions with values. -/
def ofDefined (count : Nat) (items : List (Definition × String)) : Resolution :=
  ⟨inScope .global 0 items, (List.range count).map fun file => inScope .file file items⟩

section Define

variable {count : Nat} {items : List (Definition × String)} {definition : Definition}
  {value : String}

theorem inScope_snoc_of_not_belongsTo (h : definition.belongsTo scope file = false) :
    inScope scope file (items ++ [(definition, value)]) = inScope scope file items := by
  simp [inScope, List.filter_append, h]

/-- A scope accepts a variable that was not defined before, and puts it behind the others. -/
theorem define_inScope (hfresh : ∀ item ∈ items, ¬SameVariable item.1 definition)
    (hbelongs : definition.belongsTo scope file = true) :
    (inScope scope file items).define (definition.toVariable value)
      = some (inScope scope file (items ++ [(definition, value)])) := by
  have hnone : (inScope scope file items).get? definition.name.text = none := by
    refine List.find?_eq_none.mpr fun other hother => ?_
    obtain ⟨item, hitem, rfl⟩ := List.mem_map.mp hother
    obtain ⟨hmem, hscope⟩ := List.mem_filter.mp hitem
    rw [beq_iff_eq]
    exact fun heq => hfresh item hmem (sameVariable_of_belongsTo hscope hbelongs heq)
  rw [Variables.define, show (definition.toVariable value).name = definition.name.text from rfl,
    hnone]
  simp [inScope, List.filter_append, hbelongs]

/-- A definition of a new variable changes its own scope, and leaves all others as they are. -/
theorem define_ofDefined (hfresh : ∀ item ∈ items, ¬SameVariable item.1 definition)
    (hfile : definition.file < count) :
    (ofDefined count items).define definition value
      = some (ofDefined count (items ++ [(definition, value)])) := by
  cases hscope : definition.scope with
  | global =>
    have hbelongs : definition.belongsTo .global 0 = true :=
      belongsTo_iff.mpr ⟨hscope, .inl rfl⟩
    have hother : ∀ file, definition.belongsTo .file file = false := by
      intro file
      simp [belongsTo, hscope]
    simp only [define, hscope, ofDefined, define_inScope hfresh hbelongs, Option.map_some,
      inScope_snoc_of_not_belongsTo (hother _)]
  | file =>
    have hbelongs : definition.belongsTo .file definition.file = true :=
      belongsTo_iff.mpr ⟨hscope, .inr rfl⟩
    have hglobal : definition.belongsTo .global 0 = false := by
      simp [belongsTo, hscope]
    have hlocals : (ofDefined count items).locals[definition.file]?
        = some (inScope .file definition.file items) := by
      simp [ofDefined, hfile]
    simp only [define, hscope]
    rw [hlocals, Option.bind_some, define_inScope hfresh hbelongs, Option.map_some]
    simp only [ofDefined, inScope_snoc_of_not_belongsTo hglobal]
    congr 2
    -- The scopes of the other files stay as they are.
    refine List.ext_getElem (by simp) fun other hset hnew => ?_
    rw [List.getElem_set]
    split
    · next heq =>
      subst heq
      simp
    · next hne =>
      have hother : definition.belongsTo .file other = false := by
        simp [belongsTo, hscope, hne]
      simp [inScope_snoc_of_not_belongsTo hother]

/-- Definitions of different variables are all accepted. Induction on those that are still to come,
with the scopes as they are after the others. -/
theorem foldlM_define {before after : List (Definition × String)}
    (hdistinct : (before ++ after).Pairwise fun a b => ¬SameVariable a.1 b.1)
    (hfile : ∀ item ∈ after, item.1.file < count) :
    after.foldlM (fun resolution item => resolution.define item.1 item.2) (ofDefined count before)
      = some (ofDefined count (before ++ after)) := by
  induction after generalizing before with
  | nil => simp
  | cons item after ih =>
    have hfresh : ∀ other ∈ before, ¬SameVariable other.1 item.1 := fun other hother =>
      (List.pairwise_append.mp hdistinct).2.2 other hother item List.mem_cons_self
    have hstep : (ofDefined count before).define item.1 item.2
        = some (ofDefined count (before ++ [item])) :=
      define_ofDefined hfresh (hfile item List.mem_cons_self)
    have hassoc : before ++ item :: after = before ++ [item] ++ after := by simp
    rw [hassoc] at hdistinct ⊢
    rw [List.foldlM_cons, hstep]
    exact ih hdistinct fun other hother => hfile other (List.mem_cons_of_mem item hother)

end Define

/-- The definitions that count, with their final values. -/
def defined (files : List (List Statement)) : List (Definition × String) :=
  (List.finRange (collect files).value.length).map fun i =>
    ((collect files).value.get i, ((resolveAll (collect files).value).value.lookup i).getD "")

theorem inScope_defined (scope : DefinitionScope) (file : Nat) :
    inScope scope file (defined files) = select files scope file := by
  rw [inScope, defined, List.filter_map, List.map_map, ← List.filterMap_eq_filter,
    List.map_filterMap, select, toVariables]
  congr 2
  funext i
  rw [Option.guard]
  split
  · next h => exact (if_pos h).symm
  · next h => exact (if_neg h).symm

theorem ofDefined_defined : ofDefined files.length (defined files) = (ofFiles files).value := by
  have hlocals : (ofFiles files).value.locals
      = (List.range files.length).map (select files .file) := by
    rw [locals_ofFiles, ← List.range_eq_range']
  simp only [ofDefined, inScope_defined]
  rw [← hlocals]
  rfl

/-- **No variable that counts is refused**, and defining one after the other gives the scopes of the
resolution. -/
theorem foldlM_define_defined :
    (defined files).foldlM (fun resolution item => resolution.define item.1 item.2)
        ⟨{}, files.map fun _ => {}⟩
      = some (ofFiles files).value := by
  have hstart : (⟨{}, files.map fun _ => {}⟩ : Resolution) = ofDefined files.length [] := by
    rw [List.map_const']
    show _ = Resolution.mk {} ((List.range files.length).map fun _ => {})
    rw [List.map_const', List.length_range]
  rw [hstart, foldlM_define, List.nil_append, ofDefined_defined]
  · rw [List.nil_append, defined, List.pairwise_map]
    exact (List.nodup_finRange _).imp fun hne hsame => hne (eq_of_sameVariable hsame)
  · intro item hitem
    obtain ⟨i, -, rfl⟩ := List.mem_map.mp hitem
    exact file_get_lt i

/-! ## Both look-ups -/

/-- The variable of a definition that counts. -/
def variableAt (files : List (List Statement)) (i : Fin (collect files).value.length) : Variable :=
  ((collect files).value.get i).toVariable
    (((resolveAll (collect files).value).value.lookup i).getD "")

theorem value_variableAt (i : Fin (collect files).value.length) :
    some (variableAt files i).value = (resolveAll (collect files).value).value.lookup i := by
  obtain ⟨value, hvalue⟩ := Option.isSome_iff_exists.mp (resolveAll_known i)
  rw [hvalue, variableAt, hvalue]
  rfl

/-- A name is found among the variables of a scope just if a collected definition is found there,
and the variable is that of the definition. -/
theorem get?_select_eq_findIn? (name : String) :
    (select files scope file).get? name
      = (findIn? (collect files).value scope file name).map (variableAt files) := by
  cases hfind : findIn? (collect files).value scope file name with
  | some i =>
    obtain ⟨hbelongs, rfl⟩ := findIn?_eq_some_iff.mp hfind
    exact get?_toVariables hbelongs
  | none =>
    cases hget : (select files scope file).get? name with
    | none => rfl
    | some entry =>
      obtain ⟨definition, hregistered, hbelongs, hname⟩ := exists_registered_of_get? hget
      exact absurd hname (findIn?_eq_none_iff.mp hfind definition hregistered hbelongs)

/-- What the statements of a file can refer to. -/
def environment (resolution : Resolution) (view : Files) (root : Path) (file : Nat) : Environment :=
  ⟨view, root, resolution.variablesOf .file file, resolution.globals⟩

/-- The variables and the collected definitions are searched in the same order of scopes, so a name
has the value of the definition that it means. -/
theorem lookup_ofFiles (view : Files) (root : Path) (file : Nat) (name : String) :
    ((ofFiles files).value.environment view root file).lookup name
      = (lookup? (collect files).value file name).map fun i => (variableAt files i).value := by
  have hglobals : (ofFiles files).value.globals = select files .global file :=
    (select_global file).symm
  have hlookup : ((ofFiles files).value.environment view root file).lookup name
      = (((select files .file file).get? name).or
        ((select files .global file).get? name)).map Variable.value := by
    rw [environment, variablesOf_ofFiles, hglobals, Option.or_eq_orElse]
    rfl
  rw [hlookup, get?_select_eq_findIn?, get?_select_eq_findIn?, ← Option.map_or, Option.map_map,
    lookup?_eq_or]
  rfl

/-! ## The result -/

/-- Whether a diagnostic reports a variable that was defined before. -/
def isRedefinition (diagnostic : Diagnostic) : Bool :=
  match diagnostic.cause with
  | .build (.variableRedefined _) => true
  | _ => false

/-- Of all that is reported about variables, the repetitions are those that collecting reports. The
search reports unresolved names only. -/
theorem filter_isRedefinition :
    (ofFiles files).diagnostics.filter isRedefinition
      = (repeats (written files)).map redefinition := by
  have hrepeats : ∀ diagnostic ∈ (repeats (written files)).map redefinition,
      isRedefinition diagnostic = true := by
    intro diagnostic hmem
    obtain ⟨definition, -, rfl⟩ := List.mem_map.mp hmem
    rfl
  have hsearch : ∀ diagnostic ∈ (resolveAll (collect files).value).diagnostics,
      ¬isRedefinition diagnostic = true := by
    intro diagnostic hmem
    obtain ⟨name, hcause⟩ := cause_of_mem_resolveAll hmem
    rw [isRedefinition, hcause]
    exact Bool.false_ne_true
  rw [diagnostics_ofFiles, diagnostics_collect, List.filter_append,
    List.filter_eq_self.mpr hrepeats, List.filter_eq_nil_iff.mpr hsearch, List.append_nil]

/-- The statements that give a name to a scope that has it already are reported, each once, at its
name, and in the order in which they are written. -/
theorem exists_filter_isRedefinition (files : List (List Statement)) :
    ∃ repeated : List (Site × Token),
      repeated.Pairwise (fun a b => a.1.Before b.1)
        ∧ (∀ site token, (site, token) ∈ repeated ↔ Redefines files site token)
        ∧ (ofFiles files).diagnostics.filter isRedefinition = repeated.map fun entry =>
          .located (.build (.variableRedefined entry.2.text)) entry.2.location := by
  obtain ⟨repeated, hsorted, hmem, hnames⟩ := exists_repeated files
  refine ⟨repeated, hsorted, hmem, ?_⟩
  -- What is reported about a definition is said of the token of its name.
  have hreports := congrArg (List.map fun token : Token =>
    Diagnostic.located (.build (.variableRedefined token.text)) token.location) hnames
  rw [List.map_map, List.map_map] at hreports
  exact filter_isRedefinition.trans hreports

/-- The variables and the collected definitions agree on what a name means: the variable that is
found, in the file or else among the global ones, has its token from the definition that is
found. -/
theorem name_lookup? (file : Nat) (name : String) :
    (lookup? (collect files).value file name).map (fun i => ((collect files).value.get i).name)
      = ((((ofFiles files).value.variablesOf .file file).get? name).or
        (((ofFiles files).value.variablesOf .global file).get? name)).map Variable.token := by
  rw [variablesOf_ofFiles, variablesOf_ofFiles, get?_select_eq_findIn?, get?_select_eq_findIn?,
    ← Option.map_or, Option.map_map, ← lookup?_eq_or]
  rfl

/-- **The first definition of a name counts, for both look-ups.** There is a scope for each file
beside the global one. A scope has one variable for each name that a `let` or `global` statement
gives to it, with the token of the first of these statements; each of the others is reported once,
at its name. If the variables are defined one after the other, none is refused, and these are the
scopes. While values are resolved a name means the definition that its variable comes from, and the
name has a value in a statement just if it means one, namely the value of that definition. -/
theorem ofFiles_definesFirst (files : List (List Statement)) :
    (ofFiles files).value.locals.length = files.length
      ∧ (∀ scope file,
        (((ofFiles files).value.variablesOf scope file).entries.map Variable.name).Nodup
          ∧ ∀ name token,
            (((ofFiles files).value.variablesOf scope file).get? name).map Variable.token
                = some token
              ↔ ∃ site, DefinesFirst files scope file name site token)
      ∧ (∃ repeated : List (Site × Token),
        repeated.Pairwise (fun a b => a.1.Before b.1)
          ∧ (∀ site token, (site, token) ∈ repeated ↔ Redefines files site token)
          ∧ (ofFiles files).diagnostics.filter isRedefinition = repeated.map fun entry =>
            .located (.build (.variableRedefined entry.2.text)) entry.2.location)
      ∧ (defined files).foldlM (fun resolution item => resolution.define item.1 item.2)
          ⟨{}, files.map fun _ => {}⟩
        = some (ofFiles files).value
      ∧ ∀ view root file name,
        (lookup? (collect files).value file name).map (fun i => ((collect files).value.get i).name)
            = ((((ofFiles files).value.variablesOf .file file).get? name).or
              (((ofFiles files).value.variablesOf .global file).get? name)).map Variable.token
          ∧ (((ofFiles files).value.environment view root file).lookup name).isSome
            = (lookup? (collect files).value file name).isSome
          ∧ ((ofFiles files).value.environment view root file).lookup name
            = (lookup? (collect files).value file name).bind fun i =>
                (resolveAll (collect files).value).value.lookup i := by
  refine ⟨length_locals files, fun scope file => ?_, exists_filter_isRedefinition files,
    foldlM_define_defined, fun view root file name => ⟨name_lookup? file name, ?_⟩⟩
  · rw [variablesOf_ofFiles]
    refine ⟨nodup_select, fun name token => ?_⟩
    rw [token_get?_select, name_firstIn?_eq_some_iff]
  · rw [lookup_ofFiles]
    refine ⟨Option.isSome_map, ?_⟩
    cases lookup? (collect files).value file name with
    | none => rfl
    | some i => exact value_variableAt i

/-- A statement that defines a variable, in a line of its own. -/
def definitionAt (line : Nat) (scope : DefinitionScope) (name value : String) : Statement :=
  .definition scope ⟨"let", line, 0, none⟩ ⟨⟨name, line, 4, none⟩, ⟨"=", line, 5, none⟩,
    ⟨value, line, 6, none⟩⟩

/-- Two files. The first one defines its own `a` twice, and the second one defines the global `g`
that the first one has defined. The second file has an `a` of its own, which refers to `g`. -/
def redefined : List (List Statement) :=
  [[definitionAt 0 .file "a" "'1'", definitionAt 1 .global "g" "'x'",
      definitionAt 2 .file "a" "'2'"],
    [definitionAt 0 .global "g" "'y'", definitionAt 1 .file "a" "'$(g)'"]]

theorem ofFiles_definesFirst_redefined :
    (∃ site, DefinesFirst redefined .file 0 "a" site ⟨"a", 0, 4, none⟩)
      ∧ (∃ site, DefinesFirst redefined .global 1 "g" site ⟨"g", 1, 4, none⟩)
      ∧ (∃ site, DefinesFirst redefined .file 1 "a" site ⟨"a", 1, 4, none⟩)
      ∧ Redefines redefined ⟨0, 2⟩ ⟨"a", 2, 4, none⟩
      ∧ Redefines redefined ⟨1, 0⟩ ⟨"g", 0, 4, none⟩
      ∧ ((ofFiles redefined).diagnostics.filter isRedefinition).map Diagnostic.cause
        = [.build (.variableRedefined "a"), .build (.variableRedefined "g")]
      ∧ ∀ view root,
        ((ofFiles redefined).value.environment view root 1).lookup "a" = some "x" := by
  obtain ⟨-, hscopes, -, -, hlookup⟩ := ofFiles_definesFirst redefined
  have hvalue : ((lookup? (collect redefined).value 1 "a").bind fun i =>
      (resolveAll (collect redefined).value).value.lookup i) = some "x" := by
    decide +kernel
  refine ⟨((hscopes .file 0).2 _ _).mp (by decide +kernel),
    ((hscopes .global 1).2 _ _).mp (by decide +kernel),
    ((hscopes .file 1).2 _ _).mp (by decide +kernel), ?_, ?_, by decide +kernel,
    fun view root => (hlookup view root 1 "a").2.2.trans hvalue⟩
  · exact ⟨.file, ⟨⟨_, _, _, rfl⟩, rfl, .inr rfl⟩, ⟨0, 0⟩, _, by decide,
      ⟨_, _, _, rfl⟩, rfl, .inr rfl⟩
  · exact ⟨.global, ⟨⟨_, _, _, rfl⟩, rfl, .inl rfl⟩, ⟨0, 1⟩, _, by decide,
      ⟨_, _, _, rfl⟩, rfl, .inl rfl⟩

end Resolution

end Reskin
