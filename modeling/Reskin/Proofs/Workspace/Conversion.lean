import Reskin.Files.Memory
import Reskin.Proofs.List
import Reskin.Proofs.Statement.Placement
import Reskin.Proofs.Variable.Arrangement
import Reskin.Proofs.Workspace.Loading

/-!
# Every statement becomes its rules

The conversion of statements to rules passes over what it does not know. In a file that breaks no
rule there is nothing of the kind: a statement of each scope has its own case below, and a scope is
converted statement by statement, in order.

* **`ListingRule`**, **`MapAllRule`**, **`UseRule`**, **`ConditionOf`**, **`FileRule`**: what a
  statement becomes in its scope. There is no case for a statement that is dropped; only definitions
  become no rule, since they are variables, and identifiers, since they are keys of other rules.
* **`exists_parts_gather`**: the parts of a scope, from those of its statements.
* **`fileRule_fileRules`**: a statement of a file becomes its rules.
* **`resolve_fileRules`**: the rules of a workspace are those of the statements of its files.
-/

namespace Reskin

open Statement (InListing InMatch InFor InFile)

/-! ## Parts of a scope -/

namespace Reported

theorem value_gather {α β : Type} (xs : List α) (f : α → Reported (List β)) :
    (Reported.gather xs f).value = (xs.map fun x => (f x).value).flatten := by
  show (xs.map f).flatMap Reported.value = _
  rw [List.flatMap, List.map_map]
  rfl

/-- A step that gives one value for each element. -/
theorem value_gather_of_singleton {α β : Type} {xs : List α} {f : α → Reported (List β)} {g : α → β}
    (h : ∀ x, (f x).value = [g x]) : (Reported.gather xs f).value = xs.map g := by
  simp only [value_gather, h]
  exact List.map_eq_flatMap.symm

/-- A scope is put together from what its statements become: each has its own part, and the parts
are put one behind the other. -/
theorem exists_parts_gather {α β : Type} {R : α → List β → Prop} {xs : List α}
    {f : α → Reported (List β)} (h : ∀ x ∈ xs, R x (f x).value) :
    ∃ parts, List.Forall₂ R xs parts ∧ (Reported.gather xs f).value = parts.flatten :=
  ⟨xs.map fun x => (f x).value, List.forall₂_map_right_iff.mpr (List.forall₂_same.mpr h),
    value_gather xs f⟩

end Reported

namespace Environment

/-! ## What statements become -/

/-- What a statement of a listing becomes. The keys of a model are of no concern here. -/
inductive ListingRule (env : Environment) (target : Target) : Statement → List Rule → Prop where
  | identifiers (first : Token) (rest : List Token) :
      ListingRule env target (.identifiers first rest) []
  | entry (a : Assignment) :
      ListingRule env target (.predicate a)
        [.entry ⟨a.key, (env.resolveTexture a.value).value, .target target⟩]
  | model (a : Assignment) (keys : List Token) :
      ListingRule env target (.model a) [.model keys (env.resolveModel a.value).value a.value]

/-- What the assignment to a whole listing becomes. -/
inductive MapAllRule (env : Environment) (target : Target) : Option MapAll → List Rule → Prop where
  | none : MapAllRule env target none []
  | some (m : MapAll) (keys : List Token) :
      MapAllRule env target (some m)
        [.mapAll (.target target) keys (env.resolveTexture m.value).value m.value]

/-- What a statement of a `for` scope becomes. -/
inductive UseRule (env : Environment) : Statement → List Rule → Prop where
  | setAll (target : Target) (a : Assignment) :
      UseRule env (.setAll target a)
        [.setAll (.target target) (env.resolveTexture a.value).value a.value]
  | listing (target : Target) (keyword : Token) {body : List Statement} {mapAll : Option MapAll}
      {parts : List (List Rule)} {last : List Rule}
      (hparts : List.Forall₂ (ListingRule env target) body parts)
      (hlast : MapAllRule env target mapAll last) :
      UseRule env (.listing target keyword body mapAll) (parts.flatten ++ last)

/-- The conditions that a statement of a `match` scope becomes. -/
inductive ConditionOf (env : Environment) : Statement → List Entry → Prop where
  | predicate (a : Assignment) :
      ConditionOf env (.predicate a) [⟨a.key, (env.resolve a.value).value, .condition⟩]
  | weight (a : Assignment) : ConditionOf env (.weight a) []

/-- The weight that a statement gives, if its text is an integer. -/
def weight? (env : Environment) : Statement → Option Int
  | .weight a => Text.int32? (env.resolve a.value).value.toList
  | _ => none

/-- The last weight that the statements of a scope give, or zero. -/
def lastWeight (env : Environment) (body : List Statement) : Int :=
  (body.filterMap env.weight?).getLast?.getD 0

/-- What a statement of a file becomes. -/
inductive FileRule (env : Environment) : Statement → List Rule → Prop where
  | definition (scope : DefinitionScope) (keyword : Token) (a : Assignment) :
      FileRule env (.definition scope keyword a) []
  | matchBlock (keyword forKeyword : Token) {body uses : List Statement}
      {conditions : List (List Entry)} {parts : List (List Rule)}
      (hconditions : List.Forall₂ (ConditionOf env) body conditions)
      (hparts : List.Forall₂ (UseRule env) uses parts) :
      FileRule env (.matchBlock keyword body (.present forKeyword uses))
        [.block conditions.flatten parts.flatten (env.lastWeight body) keyword]
  | anyBlock (keyword forKeyword : Token) {uses : List Statement} {parts : List (List Rule)}
      (hparts : List.Forall₂ (UseRule env) uses parts) :
      FileRule env (.anyBlock keyword (.present forKeyword uses))
        [.block [] parts.flatten 0 keyword]
  | copy (keyword : Token) (pairs : List CopyPair) :
      FileRule env (.copy keyword pairs)
        [.copy (pairs.map fun pair =>
          ⟨(env.resolve pair.source).value, (env.resolve pair.destination).value, pair.source⟩)]

variable {env : Environment}

/-! ## Listings -/

/-- The rules of a listing are those of its statements, and at the end that of the assignment to all
of it. Induction on the statements; the keys are handed on, and this lemma does not say which they
are. -/
theorem exists_parts_listingRules {target : Target} {mapAll : Option MapAll}
    {body : List Statement} (h : ∀ statement ∈ body, InListing statement) (keys : List Token) :
    ∃ parts last, List.Forall₂ (ListingRule env target) body parts
      ∧ MapAllRule env target mapAll last
      ∧ (env.listingRules (.target target) mapAll keys body).value = parts.flatten ++ last := by
  induction body generalizing keys with
  | nil =>
    cases mapAll with
    | none => exact ⟨[], [], .nil, .none, rfl⟩
    | some m => exact ⟨[], _, .nil, .some m keys, rfl⟩
  | cons statement body ih =>
    obtain ⟨hstatement, hbody⟩ := List.forall_mem_cons.mp h
    cases hstatement with
    | identifiers first rest =>
      obtain ⟨parts, last, hparts, hlast, hvalue⟩ := ih hbody (Token.addNew keys (first :: rest))
      exact ⟨[] :: parts, last, .cons (.identifiers first rest) hparts, hlast, hvalue⟩
    | predicate a =>
      obtain ⟨parts, last, hparts, hlast, hvalue⟩ := ih hbody keys
      exact ⟨_ :: parts, last, .cons (.entry a) hparts, hlast, congrArg (List.cons _) hvalue⟩
    | model a =>
      obtain ⟨parts, last, hparts, hlast, hvalue⟩ := ih hbody keys
      exact ⟨_ :: parts, last, .cons (.model a keys) hparts, hlast, congrArg (List.cons _) hvalue⟩

/-- What a statement of a `for` scope becomes is what the specification says, with all rules of a
listing in order. -/
theorem useRule_useRules {statement : Statement} (h : InFor statement) :
    UseRule env statement (env.useRules statement).value := by
  cases h with
  | setAll target a => exact .setAll target a
  | @listing target keyword body mapAll hbody =>
    obtain ⟨parts, last, hparts, hlast, hvalue⟩ := exists_parts_listingRules hbody []
    have huse : (env.useRules (.listing target keyword body mapAll)).value
        = parts.flatten ++ last := hvalue
    rw [huse]
    exact .listing target keyword hparts hlast

/-! ## Blocks -/

theorem conditionOf_blockParts {statement : Statement} (h : InMatch statement) :
    ConditionOf env statement
      ((env.blockParts statement).value.filterMap BlockPart.condition?) := by
  cases h with
  | predicate a => exact .predicate a
  | weight a =>
    have hnone : (env.blockParts (.weight a)).value.filterMap BlockPart.condition? = [] := by
      rw [blockParts, Reported.value_bind]
      split <;> rfl
    rw [hnone]
    exact .weight a

theorem weight?_blockParts (statement : Statement) :
    (env.blockParts statement).value.filterMap BlockPart.weight?
      = (env.weight? statement).toList := by
  cases statement with
  | weight a =>
    rw [blockParts, weight?, Reported.value_bind]
    cases Text.int32? (env.resolve a.value).value.toList <;> rfl
  | _ => rfl

/-- The weight of a block is the last one that its body gives, as parts of the body that are no
weights are passed over. -/
theorem lastWeight_eq (body : List Statement) :
    ((Reported.gather body env.blockParts).value.filterMap BlockPart.weight?).getLast?.getD 0
      = env.lastWeight body := by
  have hweights : (Reported.gather body env.blockParts).value.filterMap BlockPart.weight?
      = body.filterMap env.weight? := by
    rw [Reported.value_gather]
    induction body with
    | nil => rfl
    | cons statement body ih =>
      rw [List.map_cons, List.flatten_cons, List.filterMap_append, ih, weight?_blockParts,
        List.filterMap_cons]
      cases env.weight? statement <;> rfl
  rw [hweights, lastWeight]

theorem exists_parts_scopeRules (env : Environment) (keyword : Token) {uses : List Statement}
    (h : ∀ statement ∈ uses, InFor statement) :
    ∃ parts, List.Forall₂ (UseRule env) uses parts
      ∧ (env.scopeRules (.present keyword uses)).value = parts.flatten :=
  Reported.exists_parts_gather fun statement hmem => useRule_useRules (h statement hmem)

theorem exists_parts_conditions (env : Environment) {body : List Statement}
    (h : ∀ statement ∈ body, InMatch statement) :
    ∃ conditions, List.Forall₂ (ConditionOf env) body conditions
      ∧ (Reported.gather body env.blockParts).value.filterMap BlockPart.condition?
        = conditions.flatten := by
  have hconditions : ∀ statement ∈ body, ConditionOf env statement
      ((env.blockParts statement).value.filterMap BlockPart.condition?) := fun statement hmem =>
    conditionOf_blockParts (h statement hmem)
  refine ⟨_, List.forall₂_map_right_iff.mpr (List.forall₂_same.mpr hconditions), ?_⟩
  rw [Reported.value_gather, List.filterMap_flatten, List.map_map]
  rfl

theorem value_block (keyword : Token) (body : List Statement) (uses : ForScope) :
    (env.block keyword body uses).value
      = ⟨(Reported.gather body env.blockParts).value.filterMap BlockPart.condition?,
        (env.scopeRules uses).value, env.lastWeight body, keyword⟩ := by
  rw [← lastWeight_eq]
  rfl

/-! ## Files -/

/-- **What a statement of a file becomes is what the specification says.** The cases are the shapes
that a statement without violations can have. -/
theorem fileRule_fileRules {statement : Statement} (h : InFile statement) :
    FileRule env statement (env.fileRules statement).value := by
  cases h with
  | definition scope keyword a => exact .definition scope keyword a
  | @matchBlock keyword forKeyword body uses hbody huses =>
    obtain ⟨conditions, hconditions, hentries⟩ := exists_parts_conditions env hbody
    obtain ⟨parts, hparts, hrules⟩ := exists_parts_scopeRules env forKeyword huses
    have hvalue : (env.fileRules (.matchBlock keyword body (.present forKeyword uses))).value
        = [.block conditions.flatten parts.flatten (env.lastWeight body) keyword] := by
      rw [fileRules, Reported.value_bind, value_block, hentries, hrules]
      rfl
    rw [hvalue]
    exact .matchBlock keyword forKeyword hconditions hparts
  | @anyBlock keyword forKeyword uses huses =>
    obtain ⟨parts, hparts, hrules⟩ := exists_parts_scopeRules env forKeyword huses
    have hvalue : (env.fileRules (.anyBlock keyword (.present forKeyword uses))).value
        = [.block [] parts.flatten 0 keyword] := by
      rw [fileRules, Reported.value_bind, value_block, hrules]
      rfl
    rw [hvalue]
    exact .anyBlock keyword forKeyword hparts
  | copy keyword pairs =>
    have hvalue : (env.fileRules (.copy keyword pairs)).value = [.copy (pairs.map fun pair =>
        ⟨(env.resolve pair.source).value, (env.resolve pair.destination).value, pair.source⟩)] := by
      rw [fileRules, Reported.value_bind, Reported.value_gather_of_singleton fun _ => rfl]
      rfl
    rw [hvalue]
    exact .copy keyword pairs

end Environment

/-! ## Workspaces -/

namespace Workspace

/-- The source that a file becomes. -/
def sourceOf (files : Files) (root : Path) (globals : Variables) (file : CheckedFile)
    (locals : Variables) : PackSource :=
  ⟨file.path, file.id, root, locals,
    (Reported.gather file.statements (Environment.mk files root locals globals).fileRules).value⟩

theorem files_resolve (files : Files) (root : Path) (checked : List CheckedFile) :
    (resolve files root checked).value.files
      = (checked.zip (Resolution.ofFiles (checked.map CheckedFile.statements)).value.locals).map
        fun (file, locals) =>
          sourceOf files root (resolve files root checked).value.globals file locals :=
  Reported.value_gather_of_singleton fun _ => rfl

/-- A source whose rules are what the statements of the file at `path` become, in order. -/
structure IsSourceAt (files : Files) (root : Path) (globals : Variables) (path : Path)
    (source : PackSource) : Prop where
  path_eq : source.path = path
  exists_parts : ∃ text statements parts,
    files.read path = some text ∧ CheckedFile.statements? text source.id = .ok statements
      ∧ List.Forall₂ (Environment.FileRule ⟨files, root, source.locals, globals⟩) statements parts
      ∧ source.rules = parts.flatten

/-- A file that was read becomes a source with what its statements become, as a file that is read
has no violations. -/
theorem isSourceAt_sourceOf {files : Files} {root path : Path} {globals locals : Variables}
    {file : CheckedFile} (h : CheckedFile.IsRead files path file) :
    IsSourceAt files root globals path (sourceOf files root globals file locals) := by
  obtain ⟨text, hread, hstatements⟩ := h.exists_text
  have hplaces := Statement.inFile_of_check h.check
  obtain ⟨parts, hparts, hrules⟩ := Reported.exists_parts_gather fun statement hmem =>
    Environment.fileRule_fileRules (hplaces statement hmem)
  exact ⟨h.path_eq, text, file.statements, parts, hread, hstatements, hparts, hrules⟩

/-- If the files at `paths` are read without a report, each of them becomes one source, whose rules
are what its statements become, in order. Nothing is left out, also if names or assets are reported
as missing. -/
theorem resolve_fileRules (files : Files) (root : Path) {sources : Sources} {paths : List Path}
    {checked : List CheckedFile} (h : (CheckedFile.loadAll files sources paths).2 = ⟨checked, []⟩) :
    List.Forall₂ (IsSourceAt files root (resolve files root checked).value.globals)
      paths (resolve files root checked).value.files := by
  have hread : List.Forall₂ (CheckedFile.IsRead files) paths checked := by
    have hloaded := CheckedFile.forall₂_loadAll (congrArg Reported.diagnostics h)
    rwa [h] at hloaded
  have hlength : checked.length
      = (Resolution.ofFiles (checked.map CheckedFile.statements)).value.locals.length := by
    rw [Resolution.length_locals, List.length_map]
  rw [files_resolve]
  refine forall₂_map_zip hread hlength fun path file hfile locals => ?_
  exact isSourceAt_sourceOf hfile

/-- A source file with a statement of every kind. Of its weights the last one is not an integer, and
none of its textures is there. -/
def everyStatement : MemoryFiles :=
  .ofList [(⟨"pack/a.rep"⟩,
    "let t='a' match\x7bn='$(t)' #weight='3' #weight='5' #weight='x'\x7d
    for\x7bitems='a' items\x7bbow b\x7d='b'\x7d
    any for\x7barmor\x7bc='c' d model='m'\x7d\x7d copy\x7b'x'=>'$(t)y'\x7d")]

/-- What a block says, without the places of its tokens. -/
structure Outline where
  conditions : List (String × String)
  rules : List (RuleKind × List String × Option Asset)
  weight : Int
deriving DecidableEq

def outline (block : Block) : Outline where
  conditions := block.conditions.map fun condition => (condition.key.text, condition.value)
  rules := block.rules.map fun rule => (rule.kind, rule.keys.map Token.text, rule.asset?)
  weight := block.weight

theorem resolve_fileRules_everyStatement :
    ∃ checked, (CheckedFile.loadAll everyStatement.view {} [⟨"pack/a.rep"⟩]).2 = ⟨checked, []⟩
      ∧ List.Forall₂ (IsSourceAt everyStatement.view ⟨"pack"⟩
          (resolve everyStatement.view ⟨"pack"⟩ checked).value.globals)
        [⟨"pack/a.rep"⟩] (resolve everyStatement.view ⟨"pack"⟩ checked).value.files
      ∧ (resolve everyStatement.view ⟨"pack"⟩ checked).value.blocks.map outline
        = [⟨[("n", "a")], [(.target .items, [], some (.texture "a.png")),
              (.target .items, ["bow", "b"], some (.texture "b.png"))], 5⟩,
          ⟨[], [(.target .armor, ["c"], some (.texture "c.png")),
              (.target .items, ["d"], some (.model "m.json"))], 0⟩]
      ∧ (resolve everyStatement.view ⟨"pack"⟩ checked).value.copies.map
          (fun entry => (entry.source, entry.destination)) = [("x", "ay")] := by
  have hdiagnostics :
      (CheckedFile.loadAll everyStatement.view {} [⟨"pack/a.rep"⟩]).2.diagnostics = [] := by
    decide +kernel
  have hloaded : (CheckedFile.loadAll everyStatement.view {} [⟨"pack/a.rep"⟩]).2
      = ⟨(CheckedFile.loadAll everyStatement.view {} [⟨"pack/a.rep"⟩]).2.value, []⟩ :=
    congrArg (Reported.mk _) hdiagnostics
  exact ⟨_, hloaded, resolve_fileRules everyStatement.view ⟨"pack"⟩ hloaded, by decide +kernel,
    by decide +kernel⟩

end Workspace

end Reskin
