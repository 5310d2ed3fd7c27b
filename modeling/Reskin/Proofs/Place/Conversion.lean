import Reskin.Proofs.Place.Resolution
import Reskin.Workspace.Build

/-!
# Rules do not depend on places

The conversion of statements to rules looks at the texts of tokens, at variables, and at which files
there are. It never reads a file: `Files.shape` is a view of files without their texts, and all that
an environment needs.

* **`Environment.resolveAsset_unplaced`** — the file that a literal names.
* **`Environment.fileRules_unplaced`** — the rules of a statement, from those of its parts.
* **`Workspace.resolve_unplaced`** — all rules of a workspace. A workspace is compared without the
  paths of its files, which nothing that follows looks at.
-/

namespace Reskin

/-- A view of files without their texts. -/
def Files.shape (files : Files) : Files :=
  { files with read := fun _ => none, sources := fun _ _ => .ok [] }

/-! ## Rules -/

def Entry.unplaced (entry : Entry) : Entry :=
  { entry with key := entry.key.unplaced }

def CopyEntry.unplaced (entry : CopyEntry) : CopyEntry :=
  { entry with token := entry.token.unplaced }

mutual

/-- A rule without the places of its tokens. -/
def Rule.unplaced : Rule → Rule
  | .entry named => .entry named.unplaced
  | .setAll kind texture token => .setAll kind texture token.unplaced
  | .mapAll kind keys texture token => .mapAll kind (keys.map Token.unplaced) texture token.unplaced
  | .model keys path token => .model (keys.map Token.unplaced) path token.unplaced
  | .block conditions rules weight token =>
    .block (conditions.map Entry.unplaced) (Rule.unplacedAll rules) weight token.unplaced
  | .copy entries => .copy (entries.map CopyEntry.unplaced)

def Rule.unplacedAll : List Rule → List Rule
  | [] => []
  | rule :: rest => rule.unplaced :: Rule.unplacedAll rest

end

@[simp] theorem Rule.unplacedAll_eq_map (rules : List Rule) :
    Rule.unplacedAll rules = rules.map Rule.unplaced := by
  induction rules with
  | nil => rfl
  | cons rule rest ih => rw [Rule.unplacedAll, ih, List.map_cons]

def Block.unplaced (block : Block) : Block :=
  ⟨block.conditions.map Entry.unplaced, block.rules.map Rule.unplaced, block.weight,
    block.token.unplaced⟩

theorem Block.toRule_unplaced (block : Block) : block.unplaced.toRule = block.toRule.unplaced := by
  simp [toRule, Rule.unplaced, unplaced]

/-- Tokens are new by their texts, so places do not decide which ones are added. -/
theorem Token.addNew_unplaced (known tokens : List Token) :
    Token.addNew (known.map Token.unplaced) (tokens.map Token.unplaced)
      = (Token.addNew known tokens).map Token.unplaced := by
  unfold Token.addNew
  rw [List.foldl_map]
  induction tokens generalizing known with
  | nil => rfl
  | cons token rest ih =>
    have hany : (known.map Token.unplaced).any token.unplaced.sameText
        = known.any token.sameText := by
      rw [List.any_map]
      rfl
    rw [List.foldl_cons, List.foldl_cons, hany, ← ih]
    split
    · rfl
    · rw [List.map_append, List.map_singleton]

/-- Steps that do not depend on places, one after the other, do not either. -/
theorem Reported.unplaced_gather {α β γ δ : Type} (g : α → β) (h : γ → δ)
    {f : α → Reported (List γ)} {f' : β → Reported (List δ)}
    (hf : ∀ x, (f x).unplaced (List.map h) = f' (g x)) (xs : List α) :
    (Reported.gather xs f).unplaced (List.map h) = Reported.gather (xs.map g) f' := by
  unfold Reported.gather Reported.unplaced
  simp only [List.map_map, List.flatMap_map, List.map_flatMap, Function.comp_apply, ← hf]
  rfl

theorem Reported.unplaced_reportIf (condition : Bool) (diagnostic : Diagnostic) :
    (Reported.reportIf condition diagnostic).unplaced id
      = Reported.reportIf condition diagnostic.unplaced := by
  cases condition <;> rfl

/-! ## Environments -/

theorem Variables.get?_unplaced (scope : Variables) (name : String) :
    scope.unplaced.get? name = (scope.get? name).map Variable.unplaced := by
  unfold get? unplaced
  rw [List.find?_map]
  rfl

namespace Environment

/-- An environment without the places of its variables and without the texts of its files. -/
def unplaced (env : Environment) : Environment :=
  ⟨env.files.shape, env.root, env.locals.unplaced, env.globals.unplaced⟩

/-- Names are looked up by their texts, and give the same values. -/
theorem lookup_unplaced (env : Environment) : env.unplaced.lookup = env.lookup := by
  funext name
  unfold lookup
  show Option.map _ (env.locals.unplaced.get? name <|> env.globals.unplaced.get? name) = _
  rw [Variables.get?_unplaced, Variables.get?_unplaced]
  cases env.locals.get? name with
  | some entry => rfl
  | none => cases env.globals.get? name <;> rfl

theorem resolve_unplaced (env : Environment) (token : Token) :
    (env.resolve token).unplaced id = env.unplaced.resolve token.unplaced := by
  unfold resolve
  rw [lookup_unplaced, Reported.unplaced, List.map_map]
  rfl

theorem missing_unplaced (env : Environment) (kind : AssetKind) (path : String) (token : Token) :
    (env.missing kind path token).unplaced = env.unplaced.missing kind path token.unplaced := rfl

theorem findAsset?_unplaced (env : Environment) : env.unplaced.findAsset? = env.findAsset? := rfl

/-- Whether an asset is found depends on the files that are present, not on what is in them. So the
shape of the files is enough. -/
theorem resolveAsset_unplaced (env : Environment) (kind : AssetKind) (extension : String)
    (token : Token) :
    (env.resolveAsset kind extension token).unplaced id
      = env.unplaced.resolveAsset kind extension token.unplaced := by
  unfold resolveAsset
  rw [← resolve_unplaced]
  refine Reported.unplaced_bind id ?_
  rw [id_eq, findAsset?_unplaced]
  cases env.findAsset? (env.resolve token).value extension <;> rfl

theorem copyEntry_unplaced (env : Environment) (pair : CopyPair) :
    (env.copyEntry pair).unplaced CopyEntry.unplaced = env.unplaced.copyEntry pair.unplaced := by
  unfold copyEntry
  rw [CopyPair.unplaced, ← resolve_unplaced, ← resolve_unplaced]
  refine Reported.unplaced_bind id ?_
  rw [id_eq, ← missing_unplaced, ← Reported.unplaced_reportIf]
  exact Reported.unplaced_bind id (Reported.unplaced_bind id rfl)

/-- The rules of a listing do not depend on places. Induction on the statements, with the keys that
were gathered so far on both sides. -/
theorem listingRules_unplaced (env : Environment) (kind : RuleKind) (mapAll : Option MapAll)
    (keys : List Token) (body : List Statement) :
    (env.listingRules kind mapAll keys body).unplaced (List.map Rule.unplaced)
      = env.unplaced.listingRules kind (mapAll.map MapAll.unplaced) (keys.map Token.unplaced)
        (body.map Statement.unplaced) := by
  induction body generalizing keys with
  | nil =>
    cases mapAll with
    | none => rfl
    | some mapAll =>
      rw [List.map_nil, listingRules, Option.map_some, listingRules]
      show _ = env.unplaced.resolveAsset .texture "png" mapAll.value.unplaced >>= _
      rw [← resolveAsset_unplaced]
      exact Reported.unplaced_bind id rfl
  | cons statement rest ih =>
    cases statement with
    | identifiers first others =>
      rw [List.map_cons, Statement.unplaced, listingRules, listingRules, ih, ← List.map_cons,
        Token.addNew_unplaced]
    | predicate assignment =>
      rw [List.map_cons, Statement.unplaced, listingRules, listingRules, ← ih]
      show _ = env.unplaced.resolveAsset .texture "png" assignment.value.unplaced >>= _
      rw [← resolveAsset_unplaced]
      exact Reported.unplaced_bind id (Reported.unplaced_bind (List.map Rule.unplaced) rfl)
    | model assignment =>
      rw [List.map_cons, Statement.unplaced, listingRules, listingRules, ← ih]
      show _ = env.unplaced.resolveAsset .model "json" assignment.value.unplaced >>= _
      rw [← resolveAsset_unplaced]
      exact Reported.unplaced_bind id (Reported.unplaced_bind (List.map Rule.unplaced) rfl)
    | _ => exact ih keys

theorem useRules_unplaced (env : Environment) (statement : Statement) :
    (env.useRules statement).unplaced (List.map Rule.unplaced)
      = env.unplaced.useRules statement.unplaced := by
  cases statement with
  | setAll target assignment =>
    show _ = env.unplaced.resolveAsset .texture "png" assignment.value.unplaced >>= _
    rw [← resolveAsset_unplaced]
    exact Reported.unplaced_bind id rfl
  | listing target keyword body mapAll =>
    rw [Statement.unplaced, Statement.unplacedAll_eq_map]
    exact env.listingRules_unplaced (.target target) mapAll [] body
  | _ => rfl

def BlockPart.unplaced : BlockPart → BlockPart
  | condition entry => .condition entry.unplaced
  | weight n => .weight n

theorem filterMap_weight?_unplaced (parts : List BlockPart) :
    (parts.map BlockPart.unplaced).filterMap BlockPart.weight?
      = parts.filterMap BlockPart.weight? := by
  rw [List.filterMap_map]
  congr 1
  funext part
  cases part <;> rfl

theorem filterMap_condition?_unplaced (parts : List BlockPart) :
    (parts.map BlockPart.unplaced).filterMap BlockPart.condition?
      = (parts.filterMap BlockPart.condition?).map Entry.unplaced := by
  rw [List.filterMap_map, List.map_filterMap]
  congr 1
  funext part
  cases part <;> rfl

/-- Nor does what a statement contributes to its block. Whether a weight parses is decided by its
text. -/
theorem blockParts_unplaced (env : Environment) (statement : Statement) :
    (env.blockParts statement).unplaced (List.map BlockPart.unplaced)
      = env.unplaced.blockParts statement.unplaced := by
  cases statement with
  | predicate assignment =>
    show _ = env.unplaced.resolve assignment.value.unplaced >>= _
    rw [← resolve_unplaced]
    exact Reported.unplaced_bind id rfl
  | weight assignment =>
    show _ = env.unplaced.resolve assignment.value.unplaced >>= _
    rw [← resolve_unplaced]
    refine Reported.unplaced_bind id ?_
    rw [id_eq]
    cases Text.int32? (env.resolve assignment.value).value.toList <;> rfl
  | _ => rfl

theorem scopeRules_unplaced (env : Environment) (uses : ForScope) :
    (env.scopeRules uses).unplaced (List.map Rule.unplaced)
      = env.unplaced.scopeRules uses.unplaced := by
  cases uses with
  | missing => rfl
  | present keyword body =>
    rw [ForScope.unplaced, Statement.unplacedAll_eq_map]
    exact Reported.unplaced_gather _ _ env.useRules_unplaced body

/-- Nor does a block, which is made of its parts and of the rules of its scope. -/
theorem block_unplaced (env : Environment) (keyword : Token) (body : List Statement)
    (uses : ForScope) :
    (env.block keyword body uses).unplaced Block.unplaced
      = env.unplaced.block keyword.unplaced (body.map Statement.unplaced) uses.unplaced := by
  unfold block
  rw [← Reported.unplaced_gather _ _ env.blockParts_unplaced, ← scopeRules_unplaced]
  refine Reported.unplaced_bind (List.map BlockPart.unplaced) ?_
  refine Reported.unplaced_bind (List.map Rule.unplaced) ?_
  rw [filterMap_weight?_unplaced, filterMap_condition?_unplaced]
  rfl

/-- The rules of a statement do not depend on places, and neither does what is reported about it but
for the places themselves. -/
theorem fileRules_unplaced (env : Environment) (statement : Statement) :
    (env.fileRules statement).unplaced (List.map Rule.unplaced)
      = env.unplaced.fileRules statement.unplaced := by
  cases statement with
  | matchBlock keyword body uses =>
    rw [Statement.unplaced, Statement.unplacedAll_eq_map, fileRules, fileRules, ← block_unplaced]
    refine Reported.unplaced_bind Block.unplaced ?_
    rw [Block.toRule_unplaced]
    rfl
  | anyBlock keyword uses =>
    rw [Statement.unplaced, fileRules, fileRules, ← List.map_nil, ← block_unplaced]
    refine Reported.unplaced_bind Block.unplaced ?_
    rw [Block.toRule_unplaced]
    rfl
  | copy keyword pairs =>
    have hpair : ∀ pair, (do let entry ← env.copyEntry pair; return [entry] :
        Reported (List CopyEntry)).unplaced (List.map CopyEntry.unplaced)
          = do let entry ← env.unplaced.copyEntry pair.unplaced; return [entry] := by
      intro pair
      rw [← copyEntry_unplaced]
      exact Reported.unplaced_bind CopyEntry.unplaced rfl
    rw [Statement.unplaced, fileRules, fileRules, ← Reported.unplaced_gather _ _ hpair]
    exact Reported.unplaced_bind (List.map CopyEntry.unplaced) rfl
  | _ => rfl

end Environment

/-! ## Workspaces -/

/-- A checked file without its path and the places of its tokens. -/
def CheckedFile.unplaced (file : CheckedFile) : CheckedFile :=
  ⟨⟨""⟩, file.id, file.statements.map Statement.unplaced⟩

def PackSource.unplaced (source : PackSource) : PackSource :=
  ⟨⟨""⟩, source.id, source.root, source.locals.unplaced, source.rules.map Rule.unplaced⟩

def Workspace.unplaced (workspace : Workspace) : Workspace :=
  ⟨workspace.root, workspace.globals.unplaced, workspace.files.map PackSource.unplaced⟩

namespace Workspace

/-- The source that a file becomes with its variables. -/
def convert (files : Files) (root : Path) (globals : Variables) (file : CheckedFile × Variables) :
    Reported (List PackSource) := do
  let env : Environment := ⟨files, root, file.2, globals⟩
  let rules ← Reported.gather file.1.statements env.fileRules
  return [⟨file.1.path, file.1.id, root, file.2, rules⟩]

/-- The source that a file becomes does not depend on places, given its variables without theirs. -/
theorem convert_unplaced (files : Files) (root : Path) (globals : Variables)
    (file : CheckedFile × Variables) :
    (convert files root globals file).unplaced (List.map PackSource.unplaced)
      = convert files.shape root globals.unplaced
        (file.map CheckedFile.unplaced Variables.unplaced) := by
  unfold convert
  have hrules := Reported.unplaced_gather _ _
    (Environment.fileRules_unplaced ⟨files, root, file.2, globals⟩) file.1.statements
  show _ = Reported.gather (file.1.statements.map Statement.unplaced)
    (Environment.unplaced ⟨files, root, file.2, globals⟩).fileRules >>= _
  rw [← hrules]
  exact Reported.unplaced_bind (List.map Rule.unplaced) rfl

/-- The rules of a workspace do not depend on places. The variables are settled by
`Resolution.ofFiles_unplaced`, and the files follow one by one. -/
theorem resolve_unplaced (files : Files) (root : Path) (checked : List CheckedFile) :
    (resolve files root checked).unplaced unplaced
      = resolve files.shape root (checked.map CheckedFile.unplaced) := by
  have hstatements : (checked.map CheckedFile.unplaced).map CheckedFile.statements
      = (checked.map CheckedFile.statements).map (List.map Statement.unplaced) := by
    rw [List.map_map, List.map_map]
    rfl
  unfold resolve
  rw [hstatements, ← Resolution.ofFiles_unplaced]
  refine Reported.unplaced_bind Resolution.unplaced ?_
  generalize (Resolution.ofFiles (checked.map CheckedFile.statements)).value = resolution
  have hconvert := Reported.unplaced_gather _ _ (convert_unplaced files root resolution.globals)
    (checked.zip resolution.locals)
  rw [← List.zip_map] at hconvert
  show _ = Reported.gather ((checked.map CheckedFile.unplaced).zip
    (resolution.locals.map Variables.unplaced))
      (convert files.shape root resolution.globals.unplaced) >>= _
  rw [← hconvert]
  exact Reported.unplaced_bind (List.map PackSource.unplaced) rfl

end Workspace

end Reskin
