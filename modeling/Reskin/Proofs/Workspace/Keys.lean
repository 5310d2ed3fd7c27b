import Reskin.Proofs.Workspace.Conversion

/-!
# Keys of a listing

A model is put on the identifiers in front of it, and the texture of a whole listing on all of its
identifiers. The rules of scope ask for a model or a texture in every listing with identifiers, but
not for a model behind them, so that identifiers at the end of a listing can be lost.

* **`KeyOf`**: the names that a listing has a rule for.
* **`exists_listed_listingRules_iff`**: these are the keys of its rules.
* **`rules_blocks_sourceOf`**: the rules in the blocks of a file are those of its listings and
  assignments, one after the other.
* **`build_listing_keys`**: both, for every listing of a workspace that is built.
* **`trailing_identifier_lost`**: a source file with an identifier that is a key of no rule.
-/

namespace Reskin

/-- The keys of a rule for several items. -/
def Rule.listed : Rule → List Token
  | mapAll _ keys _ _ | model keys _ _ => keys
  | _ => []

def ForScope.body : ForScope → List Statement
  | missing => []
  | present _ body => body

namespace Statement

/-- The statements in the `for` scope of a block. -/
def uses : Statement → List Statement
  | matchBlock _ _ scope | anyBlock _ scope => scope.body
  | _ => []

/-- Whether a rule for several items comes from `body`, the rest of a listing. -/
def takesKeys (mapAll : Option MapAll) (body : List Statement) : Bool :=
  mapAll.isSome || body.any isModel

/-- The names that are listed in front of a model, or anywhere in a listing with a texture. -/
inductive KeyOf (mapAll : Option MapAll) (name : String) : List Statement → Prop where
  | here {first : Token} {rest : List Token} {body : List Statement}
      (hname : name ∈ (first :: rest).map Token.text) (hrule : takesKeys mapAll body) :
      KeyOf mapAll name (.identifiers first rest :: body)
  | there {statement : Statement} {body : List Statement} (hbody : KeyOf mapAll name body) :
      KeyOf mapAll name (statement :: body)

variable {mapAll : Option MapAll} {name : String} {body : List Statement}

theorem takesKeys_cons (statement : Statement) :
    takesKeys mapAll (statement :: body) = (statement.isModel || takesKeys mapAll body) := by
  rw [takesKeys, takesKeys, List.any_cons, Bool.or_left_comm]

theorem keyOf_identifiers_iff {first : Token} {rest : List Token} :
    KeyOf mapAll name (.identifiers first rest :: body)
      ↔ (name ∈ (first :: rest).map Token.text ∧ takesKeys mapAll body)
        ∨ KeyOf mapAll name body := by
  constructor
  · rintro (⟨hname, hrule⟩ | hbody)
    · exact .inl ⟨hname, hrule⟩
    · exact .inr hbody
  · rintro (⟨hname, hrule⟩ | hbody)
    · exact .here hname hrule
    · exact .there hbody

theorem keyOf_cons_iff {statement : Statement} (h : statement.isIdentifiers = false) :
    KeyOf mapAll name (statement :: body) ↔ KeyOf mapAll name body := by
  constructor
  · rintro (_ | hbody)
    · cases h
    · exact hbody
  · exact .there

end Statement

open Statement (KeyOf)

/-! ## Listings -/

/-- The texts of keys that are added to known ones are all there, although a key whose text is known
is left out. -/
theorem Token.mem_map_text_addNew {known tokens : List Token} {name : String} :
    name ∈ (addNew known tokens).map Token.text
      ↔ name ∈ known.map Token.text ∨ name ∈ tokens.map Token.text := by
  induction tokens generalizing known with
  | nil => simp [addNew]
  | cons token tokens ih =>
    show name ∈ (addNew (if known.any token.sameText then known else known ++ [token]) tokens).map
      Token.text ↔ _
    rw [ih, List.map_cons, List.mem_cons]
    split
    · next hknown =>
      -- The text of the token is there already.
      obtain ⟨other, hother, hsame⟩ := List.any_eq_true.mp hknown
      have htext : token.text ∈ known.map Token.text :=
        List.mem_map.mpr ⟨other, hother, (beq_iff_eq.mp hsame).symm⟩
      constructor
      · tauto
      · rintro (hname | rfl | hname)
        · exact .inl hname
        · exact .inl htext
        · exact .inr hname
    · rw [List.map_append, List.mem_append, List.map_singleton, List.mem_singleton, or_assoc]

namespace Environment

variable {env : Environment} {kind : RuleKind} {mapAll : Option MapAll} {name : String}

/-- The rules of a listing with the keys `keys` in front of it. A rule keeps the keys in front of
it, so a key of the listing needs a rule behind it. Induction on the listing, for any keys. -/
theorem exists_listed_listingRules_iff {keys : List Token} {body : List Statement} :
    (∃ rule ∈ (env.listingRules kind mapAll keys body).value, name ∈ rule.listed.map Token.text)
      ↔ (name ∈ keys.map Token.text ∧ Statement.takesKeys mapAll body)
        ∨ KeyOf mapAll name body := by
  induction body generalizing keys with
  | nil =>
    have hkey : ¬KeyOf mapAll name [] := nofun
    cases mapAll with
    | none => simp [listingRules, hkey, Statement.takesKeys]
    | some m => simp [listingRules, hkey, Statement.takesKeys, Rule.listed]
  | cons statement body ih =>
    rw [Statement.takesKeys_cons]
    cases statement with
    | identifiers first rest =>
      rw [listingRules, ih, Token.mem_map_text_addNew, Statement.keyOf_identifiers_iff,
        or_and_right, or_assoc]
      rfl
    | predicate a =>
      have hrules : (env.listingRules kind mapAll keys (.predicate a :: body)).value
          = .entry ⟨a.key, (env.resolveTexture a.value).value, kind⟩
            :: (env.listingRules kind mapAll keys body).value := rfl
      rw [hrules, List.exists_mem_cons_iff, ih, Statement.keyOf_cons_iff rfl]
      exact or_iff_right nofun
    | model a =>
      have hrules : (env.listingRules kind mapAll keys (.model a :: body)).value
          = .model keys (env.resolveModel a.value).value a.value
            :: (env.listingRules kind mapAll keys body).value := rfl
      rw [hrules, List.exists_mem_cons_iff, ih, Statement.keyOf_cons_iff rfl]
      -- The model takes all keys in front of it, whatever stands behind it.
      simp only [Statement.isModel, Bool.true_or, and_true, Rule.listed]
      tauto
    | _ =>
      rw [Statement.keyOf_cons_iff rfl]
      exact ih

/-- The names that are keys of the rules of a listing. -/
theorem exists_listed_useRules_iff {target : Target} {keyword : Token} {body : List Statement} :
    (∃ rule ∈ (env.useRules (.listing target keyword body mapAll)).value,
        name ∈ rule.listed.map Token.text)
      ↔ KeyOf mapAll name body := by
  rw [useRules, exists_listed_listingRules_iff]
  exact or_iff_right nofun

/-! ## Files -/

theorem value_scopeRules (scope : ForScope) :
    (env.scopeRules scope).value = scope.body.flatMap fun use => (env.useRules use).value := by
  cases scope with
  | missing => rfl
  | present keyword body => exact Reported.value_gather body env.useRules

/-- The rules of the block that a statement becomes are those of the statements in its `for`
scope. -/
theorem rules_blocks_fileRules (statement : Statement) :
    ((env.fileRules statement).value.filterMap Block.ofRule?).flatMap Block.rules
      = statement.uses.flatMap fun use => (env.useRules use).value := by
  cases statement with
  | matchBlock keyword body scope =>
    show (env.scopeRules scope).value ++ [] = _
    rw [List.append_nil, value_scopeRules]
    rfl
  | anyBlock keyword scope =>
    show (env.scopeRules scope).value ++ [] = _
    rw [List.append_nil, value_scopeRules]
    rfl
  | _ => rfl

end Environment

namespace Workspace

theorem rules_blocks_sourceOf (files : Files) (root : Path) (globals locals : Variables)
    (file : CheckedFile) :
    (sourceOf files root globals file locals).blocks.flatMap Block.rules
      = (file.statements.flatMap Statement.uses).flatMap fun use =>
          ((Environment.mk files root locals globals).useRules use).value := by
  show ((Reported.gather file.statements _).value.filterMap Block.ofRule?).flatMap Block.rules = _
  rw [Reported.value_gather, List.flatMap_assoc]
  induction file.statements with
  | nil => rfl
  | cons statement statements ih =>
    rw [List.map_cons, List.flatten_cons, List.filterMap_append, List.flatMap_append, ih,
      Environment.rules_blocks_fileRules, List.flatMap_cons]

/-- What the statements of a source can refer to. -/
def environment (files : Files) (workspace : Workspace) (source : PackSource) : Environment :=
  ⟨files, workspace.root, source.locals, workspace.globals⟩

/-- A source with the rules of its statements, where every listing has the keys that are listed in
front of a model, or all of them if it has a texture. -/
structure ListsKeys (files : Files) (workspace : Workspace) (statements : List Statement)
    (source : PackSource) : Prop where
  rules_eq : source.blocks.flatMap Block.rules
    = (statements.flatMap Statement.uses).flatMap fun use =>
        ((workspace.environment files source).useRules use).value
  key_iff : ∀ target keyword body mapAll,
    .listing target keyword body mapAll ∈ statements.flatMap Statement.uses →
      ∀ name, (∃ rule ∈ ((workspace.environment files source).useRules
          (.listing target keyword body mapAll)).value, name ∈ rule.listed.map Token.text)
        ↔ KeyOf mapAll name body

/-- Which of the names in the listings of a workspace are keys of its rules. -/
theorem build_listing_keys (files : Files) (extension : String) (sources : Sources) (root : Path)
    {workspace : Workspace} (h : (build files extension sources root).2.value = some workspace) :
    ∀ source ∈ workspace.files, ∃ text statements,
      files.read source.path = some text ∧ CheckedFile.statements? text source.id = .ok statements
        ∧ ListsKeys files workspace statements source := by
  obtain ⟨checked, hread, rfl⟩ := exists_resolve_of_build h
  intro source hsource
  rw [files_resolve] at hsource
  obtain ⟨⟨file, locals⟩, hpair, rfl⟩ := List.mem_map.mp hsource
  obtain ⟨text, htext, hstatements⟩ := (hread file (List.of_mem_zip hpair).1).exists_text
  refine ⟨text, file.statements, htext, hstatements, rules_blocks_sourceOf .., ?_⟩
  intro target keyword body mapAll _ name
  exact Environment.exists_listed_useRules_iff

/-- A source file whose second listing has a model between its identifiers. -/
def modelBetween : MemoryFiles :=
  .ofList [(⟨"pack/m.json"⟩, ""), (⟨"pack/t.png"⟩, ""), (⟨"pack/a.rep"⟩,
    "any for \x7b items \x7b bow stick \x7d = 't' items \x7b bow model = 'm' trident \x7d \x7d")]

theorem build_listing_keys_modelBetween :
    ∃ workspace, (build modelBetween.view "rep" {} ⟨"pack"⟩).2.value = some workspace
      ∧ ∃ source ∈ workspace.files, ∃ text statements,
        modelBetween.read source.path = some text
          ∧ CheckedFile.statements? text source.id = .ok statements
          ∧ ListsKeys modelBetween.view workspace statements source := by
  have hbuilt : ∃ workspace ∈ (build modelBetween.view "rep" {} ⟨"pack"⟩).2.value,
      ∃ source ∈ workspace.files, source.path = ⟨"pack/a.rep"⟩ := by
    decide +kernel
  obtain ⟨workspace, hworkspace, source, hsource, -⟩ := hbuilt
  have hkeys := build_listing_keys modelBetween.view "rep" {} ⟨"pack"⟩ hworkspace source hsource
  exact ⟨workspace, hworkspace, source, hsource, hkeys⟩

/-! ## Lost identifiers -/

/-- The names in the listings of a file. -/
def listedNames (statements : List Statement) : List String :=
  (statements.flatMap Statement.uses).flatMap fun
    | .listing _ _ body _ => body.flatMap fun
      | .identifiers first rest => (first :: rest).map Token.text
      | _ => []
    | _ => []

/-- A source file with a model in front of an identifier. -/
def trailingIdentifier : String :=
  "any for \x7b items \x7b model = 'm' bow \x7d \x7d"

/-- A name can be listed in a file that is built and be the key of no rule. -/
theorem trailing_identifier_lost :
    ∃ workspace ∈ (build (MemoryFiles.ofList [(⟨"pack/m.json"⟩, ""),
        (⟨"pack/a.rep"⟩, trailingIdentifier)]).view "rep" {} ⟨"pack"⟩).2.value,
      (∃ statements ∈ (CheckedFile.statements? trailingIdentifier 0).toOption,
        "bow" ∈ listedNames statements)
        ∧ ∀ block ∈ workspace.blocks, ∀ rule ∈ block.rules, "bow" ∉ rule.listed.map Token.text := by
  decide +kernel

end Workspace

end Reskin
