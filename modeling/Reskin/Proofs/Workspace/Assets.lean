import Reskin.Proofs.Reader.Printing
import Reskin.Proofs.Token.Layout
import Reskin.Proofs.Workspace.Keys

/-!
# What a workspace refers to

A texture, a model or the source of a copy that cannot be found is reported as an error, and the
conversion goes on with a path that leads nowhere. No workspace is built then. So in a workspace
that is built every rule of a block puts a file on items that is there, and every key was written in
a source file.

* **`Rule.IsGrounded`** — a rule of a block with a target, a file that is there, and keys of which
  something is known.
* **`Environment.ensures_listingRules`**, **`Environment.ensures_fileRules`** — what the statements
  of a listing and of a file become, unless an error is reported.
* **`Workspace.isGrounded_of_build`** — what a workspace that is built refers to.
-/

namespace Reskin

open Reported (Ensures ensures_pure ensures_true ensures_reportIf)

/-- The path of the file that a rule puts on items. -/
def Asset.path : Asset → String
  | texture path | model path => path

/-- A rule of a block that puts a file on items which is there. Of its keys, `P` holds. -/
structure Rule.IsGrounded (files : Files) (root : Path) (P : String → Prop) (rule : Rule) :
    Prop where
  exists_target : ∃ target, rule.kind = .target target
  exists_asset : ∃ asset, rule.asset? = some asset
    ∧ files.isFile (root.join asset.path) = true
  keys : ∀ key ∈ rule.keys, P key.text

/-- A rule of a file: a block of such rules, with conditions on keys of which `P` holds, or copies
of what is there. -/
inductive Rule.IsSettled (files : Files) (root : Path) (P : String → Prop) : Rule → Prop where
  | block {conditions : List Entry} {rules : List Rule} {weight : Int} {token : Token}
      (hconditions : ∀ condition ∈ conditions, P condition.key.text)
      (hrules : ∀ rule ∈ rules, rule.IsGrounded files root P) :
      IsSettled files root P (.block conditions rules weight token)
  | copy {entries : List CopyEntry}
      (h : ∀ entry ∈ entries, files.present (root.join entry.source) = true) :
      IsSettled files root P (.copy entries)

/-- What each step ensures of its values, all steps together ensure of all values. -/
theorem Reported.ensures_gather {α β : Type} {xs : List α} {f : α → Reported (List β)}
    {Q : β → Prop} (h : ∀ x ∈ xs, (f x).Ensures fun values => ∀ value ∈ values, Q value) :
    (Reported.gather xs f).Ensures fun values => ∀ value ∈ values, Q value := by
  intro hnone value hvalue
  have hreports : hasErrors (Reported.gather xs f).diagnostics
      = xs.any fun x => hasErrors (f x).diagnostics := by
    show ((xs.map f).flatMap Reported.diagnostics).any Diagnostic.isError = _
    rw [List.flatMap_map, List.any_flatMap]
    rfl
  rw [Reported.value_gather, ← List.flatMap_def] at hvalue
  obtain ⟨x, hx, hvalue⟩ := List.mem_flatMap.mp hvalue
  -- No element has reported an error, so the one that gave the value has not.
  have hsilent : hasErrors (f x).diagnostics = false := by
    rw [hreports, List.any_eq_false] at hnone
    exact Bool.eq_false_iff.mpr (hnone x hx)
  exact h x hx hsilent value hvalue

theorem Statement.texts_cons (statement : Statement) (rest : List Statement) :
    Statement.texts (statement :: rest) = Statement.texts [statement] ++ Statement.texts rest :=
  Statement.texts_append [statement] rest

namespace Environment

variable {env : Environment} {P : String → Prop}

/-! ## Files -/

/-- A texture or model that is not found is an error, so without one the path names a file that is
there. -/
theorem ensures_resolveAsset (env : Environment) (kind : AssetKind) (extension : String)
    (token : Token) :
    (env.resolveAsset kind extension token).Ensures fun path =>
      env.files.isFile (env.root.join path) = true := by
  unfold resolveAsset
  refine (ensures_true _).bind fun path _ => ?_
  cases hfound : env.findAsset? path extension with
  | some found =>
    have hfile := List.find?_some hfound
    rw [Bool.and_eq_true] at hfile
    exact ensures_pure hfile.2
  | none =>
    -- The report is an error, whatever asset it is about.
    intro hnone
    cases hnone

theorem ensures_copyEntry (env : Environment) (pair : CopyPair) :
    (env.copyEntry pair).Ensures fun entry =>
      env.files.present (env.root.join entry.source) = true := by
  unfold copyEntry
  refine (ensures_true _).bind fun source _ => ?_
  refine (ensures_reportIf rfl).bind fun _ hsource => ?_
  refine (ensures_true _).bind fun destination _ => ?_
  rw [Bool.or_eq_false_iff, Bool.not_eq_false'] at hsource
  exact ensures_pure hsource.2

/-! ## Listings -/

/-- Without an error the rules of a listing put files on items which are there, and their keys are
taken from the listing. Induction on its statements, with the keys in front. -/
theorem ensures_listingRules {target : Target} {mapAll : Option MapAll} {keys : List Token}
    {body : List Statement} (hkeys : ∀ key ∈ keys, P key.text)
    (hbody : ∀ text ∈ Statement.texts body, P text) :
    (env.listingRules (.target target) mapAll keys body).Ensures fun rules =>
      ∀ rule ∈ rules, rule.IsGrounded env.files env.root P := by
  induction body generalizing keys with
  | nil =>
    cases mapAll with
    | none => exact ensures_pure (List.forall_mem_nil _)
    | some mapAll =>
      refine (env.ensures_resolveAsset .texture "png" mapAll.value).bind fun texture hfile => ?_
      refine ensures_pure (List.forall_mem_singleton.mpr ?_)
      exact ⟨⟨target, rfl⟩, ⟨.texture texture, rfl, hfile⟩, hkeys⟩
  | cons statement body ih =>
    rw [Statement.texts_cons, List.forall_mem_append] at hbody
    cases statement with
    | identifiers first rest =>
      -- The identifiers are keys of all rules behind them.
      refine ih ?_ hbody.2
      intro key hkey
      have htext := Token.mem_map_text_addNew.mp (List.mem_map_of_mem hkey)
      rcases htext with hknown | hnew
      · obtain ⟨known, hmem, hsame⟩ := List.mem_map.mp hknown
        exact hsame ▸ hkeys known hmem
      · rw [Statement.texts_identifiers] at hbody
        exact hbody.1 key.text hnew
    | predicate a =>
      have hkey : P a.key.text := by
        refine hbody.1 _ ?_
        show a.key.text ∈ Statement.texts [AssignmentKind.predicate.statement a]
        simp [Assignment.texts]
      refine (env.ensures_resolveAsset .texture "png" a.value).bind fun texture hfile => ?_
      refine (ih hkeys hbody.2).bind fun rules hrules => ?_
      refine ensures_pure (List.forall_mem_cons.mpr ⟨?_, hrules⟩)
      exact ⟨⟨target, rfl⟩, ⟨.texture texture, rfl, hfile⟩, List.forall_mem_singleton.mpr hkey⟩
    | model a =>
      refine (env.ensures_resolveAsset .model "json" a.value).bind fun model hfile => ?_
      refine (ih hkeys hbody.2).bind fun rules hrules => ?_
      refine ensures_pure (List.forall_mem_cons.mpr ⟨?_, hrules⟩)
      exact ⟨⟨.items, rfl⟩, ⟨.model model, rfl, hfile⟩, hkeys⟩
    | _ => exact ih hkeys hbody.2

theorem ensures_useRules {statement : Statement}
    (h : ∀ text ∈ Statement.texts [statement], P text) :
    (env.useRules statement).Ensures fun rules =>
      ∀ rule ∈ rules, rule.IsGrounded env.files env.root P := by
  cases statement with
  | setAll target a =>
    refine (env.ensures_resolveAsset .texture "png" a.value).bind fun texture hfile => ?_
    refine ensures_pure (List.forall_mem_singleton.mpr ?_)
    exact ⟨⟨target, rfl⟩, ⟨.texture texture, rfl, hfile⟩, List.forall_mem_nil _⟩
  | listing target keyword body mapAll =>
    refine ensures_listingRules (List.forall_mem_nil _) fun text htext => ?_
    refine h text ?_
    simp [htext]
  | _ => exact ensures_pure (List.forall_mem_nil _)

/-! ## Blocks and files -/

theorem mem_texts_of_mem {statement : Statement} {body : List Statement} {text : String}
    (hstatement : statement ∈ body) (htext : text ∈ Statement.texts [statement]) :
    text ∈ Statement.texts body := by
  rw [Statement.texts, List.flatMap_singleton] at htext
  exact List.mem_flatMap.mpr ⟨statement, hstatement, htext⟩

theorem ensures_scopeRules {uses : ForScope} (h : ∀ text ∈ uses.texts, P text) :
    (env.scopeRules uses).Ensures fun rules =>
      ∀ rule ∈ rules, rule.IsGrounded env.files env.root P := by
  cases uses with
  | missing => exact ensures_pure (List.forall_mem_nil _)
  | present keyword body =>
    refine Reported.ensures_gather fun statement hstatement => ensures_useRules ?_
    intro text htext
    refine h text ?_
    simp [ForScope.texts, mem_texts_of_mem hstatement htext]

theorem key_of_mem_blockParts {statement : Statement} {condition : Entry}
    (h : ∀ text ∈ Statement.texts [statement], P text)
    (hcondition : condition ∈ (env.blockParts statement).value.filterMap BlockPart.condition?) :
    P condition.key.text := by
  cases statement with
  | predicate a =>
    cases List.mem_singleton.mp hcondition
    refine h _ ?_
    show a.key.text ∈ Statement.texts [AssignmentKind.predicate.statement a]
    simp [Assignment.texts]
  | weight a =>
    rw [blockParts, Reported.value_bind] at hcondition
    split at hcondition <;> cases hcondition
  | _ => cases hcondition

/-- The conditions of a block are taken from its body, its rules from its `for` scope. Nothing else
of the statement gets into them. -/
theorem ensures_block {keyword : Token} {body : List Statement} {uses : ForScope}
    (hbody : ∀ text ∈ Statement.texts body, P text) (huses : ∀ text ∈ uses.texts, P text) :
    (env.block keyword body uses).Ensures fun block =>
      block.toRule.IsSettled env.files env.root P := by
  unfold block
  have hconditions : ∀ condition ∈ (Reported.gather body env.blockParts).value.filterMap
      BlockPart.condition?, P condition.key.text := by
    intro condition hcondition
    rw [Reported.value_gather, List.filterMap_flatten, List.map_map,
      ← List.flatMap_def] at hcondition
    obtain ⟨statement, hstatement, hcondition⟩ := List.mem_flatMap.mp hcondition
    refine key_of_mem_blockParts (fun text htext => ?_) hcondition
    exact hbody text (mem_texts_of_mem hstatement htext)
  intro hnone
  rw [Reported.diagnostics_bind, Reported.hasErrors_append, Bool.or_eq_false_iff,
    Reported.diagnostics_bind, Reported.hasErrors_append, Bool.or_eq_false_iff] at hnone
  exact .block hconditions (ensures_scopeRules huses hnone.2.1)

/-- Without an error a statement of a file becomes rules that are settled. Only blocks and copies
become any. -/
theorem ensures_fileRules {statement : Statement}
    (h : ∀ text ∈ Statement.texts [statement], P text) :
    (env.fileRules statement).Ensures fun rules =>
      ∀ rule ∈ rules, rule.IsSettled env.files env.root P := by
  cases statement with
  | matchBlock keyword body uses =>
    have hblock : (env.block keyword body uses).Ensures fun block =>
        block.toRule.IsSettled env.files env.root P := by
      apply ensures_block
      · intro text htext
        exact h text (by simp [htext])
      · intro text htext
        exact h text (by simp [htext])
    exact hblock.bind fun block hblock => ensures_pure (List.forall_mem_singleton.mpr hblock)
  | anyBlock keyword uses =>
    have hblock : (env.block keyword [] uses).Ensures fun block =>
        block.toRule.IsSettled env.files env.root P := by
      apply ensures_block
      · exact List.forall_mem_nil _
      · intro text htext
        exact h text (by simp [htext])
    exact hblock.bind fun block hblock => ensures_pure (List.forall_mem_singleton.mpr hblock)
  | copy keyword pairs =>
    have hentries : (Reported.gather pairs fun pair => do
        let entry ← env.copyEntry pair
        return [entry]).Ensures fun entries =>
          ∀ entry ∈ entries, env.files.present (env.root.join entry.source) = true := by
      refine Reported.ensures_gather fun pair _ => ?_
      refine (env.ensures_copyEntry pair).bind fun entry hentry => ?_
      exact ensures_pure (List.forall_mem_singleton.mpr hentry)
    refine hentries.bind fun entries hentries => ?_
    exact ensures_pure (List.forall_mem_singleton.mpr (.copy hentries))
  | _ => exact ensures_pure (List.forall_mem_nil _)

end Environment

/-! ## Texts of a source file -/

theorem withoutTrailingCommas_subset (tokens : List Token) :
    withoutTrailingCommas tokens ⊆ tokens := by
  fun_induction withoutTrailingCommas tokens with
  | case1 => exact List.Subset.refl _
  | case2 token => exact List.Subset.refl _
  | case3 token next rest _ ih => exact List.Subset.trans ih (List.subset_cons_self token _)
  | case4 token next rest _ ih => exact List.cons_subset_cons token ih

/-- What stands in the statements of a file are lexemes of its text. The statements are printed as
the tokens of the file, and each token is a lexeme. -/
theorem CheckedFile.IsRead.isLexeme_of_mem_texts {files : Files} {path : Path} {file : CheckedFile}
    (h : CheckedFile.IsRead files path file) {text : String}
    (htext : text ∈ Statement.texts file.statements) : IsLexeme text.toList := by
  obtain ⟨source, -, hstatements⟩ := h.exists_text
  have hread : Statement.readSource source (some file.id) = .ok file.statements := by
    unfold CheckedFile.statements? at hstatements
    split at hstatements
    · cases hstatements
    · next statements hread =>
      split at hstatements
      · cases hstatements
        exact hread
      · cases hstatements
  unfold Statement.readSource at hread
  split at hread
  · next tokens hscan =>
    rw [Statement.texts_of_read hread] at htext
    obtain ⟨token, htoken, rfl⟩ := List.mem_map.mp htext
    exact isLexeme_of_mem_scan hscan (withoutTrailingCommas_subset tokens htoken)
  · cases hread

/-! ## Workspaces -/

namespace Workspace

/-- A workspace that refers only to what is there. All keys are lexemes. -/
structure IsGrounded (files : Files) (workspace : Workspace) : Prop where
  rule : ∀ block ∈ workspace.blocks, ∀ rule ∈ block.rules,
    rule.IsGrounded files workspace.root fun key => IsLexeme key.toList
  condition : ∀ block ∈ workspace.blocks, ∀ condition ∈ block.conditions,
    IsLexeme condition.key.text.toList
  copy : ∀ entry ∈ workspace.copies, files.present (workspace.root.join entry.source) = true

theorem isGrounded_of_isSettled {files : Files} {workspace : Workspace}
    (h : ∀ source ∈ workspace.files, ∀ rule ∈ source.rules,
      rule.IsSettled files workspace.root fun key => IsLexeme key.toList) :
    workspace.IsGrounded files := by
  have hblock : ∀ block ∈ workspace.blocks,
      block.toRule.IsSettled files workspace.root fun key => IsLexeme key.toList := by
    intro block hblock
    obtain ⟨source, hsource, hblock⟩ := List.mem_flatMap.mp hblock
    obtain ⟨rule, hrule, hsome⟩ := List.mem_filterMap.mp hblock
    cases rule with
    | block conditions rules weight token =>
      cases hsome
      exact h source hsource _ hrule
    | _ => cases hsome
  refine ⟨fun block hmem => ?_, fun block hmem => ?_, fun entry hentry => ?_⟩
  · cases hblock block hmem with
    | block hconditions hrules => exact hrules
  · cases hblock block hmem with
    | block hconditions hrules => exact hconditions
  · obtain ⟨source, hsource, hentry⟩ := List.mem_flatMap.mp hentry
    obtain ⟨rule, hrule, hentry⟩ := List.mem_flatMap.mp hentry
    cases rule with
    | copy entries =>
      cases h source hsource _ hrule with
      | copy hentries => exact hentries entry hentry
    | _ => cases hentry

/-- Without an error a workspace refers only to what is there. All its sources come from statements
of files that were read. -/
theorem ensures_resolve (files : Files) (root : Path) {checked : List CheckedFile}
    (h : ∀ file ∈ checked, CheckedFile.IsRead files file.path file) :
    (resolve files root checked).Ensures fun workspace =>
      workspace.root = root ∧ workspace.IsGrounded files := by
  unfold resolve
  refine (ensures_true _).bind fun resolution _ => ?_
  have hsources : (Reported.gather (checked.zip resolution.locals) fun pair => do
      let env : Environment := ⟨files, root, pair.2, resolution.globals⟩
      let rules ← Reported.gather pair.1.statements env.fileRules
      return [PackSource.mk pair.1.path pair.1.id root pair.2 rules]).Ensures fun sources =>
        ∀ source ∈ sources, ∀ rule ∈ source.rules,
          rule.IsSettled files root fun key => IsLexeme key.toList := by
    refine Reported.ensures_gather fun pair hpair => ?_
    have hfile := h pair.1 (List.of_mem_zip hpair).1
    have hrules : (Reported.gather pair.1.statements
        (Environment.mk files root pair.2 resolution.globals).fileRules).Ensures fun rules =>
          ∀ rule ∈ rules, rule.IsSettled files root fun key => IsLexeme key.toList := by
      refine Reported.ensures_gather fun statement hstatement => ?_
      refine Environment.ensures_fileRules fun text htext => ?_
      exact hfile.isLexeme_of_mem_texts (Environment.mem_texts_of_mem hstatement htext)
    exact hrules.bind fun rules hrules => ensures_pure (List.forall_mem_singleton.mpr hrules)
  refine hsources.bind fun sources hsources => ensures_pure ⟨rfl, ?_⟩
  exact isGrounded_of_isSettled hsources

/-- **A workspace that is built refers only to what is there**, since there is none after an
error. -/
theorem isGrounded_of_build {files : Files} {extension : String} {sources : Sources} {root : Path}
    {workspace : Workspace} (h : (build files extension sources root).2.value = some workspace) :
    workspace.root = root ∧ workspace.IsGrounded files := by
  obtain ⟨checked, hread, hnone, rfl⟩ := exists_errorFree_resolve_of_build h
  exact ensures_resolve files root hread hnone

end Workspace

end Reskin
