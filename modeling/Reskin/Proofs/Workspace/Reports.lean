import Reskin.Proofs.Reader.Tokens
import Reskin.Proofs.Variable.Resolution
import Reskin.Proofs.Workspace.Keys

/-!
# Reports about the statements of a workspace

Once the files of a workspace are read, what is reported about them comes from their statements:
from the definitions, from the conversion to rules, and from the keys of the rules when the pack is
made. None of these steps has a place of its own, so a report is always at a token of a statement,
and the statement belongs to one of the files.

* **`Reported.IsAt`** — a step that reports faults of statements, at some tokens only, with a lemma
  for each way to put steps together.
* **`Environment.isAt_fileRules`** — the conversion of a statement reports at its tokens;
  **`Environment.keys_useRules`** — the keys of its rules are such tokens.
* **`IsBuildReport`** — what is reported about the statements of a file, and
  **`IsBuildReport.exists_token`** where.
* **`Workspace.exists_file_of_mem_resolve`**, **`Workspace.exists_file_of_mem_keys`** — every report
  belongs to one of the files; **`Workspace.exists_fault_of_mem_resolve`** — a workspace is put
  together with faults of statements only.
-/

namespace Reskin

/-- Whether a fault is one of a statement, and not of the files as such. -/
def BuildFault.isOfStatement : BuildFault → Bool
  | unresolvedVariable _ | variableRedefined _ | missingAsset _ _ _ | invalidWeight _ => true
  | unreadableFile _ _ | invalidInputDirectory _ _ => false

namespace Reported

variable {α β : Type} {tokens : List Token} {token : Token}

/-! ## Steps that report at tokens -/

/-- A step that reports faults of statements, at some tokens only. -/
def IsAt (tokens : List Token) (result : Reported α) : Prop :=
  ∀ diagnostic ∈ result.diagnostics, ∃ token ∈ tokens, ∃ fault : BuildFault,
    fault.isOfStatement = true ∧ diagnostic = .located (.build fault) token.location

theorem isAt_pure (value : α) : (pure value : Reported α).IsAt tokens :=
  List.forall_mem_nil _

theorem isAt_report {fault : BuildFault} (hfault : fault.isOfStatement = true)
    (h : token ∈ tokens) : (report (.located (.build fault) token.location)).IsAt tokens :=
  List.forall_mem_singleton.mpr ⟨token, h, fault, hfault, rfl⟩

theorem isAt_reportIf (condition : Bool) {fault : BuildFault} (hfault : fault.isOfStatement = true)
    (h : token ∈ tokens) :
    (reportIf condition (.located (.build fault) token.location)).IsAt tokens := by
  cases condition with
  | false => exact List.forall_mem_nil _
  | true => exact isAt_report hfault h

/-- Steps can be chained: what they report together is what each of them reports. -/
theorem IsAt.bind {x : Reported α} {next : α → Reported β} (hx : x.IsAt tokens)
    (hnext : ∀ value, (next value).IsAt tokens) : (x >>= next).IsAt tokens := by
  intro diagnostic h
  rw [diagnostics_bind, List.mem_append] at h
  rcases h with hfirst | hsecond
  · exact hx diagnostic hfirst
  · exact hnext x.value diagnostic hsecond

theorem mem_diagnostics_gather {xs : List α} {f : α → Reported (List β)} {diagnostic : Diagnostic} :
    diagnostic ∈ (gather xs f).diagnostics ↔ ∃ x ∈ xs, diagnostic ∈ (f x).diagnostics := by
  show diagnostic ∈ (xs.map f).flatMap Reported.diagnostics ↔ _
  rw [List.flatMap_map, List.mem_flatMap]

/-- If each step reports at some tokens only, all steps together do. -/
theorem isAt_gather {xs : List α} {f : α → Reported (List β)} (h : ∀ x ∈ xs, (f x).IsAt tokens) :
    (gather xs f).IsAt tokens := by
  intro diagnostic hreport
  obtain ⟨x, hx, hreport⟩ := mem_diagnostics_gather.mp hreport
  exact h x hx diagnostic hreport

end Reported

/-! ## Tokens of a statement -/

theorem Token.addNew_subset {known added tokens : List Token} (hknown : known ⊆ tokens)
    (hadded : added ⊆ tokens) : addNew known added ⊆ tokens := by
  induction added generalizing known with
  | nil => exact hknown
  | cons token added ih =>
    obtain ⟨htoken, hadded⟩ := List.cons_subset.mp hadded
    show addNew (if known.any token.sameText then known else known ++ [token]) added ⊆ tokens
    apply ih
    · split
      · exact hknown
      · exact List.append_subset.mpr ⟨hknown, List.cons_subset.mpr ⟨htoken, List.nil_subset _⟩⟩
    · exact hadded

theorem ForScope.tokensAll_body (uses : ForScope) :
    Statement.tokensAll uses.body ⊆ uses.tokens := by
  cases uses with
  | missing => exact List.nil_subset _
  | present keyword body => exact List.subset_cons_self keyword _

/-- The statements of a `for` scope are part of their block. -/
theorem Statement.tokens_uses {statement use : Statement} (h : use ∈ statement.uses) :
    use.tokens ⊆ statement.tokens := by
  have hscope : ∀ scope : ForScope, use ∈ scope.body → use.tokens ⊆ scope.tokens := by
    intro scope huse
    exact List.Subset.trans (tokens_subset_of_mem huse) scope.tokensAll_body
  cases statement with
  | matchBlock keyword body scope =>
    have hbehind : scope.tokens ⊆ tokensAll body ++ scope.tokens := List.subset_append_right _ _
    exact List.Subset.trans (hscope scope h) (List.Subset.trans hbehind (List.subset_cons_self _ _))
  | anyBlock keyword scope =>
    exact List.Subset.trans (hscope scope h) (List.subset_cons_self keyword _)
  | _ => cases h

/-! ## The conversion of statements -/

namespace Environment

variable {env : Environment} {tokens : List Token} {token : Token}

theorem isAt_resolve (h : token ∈ tokens) : (env.resolve token).IsAt tokens := by
  intro diagnostic hreport
  obtain ⟨name, -, rfl⟩ := List.mem_map.mp hreport
  exact ⟨token, h, .unresolvedVariable name, rfl, rfl⟩

theorem isAt_resolveAsset (kind : AssetKind) (extension : String) (h : token ∈ tokens) :
    (env.resolveAsset kind extension token).IsAt tokens := by
  unfold resolveAsset
  apply (isAt_resolve h).bind
  intro path
  cases env.findAsset? path extension with
  | some found => exact Reported.isAt_pure found
  | none => exact (Reported.isAt_report rfl h).bind fun _ => Reported.isAt_pure _

theorem isAt_copyEntry {pair : CopyPair} (h : pair.tokens ⊆ tokens) :
    (env.copyEntry pair).IsAt tokens := by
  have hsource : pair.source ∈ tokens := h (by simp [CopyPair.tokens])
  have hdestination : pair.destination ∈ tokens := h (by simp [CopyPair.tokens])
  unfold copyEntry
  apply (isAt_resolve hsource).bind
  intro source
  apply (Reported.isAt_reportIf _ rfl hsource).bind
  intro _
  apply (isAt_resolve hdestination).bind
  intro destination
  exact Reported.isAt_pure _

theorem value_mem_of_tokens {assignment : Assignment} (h : assignment.tokens ⊆ tokens) :
    assignment.value ∈ tokens :=
  h (by simp [Assignment.tokens])

/-- The rules of a listing are reported at its own tokens: the keys in front of a statement are not
looked at before the pack is made. Induction on its statements. -/
theorem isAt_listingRules {kind : RuleKind} {mapAll : Option MapAll} {keys : List Token}
    {body : List Statement} (hbody : Statement.tokensAll body ⊆ tokens)
    (hmapAll : mapAll.toList.flatMap MapAll.tokens ⊆ tokens) :
    (env.listingRules kind mapAll keys body).IsAt tokens := by
  induction body generalizing keys with
  | nil =>
    cases mapAll with
    | none => exact Reported.isAt_pure []
    | some mapAll =>
      have hvalue : mapAll.value ∈ tokens := hmapAll (by simp [MapAll.tokens])
      exact (isAt_resolveAsset _ _ hvalue).bind fun _ => Reported.isAt_pure _
  | cons statement body ih =>
    rw [Statement.tokensAll, List.append_subset] at hbody
    have hrest : ∀ keys, (env.listingRules kind mapAll keys body).IsAt tokens := fun _ => ih hbody.2
    cases statement with
    | identifiers first rest => exact hrest _
    | predicate assignment =>
      have hvalue : assignment.value ∈ tokens := value_mem_of_tokens hbody.1
      apply (isAt_resolveAsset .texture "png" hvalue).bind
      intro texture
      exact (hrest keys).bind fun _ => Reported.isAt_pure _
    | model assignment =>
      have hvalue : assignment.value ∈ tokens := value_mem_of_tokens hbody.1
      apply (isAt_resolveAsset .model "json" hvalue).bind
      intro model
      exact (hrest keys).bind fun _ => Reported.isAt_pure _
    | _ => exact hrest keys

theorem isAt_useRules {statement : Statement} (h : statement.tokens ⊆ tokens) :
    (env.useRules statement).IsAt tokens := by
  cases statement with
  | setAll target assignment =>
    have hvalue : assignment.value ∈ tokens := value_mem_of_tokens h
    exact (isAt_resolveAsset _ _ hvalue).bind fun _ => Reported.isAt_pure _
  | listing target keyword body mapAll =>
    obtain ⟨-, hinside⟩ := List.cons_subset.mp h
    obtain ⟨hbody, hmapAll⟩ := List.append_subset.mp hinside
    exact isAt_listingRules hbody hmapAll
  | _ => exact Reported.isAt_pure []

theorem isAt_blockParts {statement : Statement} (h : statement.tokens ⊆ tokens) :
    (env.blockParts statement).IsAt tokens := by
  cases statement with
  | predicate assignment =>
    exact (isAt_resolve (value_mem_of_tokens h)).bind fun _ => Reported.isAt_pure _
  | weight assignment =>
    have hvalue : assignment.value ∈ tokens := value_mem_of_tokens h
    unfold blockParts
    apply (isAt_resolve hvalue).bind
    intro text
    cases Text.int32? text.toList with
    | some weight => exact Reported.isAt_pure _
    | none => exact (Reported.isAt_report rfl hvalue).bind fun _ => Reported.isAt_pure _
  | _ => exact Reported.isAt_pure []

theorem isAt_scopeRules {uses : ForScope} (h : uses.tokens ⊆ tokens) :
    (env.scopeRules uses).IsAt tokens := by
  cases uses with
  | missing => exact Reported.isAt_pure []
  | present keyword body =>
    obtain ⟨-, hbody⟩ := List.cons_subset.mp h
    apply Reported.isAt_gather
    intro statement hstatement
    exact isAt_useRules (List.Subset.trans (Statement.tokens_subset_of_mem hstatement) hbody)

theorem isAt_block {keyword : Token} {body : List Statement} {uses : ForScope}
    (hbody : Statement.tokensAll body ⊆ tokens) (huses : uses.tokens ⊆ tokens) :
    (env.block keyword body uses).IsAt tokens := by
  have hparts : (Reported.gather body env.blockParts).IsAt tokens := by
    apply Reported.isAt_gather
    intro statement hstatement
    exact isAt_blockParts (List.Subset.trans (Statement.tokens_subset_of_mem hstatement) hbody)
  unfold block
  apply hparts.bind
  intro parts
  exact (isAt_scopeRules huses).bind fun _ => Reported.isAt_pure _

/-- **The conversion of a statement reports at its tokens**, whatever the variables and files
are. -/
theorem isAt_fileRules (env : Environment) (statement : Statement) :
    (env.fileRules statement).IsAt statement.tokens := by
  cases statement with
  | matchBlock keyword body uses =>
    have hbody : Statement.tokensAll body ⊆ keyword :: (Statement.tokensAll body ++ uses.tokens) :=
      List.subset_cons_of_subset keyword (List.subset_append_left _ _)
    have huses : uses.tokens ⊆ keyword :: (Statement.tokensAll body ++ uses.tokens) :=
      List.subset_cons_of_subset keyword (List.subset_append_right _ _)
    exact (isAt_block hbody huses).bind fun _ => Reported.isAt_pure _
  | anyBlock keyword uses =>
    have huses : uses.tokens ⊆ keyword :: uses.tokens := List.subset_cons_self keyword _
    exact (isAt_block (List.nil_subset _) huses).bind fun _ => Reported.isAt_pure _
  | copy keyword pairs =>
    have hpair : ∀ pair ∈ pairs, pair.tokens ⊆ keyword :: pairs.flatMap CopyPair.tokens := by
      intro pair hpair token htoken
      exact List.mem_cons_of_mem keyword (List.mem_flatMap.mpr ⟨pair, hpair, htoken⟩)
    have hentries : (Reported.gather pairs fun pair => do
        let entry ← env.copyEntry pair
        return [entry]).IsAt (keyword :: pairs.flatMap CopyPair.tokens) := by
      apply Reported.isAt_gather
      intro pair hmem
      exact (isAt_copyEntry (hpair pair hmem)).bind fun _ => Reported.isAt_pure _
    exact hentries.bind fun _ => Reported.isAt_pure _
  | _ => exact Reported.isAt_pure []

/-! ### Keys of rules -/

/-- The keys of the rules of a listing are tokens of it, or were in front of it. Induction on its
statements. -/
theorem keys_listingRules {kind : RuleKind} {mapAll : Option MapAll} {keys : List Token}
    {body : List Statement} (hkeys : keys ⊆ tokens) (hbody : Statement.tokensAll body ⊆ tokens)
    {rule : Rule} (hrule : rule ∈ (env.listingRules kind mapAll keys body).value) :
    rule.keys ⊆ tokens := by
  induction body generalizing keys with
  | nil =>
    cases mapAll with
    | none => cases hrule
    | some mapAll =>
      cases List.mem_singleton.mp hrule
      exact hkeys
  | cons statement body ih =>
    rw [Statement.tokensAll, List.append_subset] at hbody
    cases statement with
    | identifiers first rest => exact ih (Token.addNew_subset hkeys hbody.1) hbody.2 hrule
    | predicate assignment =>
      rcases List.mem_cons.mp hrule with rfl | hrule
      · have hkey : assignment.key ∈ tokens := hbody.1 List.mem_cons_self
        exact List.cons_subset.mpr ⟨hkey, List.nil_subset _⟩
      · exact ih hkeys hbody.2 hrule
    | model assignment =>
      rcases List.mem_cons.mp hrule with rfl | hrule
      · exact hkeys
      · exact ih hkeys hbody.2 hrule
    | _ => exact ih hkeys hbody.2 hrule

/-- **The keys of a rule are tokens of its statement**, and so are those that no item matches. -/
theorem keys_useRules {statement : Statement} {rule : Rule}
    (hrule : rule ∈ (env.useRules statement).value) : rule.keys ⊆ statement.tokens := by
  cases statement with
  | setAll target assignment =>
    cases List.mem_singleton.mp hrule
    exact List.nil_subset _
  | listing target keyword body mapAll =>
    have hbody : Statement.tokensAll body
        ⊆ keyword :: (Statement.tokensAll body ++ mapAll.toList.flatMap MapAll.tokens) :=
      List.subset_cons_of_subset keyword (List.subset_append_left _ _)
    exact keys_listingRules (List.nil_subset _) hbody hrule
  | _ => cases hrule

end Environment

/-! ## Reports about a file that is read -/

/-- The reports about the statements of a file: a variable that is defined again, a name in a
definition without a value, what the conversion of a statement reports, and a key of a rule that
stands for no item. -/
inductive IsBuildReport (files : Files) (root : Path) (statements : List Statement)
    (diagnostic : Diagnostic) : Prop where
  | redefinition {scope : DefinitionScope} {keyword : Token} {assignment : Assignment}
      (hdefinition : .definition scope keyword assignment ∈ statements)
      (heq : diagnostic = .located (.build (.variableRedefined assignment.key.text))
        assignment.key.location)
  | reference {scope : DefinitionScope} {keyword : Token} {assignment : Assignment} {name : String}
      (hdefinition : .definition scope keyword assignment ∈ statements)
      (hname : name ∈ Interpolation.references assignment.value.value)
      (heq : diagnostic = .located (.build (.unresolvedVariable name)) assignment.value.location)
  | conversion {locals globals : Variables} {statement : Statement}
      (hstatement : statement ∈ statements)
      (hreport : diagnostic
        ∈ ((Environment.mk files root locals globals).fileRules statement).diagnostics)
  | generation {locals globals : Variables} {statement use : Statement} {rule : Rule} {key : Token}
      (hstatement : statement ∈ statements) (huse : use ∈ statement.uses)
      (hrule : rule ∈ ((Environment.mk files root locals globals).useRules use).value)
      (hkey : key ∈ rule.keys) (heq : diagnostic = .located (.noItemMatches key.text) key.location)

variable {files : Files} {root : Path} {statements : List Statement} {diagnostic : Diagnostic}

/-- A report about the statements of a file is at one of their tokens. Each kind of report names the
token that it is at, and that token belongs to a statement. -/
theorem IsBuildReport.exists_token (h : IsBuildReport files root statements diagnostic) :
    ∃ token ∈ Statement.tokensAll statements, ∃ cause,
      diagnostic = .located cause token.location := by
  cases h with
  | redefinition hdefinition heq =>
    exact ⟨_, Statement.tokens_subset_of_mem hdefinition
      (by simp [Statement.tokens, Assignment.tokens]), _, heq⟩
  | reference hdefinition _ heq =>
    exact ⟨_, Statement.tokens_subset_of_mem hdefinition
      (by simp [Statement.tokens, Assignment.tokens]), _, heq⟩
  | @conversion locals globals statement hstatement hreport =>
    obtain ⟨token, htoken, fault, -, hat⟩ :=
      (Environment.mk files root locals globals).isAt_fileRules statement diagnostic hreport
    exact ⟨token, Statement.tokens_subset_of_mem hstatement htoken, .build fault, hat⟩
  | @generation _ _ statement use rule key hstatement huse hrule hkey heq =>
    have htoken : key ∈ statement.tokens :=
      Statement.tokens_uses huse (Environment.keys_useRules hrule hkey)
    exact ⟨key, Statement.tokens_subset_of_mem hstatement htoken, _, heq⟩

namespace Workspace

variable {checked : List CheckedFile}

theorem exists_file_of_mem_written {definition : Definition}
    (h : definition ∈ Definition.written (checked.map CheckedFile.statements)) :
    ∃ file ∈ checked, ∃ scope keyword assignment,
      .definition scope keyword assignment ∈ file.statements
        ∧ assignment.key = definition.name ∧ assignment.value = definition.value := by
  obtain ⟨statements, scope, keyword, assignment, hget, hmem, hkey, hvalue⟩ :=
    Definition.exists_statement_of_mem_written h
  obtain ⟨file, hfile, rfl⟩ := List.mem_map.mp (List.mem_of_getElem? hget)
  exact ⟨file, hfile, scope, keyword, assignment, hmem, hkey, hvalue⟩

/-- What the resolution of variables reports belongs to the file of a definition: a repetition to
the file of the later one, a name without a value to the file of the definition that it stands
in. -/
theorem exists_file_of_mem_ofFiles (files : Files) (root : Path)
    (h : diagnostic ∈ (Resolution.ofFiles (checked.map CheckedFile.statements)).diagnostics) :
    ∃ file ∈ checked, IsBuildReport files root file.statements diagnostic := by
  rw [Resolution.diagnostics_ofFiles, List.mem_append] at h
  rcases h with hcollect | hresolve
  · obtain ⟨definition, hwritten, heq⟩ := Definition.exists_definition_of_mem_collect hcollect
    obtain ⟨file, hfile, scope, keyword, assignment, hmem, hkey, -⟩ :=
      exists_file_of_mem_written hwritten
    rw [← hkey] at heq
    exact ⟨file, hfile, .redefinition hmem heq⟩
  · obtain ⟨definition, hcollected, name, hname, heq⟩ :=
      Definition.exists_definition_of_mem_resolveAll hresolve
    have hwritten := (Definition.mem_collect_iff.mp hcollected).mem
    obtain ⟨file, hfile, scope, keyword, assignment, hmem, -, hvalue⟩ :=
      exists_file_of_mem_written hwritten
    rw [← hvalue] at hname heq
    exact ⟨file, hfile, .reference hmem hname heq⟩

/-- What is reported while a workspace is put together comes from the resolution of variables, or
from the conversion of a statement. -/
theorem cases_of_mem_resolve (h : diagnostic ∈ (resolve files root checked).diagnostics) :
    diagnostic ∈ (Resolution.ofFiles (checked.map CheckedFile.statements)).diagnostics
      ∨ ∃ file ∈ checked, ∃ statement ∈ file.statements, ∃ locals globals, diagnostic
        ∈ ((Environment.mk files root locals globals).fileRules statement).diagnostics := by
  unfold resolve at h
  rw [Reported.diagnostics_bind, List.mem_append] at h
  rcases h with hvariables | hrules
  · exact .inl hvariables
  · rw [Reported.diagnostics_bind, Reported.diagnostics_pure, List.append_nil,
      Reported.mem_diagnostics_gather] at hrules
    obtain ⟨pair, hpair, hreport⟩ := hrules
    rw [Reported.diagnostics_bind, Reported.diagnostics_pure, List.append_nil,
      Reported.mem_diagnostics_gather] at hreport
    obtain ⟨statement, hstatement, hreport⟩ := hreport
    exact .inr ⟨pair.1, (List.of_mem_zip hpair).1, statement, hstatement, _, _, hreport⟩

/-- **What is reported while a workspace is put together belongs to one of its files**, also where a
definition of another file is involved. -/
theorem exists_file_of_mem_resolve (h : diagnostic ∈ (resolve files root checked).diagnostics) :
    ∃ file ∈ checked, IsBuildReport files root file.statements diagnostic := by
  rcases cases_of_mem_resolve h with
    hvariables | ⟨file, hfile, statement, hstatement, locals, globals, hreport⟩
  · exact exists_file_of_mem_ofFiles files root hvariables
  · exact ⟨file, hfile, .conversion hstatement hreport⟩

/-- Only faults of statements are reported while a workspace is put together. -/
theorem exists_fault_of_mem_resolve (h : diagnostic ∈ (resolve files root checked).diagnostics) :
    ∃ fault : BuildFault, fault.isOfStatement = true ∧ diagnostic.cause = .build fault := by
  rcases cases_of_mem_resolve h with hvariables | ⟨_, -, statement, -, locals, globals, hreport⟩
  · unfold Resolution.ofFiles at hvariables
    simp only [Reported.diagnostics_bind, Reported.diagnostics_pure, List.append_nil,
      List.mem_append] at hvariables
    rcases hvariables with hcollect | hresolve
    · obtain ⟨name, hcause⟩ := Definition.cause_of_mem_collect hcollect
      exact ⟨.variableRedefined name, rfl, hcause⟩
    · obtain ⟨name, hcause⟩ := Definition.cause_of_mem_resolveAll hresolve
      exact ⟨.unresolvedVariable name, rfl, hcause⟩
  · obtain ⟨token, -, fault, hfault, rfl⟩ :=
      (Environment.mk files root locals globals).isAt_fileRules statement diagnostic hreport
    exact ⟨fault, hfault, rfl⟩

/-- **The keys of a workspace belong to its files**, and so do the reports about them. A key is
traced back from its block to the statement that its rule comes from. -/
theorem exists_file_of_mem_keys {block : Block} {key : Token}
    (hblock : block ∈ (resolve files root checked).value.blocks) (hkey : key ∈ block.keys) :
    ∃ file ∈ checked, IsBuildReport files root file.statements
      (.located (.noItemMatches key.text) key.location) := by
  obtain ⟨source, hsource, hblock⟩ := List.mem_flatMap.mp hblock
  rw [files_resolve] at hsource
  obtain ⟨pair, hpair, rfl⟩ := List.mem_map.mp hsource
  obtain ⟨rule, hrule, hkey⟩ := List.mem_flatMap.mp hkey
  -- The rules in the blocks of a file are those of its listings and assignments.
  have hrules := List.mem_flatMap.mpr ⟨block, hblock, hrule⟩
  rw [rules_blocks_sourceOf] at hrules
  obtain ⟨use, huse, hrule⟩ := List.mem_flatMap.mp hrules
  obtain ⟨statement, hstatement, huse⟩ := List.mem_flatMap.mp huse
  exact ⟨pair.1, (List.of_mem_zip hpair).1, .generation hstatement huse hrule hkey rfl⟩

end Workspace

end Reskin
