import Reskin.Statement.Check

/-!
# Statements in their scopes

The scoping rules are checked by a walk that collects violations. Where it finds none, each scope
holds only the statements that belong there: the four predicates below name them, scope by scope,
and have no other cases.

* **`InListing`**, **`InMatch`**, **`InFor`**, **`InFile`**: the statements of a scope.
* **`inFile_of_check`**: a file that breaks no rule holds statements of a file, down to the
  innermost scope.
-/

namespace Reskin

namespace Statement

/-- The statements of a listing. -/
inductive InListing : Statement → Prop where
  | identifiers (first : Token) (rest : List Token) : InListing (.identifiers first rest)
  | predicate (assignment : Assignment) : InListing (.predicate assignment)
  | model (assignment : Assignment) : InListing (.model assignment)

/-- The statements of a `match` scope. -/
inductive InMatch : Statement → Prop where
  | predicate (assignment : Assignment) : InMatch (.predicate assignment)
  | weight (assignment : Assignment) : InMatch (.weight assignment)

/-- The statements of a `for` scope. -/
inductive InFor : Statement → Prop where
  | setAll (target : Target) (assignment : Assignment) : InFor (.setAll target assignment)
  | listing (target : Target) (keyword : Token) {body : List Statement} (mapAll : Option MapAll)
      (hbody : ∀ statement ∈ body, InListing statement) :
      InFor (.listing target keyword body mapAll)

/-- The statements of a file. Every block has its `for` scope. -/
inductive InFile : Statement → Prop where
  | definition (scope : DefinitionScope) (keyword : Token) (assignment : Assignment) :
      InFile (.definition scope keyword assignment)
  | matchBlock (keyword forKeyword : Token) {body uses : List Statement}
      (hbody : ∀ statement ∈ body, InMatch statement)
      (huses : ∀ statement ∈ uses, InFor statement) :
      InFile (.matchBlock keyword body (.present forKeyword uses))
  | anyBlock (keyword forKeyword : Token) {uses : List Statement}
      (huses : ∀ statement ∈ uses, InFor statement) :
      InFile (.anyBlock keyword (.present forKeyword uses))
  | copy (keyword : Token) (pairs : List CopyPair) : InFile (.copy keyword pairs)

/-! ## What no violation means -/

variable {scope : NodeKind} {statement : Statement}

/-- Each statement of a scope without violations has none. -/
theorem violations_of_mem {statements : List Statement} (h : violationsAll scope statements = [])
    (hmem : statement ∈ statements) : statement.violations scope = [] := by
  induction statements with
  | nil => cases hmem
  | cons first rest ih =>
    rw [violationsAll, List.append_eq_nil_iff] at h
    rcases List.mem_cons.mp hmem with rfl | hmem
    · exact h.1
    · exact ih h.2 hmem

/-- A statement without violations stands in a scope that is allowed for it. Nearly all statements
are excluded from a scope by this alone. -/
theorem mem_allowedParents (h : statement.violations scope = []) :
    scope ∈ statement.kind.allowedParents := by
  have hplace : statement.misplacement scope = [] := by
    unfold violations at h
    exact (List.append_eq_nil_iff.mp (List.append_eq_nil_iff.mp h).1).1
  rw [misplacement] at hplace
  split at hplace
  · next hallowed => exact List.contains_iff_mem.mp hallowed
  · cases hplace

theorem exists_of_missingFor {uses : ForScope} (h : statement.missingFor uses = []) :
    ∃ keyword body, uses = .present keyword body := by
  cases uses with
  | missing => cases h
  | present keyword body => exact ⟨keyword, body, rfl⟩

/-! ## Scope by scope, from the inside -/

/-- What stands in a listing without a violation is one of the three statements that may. -/
theorem inListing_of_violations {target : Target}
    (h : statement.violations (.listing target) = []) : InListing statement := by
  have hscope := mem_allowedParents h
  cases statement with
  | identifiers first rest => exact .identifiers first rest
  | predicate assignment => exact .predicate assignment
  | model assignment => exact .model assignment
  | _ => simp [kind, NodeKind.allowedParents] at hscope

theorem inMatch_of_violations (h : statement.violations .matchBlock = []) : InMatch statement := by
  have hscope := mem_allowedParents h
  cases statement with
  | predicate assignment => exact .predicate assignment
  | weight assignment => exact .weight assignment
  | _ => simp [kind, NodeKind.allowedParents, NodeKind.listings] at hscope

/-- What stands in a `for` scope without a violation may stand there, and so may what is inside of
it. -/
theorem inFor_of_violations (h : statement.violations .forScope = []) : InFor statement := by
  have hscope := mem_allowedParents h
  cases statement with
  | setAll target assignment => exact .setAll target assignment
  | listing target keyword body mapAll =>
    rw [violations, List.append_eq_nil_iff] at h
    exact .listing target keyword mapAll fun inner hinner =>
      inListing_of_violations (violations_of_mem h.2 hinner)
  | _ => simp [kind, NodeKind.allowedParents, NodeKind.listings] at hscope

theorem inFor_of_forScope {keyword : Token} {uses : List Statement}
    (h : (ForScope.present keyword uses).violations = []) : ∀ inner ∈ uses, InFor inner := by
  rw [ForScope.violations] at h
  intro inner hinner
  exact inFor_of_violations (violations_of_mem h hinner)

/-- What stands in a file without a violation may stand there, down to the innermost scope, and
every block has its `for` scope. -/
theorem inFile_of_violations (h : statement.violations .file = []) : InFile statement := by
  have hscope := mem_allowedParents h
  cases statement with
  | definition scope keyword assignment => exact .definition scope keyword assignment
  | copy keyword pairs => exact .copy keyword pairs
  | matchBlock keyword body uses =>
    rw [violations, List.append_eq_nil_iff, List.append_eq_nil_iff, List.append_eq_nil_iff] at h
    obtain ⟨⟨-, hfor⟩, hbody, huses⟩ := h
    obtain ⟨forKeyword, inner, rfl⟩ := exists_of_missingFor hfor
    refine .matchBlock keyword forKeyword (fun statement hmem => ?_) (inFor_of_forScope huses)
    exact inMatch_of_violations (violations_of_mem hbody hmem)
  | anyBlock keyword uses =>
    rw [violations, List.append_eq_nil_iff, List.append_eq_nil_iff] at h
    obtain ⟨⟨-, hfor⟩, huses⟩ := h
    obtain ⟨forKeyword, inner, rfl⟩ := exists_of_missingFor hfor
    exact .anyBlock keyword forKeyword (inFor_of_forScope huses)
  | _ => simp [kind, NodeKind.allowedParents, NodeKind.listings] at hscope

/-- **The statements of a file without violations** have one of a few shapes. Proofs about the
conversion of files go through these instead of all statements. -/
theorem inFile_of_check {statements : List Statement} (h : check statements = []) :
    ∀ statement ∈ statements, InFile statement := by
  intro statement hmem
  exact inFile_of_violations (violations_of_mem h hmem)

end Statement

end Reskin
