import Reskin.Statement.Check
import Reskin.Statement.Reader
import Reskin.Token.Literal

/-!
# Reading does not look at places

Tokens carry their places through all stages, so that faults can be reported where they are. No
stage decides anything by them. This is stated with a function that forgets lines and columns,
`unplaced`, on everything that holds tokens: a stage that is given tokens without places returns
what it returns for the tokens with their places, without places.

* **`Reader.step_unplaced`** — one token; **`Statement.read_unplaced`** — a file.
* **`Statement.check_unplaced`** — the scoping rules.
-/

namespace Reskin

/-! ## Tokens and diagnostics -/

/-- A location without its line and column. -/
def Location.unplaced (location : Location) : Location :=
  { location with line := 0, column := 0 }

/-- A diagnostic without the line and column of its location. -/
def Diagnostic.unplaced (diagnostic : Diagnostic) : Diagnostic :=
  { diagnostic with location := diagnostic.location.map Location.unplaced }

/-- A token without its line and column. -/
def Token.unplaced (token : Token) : Token :=
  { token with line := 0, column := 0 }

@[simp] theorem Token.text_unplaced (token : Token) : token.unplaced.text = token.text := rfl

@[simp] theorem Token.kind_unplaced (token : Token) : token.unplaced.kind = token.kind := rfl

@[simp] theorem Token.value_unplaced (token : Token) : token.unplaced.value = token.value := rfl

@[simp] theorem Diagnostic.unplaced_located (cause : Cause) (token : Token) :
    (Diagnostic.located cause token.location).unplaced
      = Diagnostic.located cause token.unplaced.location := rfl

/-- Whether there is an error can be told without places. -/
@[simp] theorem hasErrors_map_unplaced (diagnostics : List Diagnostic) :
    hasErrors (diagnostics.map Diagnostic.unplaced) = hasErrors diagnostics := by
  rw [hasErrors, List.any_map]
  rfl

/-! ## Statements -/

def Assignment.unplaced (assignment : Assignment) : Assignment :=
  ⟨assignment.key.unplaced, assignment.equals.unplaced, assignment.value.unplaced⟩

def CopyPair.unplaced (pair : CopyPair) : CopyPair :=
  ⟨pair.source.unplaced, pair.arrow.unplaced, pair.destination.unplaced⟩

def MapAll.unplaced (mapAll : MapAll) : MapAll :=
  ⟨mapAll.equals.unplaced, mapAll.value.unplaced⟩

mutual

/-- A statement without the places of its tokens. -/
def Statement.unplaced : Statement → Statement
  | .definition scope keyword assignment =>
    .definition scope keyword.unplaced assignment.unplaced
  | .matchBlock keyword body uses =>
    .matchBlock keyword.unplaced (Statement.unplacedAll body) uses.unplaced
  | .anyBlock keyword uses => .anyBlock keyword.unplaced uses.unplaced
  | .listing target keyword body mapAll =>
    .listing target keyword.unplaced (Statement.unplacedAll body) (mapAll.map MapAll.unplaced)
  | .setAll target assignment => .setAll target assignment.unplaced
  | .predicate assignment => .predicate assignment.unplaced
  | .model assignment => .model assignment.unplaced
  | .weight assignment => .weight assignment.unplaced
  | .identifiers first rest => .identifiers first.unplaced (rest.map Token.unplaced)
  | .copy keyword pairs => .copy keyword.unplaced (pairs.map CopyPair.unplaced)

def Statement.unplacedAll : List Statement → List Statement
  | [] => []
  | statement :: rest => statement.unplaced :: Statement.unplacedAll rest

def ForScope.unplaced : ForScope → ForScope
  | .missing => .missing
  | .present keyword body => .present keyword.unplaced (Statement.unplacedAll body)

end

@[simp] theorem Statement.unplacedAll_eq_map (statements : List Statement) :
    Statement.unplacedAll statements = statements.map Statement.unplaced := by
  induction statements with
  | nil => rfl
  | cons statement rest ih => rw [Statement.unplacedAll, ih, List.map_cons]

@[simp] theorem Statement.kind_unplaced (statement : Statement) :
    statement.unplaced.kind = statement.kind := by
  cases statement <;> rfl

@[simp] theorem Statement.firstToken_unplaced (statement : Statement) :
    statement.unplaced.firstToken = statement.firstToken.unplaced := by
  cases statement <;> rfl

@[simp] theorem Statement.isIdentifiers_unplaced (statement : Statement) :
    statement.unplaced.isIdentifiers = statement.isIdentifiers := by
  cases statement <;> rfl

@[simp] theorem Statement.isModel_unplaced (statement : Statement) :
    statement.unplaced.isModel = statement.isModel := by
  cases statement <;> rfl

@[simp] theorem ForScope.isPresent_unplaced (uses : ForScope) :
    uses.unplaced.isPresent = uses.isPresent := by
  cases uses <;> rfl

/-! ## The state of the reader -/

def BlockHead.unplaced : BlockHead → BlockHead
  | matching keyword body => .matching keyword.unplaced (body.map Statement.unplaced)
  | any keyword => .any keyword.unplaced

def AssignmentKind.unplaced : AssignmentKind → AssignmentKind
  | definition scope keyword => .definition scope keyword.unplaced
  | kind => kind

def Opener.unplaced : Opener → Opener
  | matchBlock keyword => .matchBlock keyword.unplaced
  | forScope head keyword => .forScope head.unplaced keyword.unplaced
  | listing target keyword => .listing target keyword.unplaced

def Pending.unplaced : Pending → Pending
  | nothing => .nothing
  | definition scope keyword => .definition scope keyword.unplaced
  | key kind name => .key kind.unplaced name.unplaced
  | equals kind name sign => .equals kind.unplaced name.unplaced sign.unplaced
  | opening opener => .opening opener.unplaced
  | target kind keyword => .target kind keyword.unplaced
  | identifier first => .identifier first.unplaced
  | identifiers first rest => .identifiers first.unplaced (rest.map Token.unplaced)
  | block head => .block head.unplaced
  | listing kind keyword body => .listing kind keyword.unplaced (body.map Statement.unplaced)
  | mapAll kind keyword body sign =>
    .mapAll kind keyword.unplaced (body.map Statement.unplaced) sign.unplaced
  | copy keyword => .copy keyword.unplaced
  | copyPairs keyword pairs => .copyPairs keyword.unplaced (pairs.map CopyPair.unplaced)
  | copySource keyword pairs source =>
    .copySource keyword.unplaced (pairs.map CopyPair.unplaced) source.unplaced
  | copyArrow keyword pairs source arrow =>
    .copyArrow keyword.unplaced (pairs.map CopyPair.unplaced) source.unplaced arrow.unplaced
  | copyNext keyword pairs => .copyNext keyword.unplaced (pairs.map CopyPair.unplaced)

def Reader.unplaced (reader : Reader) : Reader :=
  ⟨reader.scopes.map fun scope => (scope.1.unplaced, scope.2.map Statement.unplaced),
    reader.current.map Statement.unplaced, reader.pending.unplaced⟩

/-- A result without places. -/
def unplacedResult {α : Type} (unplaced : α → α) : Except Diagnostic α → Except Diagnostic α
  | .ok result => .ok (unplaced result)
  | .error diagnostic => .error diagnostic.unplaced

@[simp] theorem BlockHead.statement_unplaced (head : BlockHead) (uses : ForScope) :
    head.unplaced.statement uses.unplaced = (head.statement uses).unplaced := by
  cases head <;> simp [unplaced, statement, Statement.unplaced]

@[simp] theorem AssignmentKind.statement_unplaced (kind : AssignmentKind)
    (assignment : Assignment) :
    kind.unplaced.statement assignment.unplaced = (kind.statement assignment).unplaced := by
  cases kind <;> rfl

@[simp] theorem Pending.expected_unplaced (pending : Pending) :
    pending.unplaced.expected = pending.expected := by
  cases pending <;> rfl

@[simp] theorem Pending.complete_unplaced (pending : Pending) :
    pending.unplaced.complete = pending.complete.map Statement.unplaced := by
  cases pending with
  | block head =>
    simp only [complete, unplaced, List.map_cons, List.map_nil, ← BlockHead.statement_unplaced]
    rfl
  | listing target keyword body => simp [complete, unplaced, Statement.unplaced]
  | _ => rfl

namespace Reader

theorem settle_unplaced (reader : Reader) : reader.unplaced.settle = reader.settle.unplaced := by
  unfold settle unplaced
  rw [Pending.complete_unplaced, List.map_append]
  rfl

theorem add_unplaced (reader : Reader) (statement : Statement) :
    reader.unplaced.add statement.unplaced = (reader.add statement).unplaced := by
  unfold add unplaced
  rw [List.map_append]
  rfl

/-- Closing a scope does not depend on places. Neither do the two ways to start a statement below,
which end another one first. -/
theorem leave_unplaced (reader : Reader) (brace : Token) :
    reader.unplaced.leave brace.unplaced = unplacedResult unplaced (reader.leave brace) := by
  obtain ⟨scopes, current, pending⟩ := reader
  cases scopes with
  | nil => rfl
  | cons scope outer =>
    obtain ⟨opener, before⟩ := scope
    cases opener with
    | matchBlock keyword => rfl
    | listing target keyword => rfl
    | forScope head keyword =>
      simp only [leave, unplaced, unplacedResult, List.map_cons, Opener.unplaced, List.map_append,
        ← BlockHead.statement_unplaced, List.map_nil]
      simp [ForScope.unplaced, Pending.unplaced]

theorem start_unplaced (reader : Reader) (token : Token) :
    reader.unplaced.start token.unplaced = unplacedResult unplaced (reader.start token) := by
  unfold start
  rw [Token.kind_unplaced]
  cases token.kind with
  | rightBrace => exact leave_unplaced reader token
  | _ => rfl

theorem settle_start_unplaced (reader : Reader) (token : Token) :
    reader.unplaced.settle.start token.unplaced
      = unplacedResult unplaced (reader.settle.start token) := by
  rw [settle_unplaced, start_unplaced]

theorem add_start_unplaced (reader : Reader) (statement : Statement) (token : Token) :
    (reader.unplaced.add statement.unplaced).start token.unplaced
      = unplacedResult unplaced ((reader.add statement).start token) := by
  rw [add_unplaced, start_unplaced]

theorem head?_any_isIdentifiers_unplaced (body : List Statement) :
    (body.map Statement.unplaced).head?.any Statement.isIdentifiers
      = body.head?.any Statement.isIdentifiers := by
  cases body with
  | nil => rfl
  | cons statement rest => exact statement.isIdentifiers_unplaced

/-- Taking a token does not depend on places. There is one case for each pending statement; in each
of them the reader looks at the kind of the token only. -/
theorem step_unplaced (reader : Reader) (token : Token) :
    reader.unplaced.step token.unplaced = unplacedResult unplaced (reader.step token) := by
  obtain ⟨scopes, current, pending⟩ := reader
  unfold step
  rw [Token.kind_unplaced]
  -- Where the token becomes part of the pending statement, both sides are the same by definition.
  cases pending with
  | nothing => exact start_unplaced _ token
  | equals kind key equals =>
    cases token.kind with
    | text =>
      have hadd := add_unplaced ⟨scopes, current, .equals kind key equals⟩
        (kind.statement ⟨key, equals, token⟩)
      rw [← AssignmentKind.statement_unplaced] at hadd
      exact congrArg Except.ok hadd
    | _ => rfl
  | identifier first =>
    cases token.kind with
    | rightBrace => exact add_start_unplaced _ (.identifiers first []) token
    | model => exact add_start_unplaced _ (.identifiers first []) token
    | _ => rfl
  | identifiers first rest =>
    cases token.kind with
    | identifier =>
      simp only [await, unplaced, unplacedResult, Pending.unplaced, List.map_append,
        List.map_singleton]
    | _ => exact settle_start_unplaced _ token
  | block head =>
    cases token.kind with
    | forKeyword => rfl
    | _ => exact settle_start_unplaced _ token
  | listing target keyword body =>
    cases token.kind with
    | equals =>
      simp only [unplaced, Pending.unplaced, head?_any_isIdentifiers_unplaced]
      split <;> rfl
    | _ => exact settle_start_unplaced _ token
  | mapAll target keyword body equals =>
    cases token.kind with
    | text =>
      have hadd := add_unplaced ⟨scopes, current, .mapAll target keyword body equals⟩
        (.listing target keyword body (some ⟨equals, token⟩))
      rw [Statement.unplaced, Statement.unplacedAll_eq_map] at hadd
      exact congrArg Except.ok hadd
    | _ => rfl
  | copyPairs keyword pairs =>
    cases token.kind with
    | rightBrace => exact congrArg Except.ok (add_unplaced _ (.copy keyword pairs))
    | _ => rfl
  | copyArrow keyword pairs source arrow =>
    cases token.kind with
    | text =>
      simp only [await, unplaced, unplacedResult, Pending.unplaced, List.map_append,
        List.map_singleton, CopyPair.unplaced]
    | _ => rfl
  | copyNext keyword pairs =>
    cases token.kind with
    | rightBrace => exact congrArg Except.ok (add_unplaced _ (.copy keyword pairs))
    | _ => rfl
  | _ => cases token.kind <;> rfl

/-- Nor does taking a list of tokens, by induction on it. -/
theorem run_unplaced (reader : Reader) (tokens : List Token) :
    reader.unplaced.run (tokens.map Token.unplaced)
      = unplacedResult unplaced (reader.run tokens) := by
  induction tokens generalizing reader with
  | nil => rfl
  | cons token rest ih =>
    rw [List.map_cons, run, run, step_unplaced]
    cases reader.step token with
    | error diagnostic => rfl
    | ok next => exact ih next

/-- At the end of a file the last token is looked at for its place, which the report then has. -/
theorem finish_unplaced (reader : Reader) (last : Option Token) :
    reader.unplaced.finish (last.map Token.unplaced)
      = unplacedResult (List.map Statement.unplaced) (reader.finish last) := by
  have hsettle : reader.unplaced.settle.current
      = reader.settle.current.map Statement.unplaced := by
    rw [settle_unplaced]
    rfl
  have hexpected : reader.unplaced.pending.expected = reader.pending.expected :=
    reader.pending.expected_unplaced
  rw [finish.eq_def, finish.eq_def, hexpected, hsettle]
  cases reader.pending.expected with
  | nil =>
    obtain ⟨scopes, current, pending⟩ := reader
    cases scopes with
    | nil => rfl
    | cons scope outer =>
      obtain ⟨opener, before⟩ := scope
      cases opener <;> rfl
  | cons kind kinds => cases last <;> rfl

end Reader

/-- Reading a file does not depend on places: without them, the same statements are read, or the
same fault is found at a token of the same text. -/
theorem Statement.read_unplaced (tokens : List Token) :
    Statement.read (tokens.map Token.unplaced)
      = unplacedResult (List.map Statement.unplaced) (Statement.read tokens) := by
  unfold Statement.read
  have hrun := Reader.run_unplaced {} tokens
  rw [show Reader.unplaced {} = {} from rfl] at hrun
  rw [hrun, List.getLast?_map]
  cases Reader.run {} tokens with
  | error diagnostic => rfl
  | ok reader => exact reader.finish_unplaced tokens.getLast?

/-! ## Scoping rules -/

namespace Statement

theorem misplacement_unplaced (scope : NodeKind) (statement : Statement) :
    statement.unplaced.misplacement scope
      = (statement.misplacement scope).map Diagnostic.unplaced := by
  unfold misplacement
  rw [kind_unplaced, firstToken_unplaced, apply_ite (List.map Diagnostic.unplaced)]
  rfl

theorem missingFor_unplaced (statement : Statement) (uses : ForScope) :
    statement.unplaced.missingFor uses.unplaced
      = (statement.missingFor uses).map Diagnostic.unplaced := by
  unfold missingFor
  rw [kind_unplaced, firstToken_unplaced, ForScope.isPresent_unplaced,
    apply_ite (List.map Diagnostic.unplaced)]
  rfl

theorem any_unplaced {p : Statement → Bool} (hp : ∀ statement, p statement.unplaced = p statement)
    (statements : List Statement) : (statements.map unplaced).any p = statements.any p := by
  rw [List.any_map]
  exact List.any_congr rfl hp

theorem unclearListing_unplaced (keyword : Token) (body : List Statement)
    (mapAll : Option MapAll) :
    unclearListing keyword.unplaced (body.map unplaced) (mapAll.map MapAll.unplaced)
      = (unclearListing keyword body mapAll).map Diagnostic.unplaced := by
  unfold unclearListing
  rw [any_unplaced isIdentifiers_unplaced, any_unplaced isModel_unplaced, Option.isSome_map]
  split
  · split <;> rfl
  · rfl

/-- Whether a statement lacks a part is decided by the kinds of what is in it. -/
theorem incompleteness_unplaced (statement : Statement) :
    statement.unplaced.incompleteness = statement.incompleteness.map Diagnostic.unplaced := by
  cases statement with
  | matchBlock keyword body uses => exact missingFor_unplaced (.matchBlock keyword body uses) uses
  | anyBlock keyword uses => exact missingFor_unplaced (.anyBlock keyword uses) uses
  | listing target keyword body mapAll =>
    rw [Statement.unplaced, unplacedAll_eq_map]
    exact unclearListing_unplaced keyword body mapAll
  | _ => rfl

end Statement

mutual

/-- The violations of a statement do not depend on places. Induction on statements, on lists of them
and on `for` scopes at once. -/
theorem Statement.violations_unplaced (scope : NodeKind) (statement : Statement) :
    statement.unplaced.violations scope
      = (statement.violations scope).map Diagnostic.unplaced := by
  rw [Statement.violations.eq_def, Statement.violations.eq_def, List.map_append, List.map_append,
    Statement.misplacement_unplaced, Statement.incompleteness_unplaced]
  congr 1
  cases statement with
  | matchBlock keyword body uses =>
    simp only [Statement.unplaced]
    rw [List.map_append, Statement.violationsAll_unplaced .matchBlock body,
      ForScope.violations_unplaced uses]
  | anyBlock keyword uses => exact ForScope.violations_unplaced uses
  | listing target keyword body mapAll =>
    exact Statement.violationsAll_unplaced (.listing target) body
  | _ => rfl

theorem Statement.violationsAll_unplaced (scope : NodeKind) : ∀ statements : List Statement,
    Statement.violationsAll scope (Statement.unplacedAll statements)
      = (Statement.violationsAll scope statements).map Diagnostic.unplaced
  | [] => rfl
  | statement :: rest => by
    rw [Statement.unplacedAll, Statement.violationsAll, Statement.violationsAll, List.map_append,
      Statement.violations_unplaced scope statement, Statement.violationsAll_unplaced scope rest]

theorem ForScope.violations_unplaced : ∀ uses : ForScope,
    uses.unplaced.violations = uses.violations.map Diagnostic.unplaced
  | .missing => rfl
  | .present keyword body => by
    rw [ForScope.unplaced, ForScope.violations, ForScope.violations,
      Statement.violationsAll_unplaced .forScope body]

end

/-- The scoping rules do not depend on places. -/
theorem Statement.check_unplaced (statements : List Statement) :
    Statement.check (statements.map Statement.unplaced)
      = (Statement.check statements).map Diagnostic.unplaced := by
  rw [Statement.check, ← Statement.unplacedAll_eq_map, Statement.violationsAll_unplaced]
  rfl

end Reskin
