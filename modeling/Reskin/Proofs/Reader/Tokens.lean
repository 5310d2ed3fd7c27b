import Reskin.Proofs.Reader.Earliest
import Reskin.Proofs.Reader.Printing
import Reskin.Statement.Check

/-!
# Statements hold the tokens that were read

Whatever is reported about a statement is reported at one of its tokens, and these are tokens of the
file: the reader makes none up, changes no order, and drops only braces and commas.

* **`Statement.tokens`**, **`Reader.tokens`** — the tokens of a statement, and of what a reader
  holds.
* **`Reader.tokens_step`** — a step puts its token behind those that are held;
  **`Reader.tokens_run`** — a run puts those behind that were read.
* **`Statement.tokensAll_read`** — the tokens of the statements of a file.
* **`Statement.exists_token_of_mem_check`** — violations are at tokens of the file.
-/

namespace Reskin

/-! ## The tokens of a statement -/

def Assignment.tokens (assignment : Assignment) : List Token :=
  [assignment.key, assignment.equals, assignment.value]

def CopyPair.tokens (pair : CopyPair) : List Token :=
  [pair.source, pair.arrow, pair.destination]

def MapAll.tokens (mapAll : MapAll) : List Token :=
  [mapAll.equals, mapAll.value]

mutual

/-- The tokens of a statement, without braces and commas. -/
def Statement.tokens : Statement → List Token
  | .definition _ keyword assignment => keyword :: assignment.tokens
  | .matchBlock keyword body uses => keyword :: (Statement.tokensAll body ++ uses.tokens)
  | .anyBlock keyword uses => keyword :: uses.tokens
  | .listing _ keyword body mapAll =>
    keyword :: (Statement.tokensAll body ++ mapAll.toList.flatMap MapAll.tokens)
  | .setAll _ assignment | .predicate assignment | .model assignment | .weight assignment =>
    assignment.tokens
  | .identifiers first rest => first :: rest
  | .copy keyword pairs => keyword :: pairs.flatMap CopyPair.tokens

def Statement.tokensAll : List Statement → List Token
  | [] => []
  | statement :: rest => statement.tokens ++ Statement.tokensAll rest

def ForScope.tokens : ForScope → List Token
  | .missing => []
  | .present keyword body => keyword :: Statement.tokensAll body

end

/-- The tokens of a list of statements are those of the statements, one behind the other. -/
theorem Statement.tokensAll_eq (statements : List Statement) :
    Statement.tokensAll statements = statements.flatMap Statement.tokens := by
  induction statements with
  | nil => rfl
  | cons statement rest ih => rw [Statement.tokensAll, ih, List.flatMap_cons]

@[simp] theorem Statement.tokensAll_nil : Statement.tokensAll [] = [] := rfl

@[simp] theorem Statement.tokensAll_append (a b : List Statement) :
    Statement.tokensAll (a ++ b) = Statement.tokensAll a ++ Statement.tokensAll b := by
  rw [tokensAll_eq, tokensAll_eq, tokensAll_eq, List.flatMap_append]

@[simp] theorem Statement.tokensAll_singleton (statement : Statement) :
    Statement.tokensAll [statement] = statement.tokens := by
  rw [tokensAll_eq, List.flatMap_singleton]

theorem Statement.tokens_subset_of_mem {statement : Statement} {statements : List Statement}
    (h : statement ∈ statements) : statement.tokens ⊆ Statement.tokensAll statements := by
  rw [tokensAll_eq]
  exact fun token htoken => List.mem_flatMap.mpr ⟨statement, h, htoken⟩

theorem Statement.firstToken_mem (statement : Statement) :
    statement.firstToken ∈ statement.tokens := by
  cases statement <;> exact List.mem_cons_self

/-! ## What a reader holds -/

/-- The tokens of a block without its `for` scope. -/
def BlockHead.tokens : BlockHead → List Token
  | matching keyword body => keyword :: Statement.tokensAll body
  | any keyword => [keyword]

/-- The tokens in front of the key of an assignment. -/
def AssignmentKind.tokens : AssignmentKind → List Token
  | definition _ keyword => [keyword]
  | _ => []

/-- The tokens in front of the brace of a scope. -/
def Opener.tokens : Opener → List Token
  | matchBlock keyword | listing _ keyword => [keyword]
  | forScope head keyword => head.tokens ++ [keyword]

/-- The tokens of a pending statement. -/
def Pending.tokens : Pending → List Token
  | nothing => []
  | definition _ keyword | target _ keyword | copy keyword => [keyword]
  | key kind name => kind.tokens ++ [name]
  | equals kind name sign => kind.tokens ++ [name, sign]
  | opening opener => opener.tokens
  | identifier first => [first]
  | identifiers first rest => first :: rest
  | block head => head.tokens
  | listing _ keyword body => keyword :: Statement.tokensAll body
  | mapAll _ keyword body sign => keyword :: (Statement.tokensAll body ++ [sign])
  | copyPairs keyword pairs | copyNext keyword pairs => keyword :: pairs.flatMap CopyPair.tokens
  | copySource keyword pairs source => keyword :: (pairs.flatMap CopyPair.tokens ++ [source])
  | copyArrow keyword pairs source arrow =>
    keyword :: (pairs.flatMap CopyPair.tokens ++ [source, arrow])

theorem BlockHead.tokens_statement (head : BlockHead) (uses : ForScope) :
    (head.statement uses).tokens = head.tokens ++ uses.tokens := by
  cases head <;> rfl

theorem AssignmentKind.tokens_statement (kind : AssignmentKind) (assignment : Assignment) :
    (kind.statement assignment).tokens = kind.tokens ++ assignment.tokens := by
  cases kind <;> rfl

/-- A pending statement that is over keeps its tokens. Only statements that may be over are looked
at, as the others would lose what they wait for. -/
theorem Pending.tokensAll_ended {pending : Pending} {next : Option TokenKind}
    (h : pending.EndsBefore next) : Statement.tokensAll pending.ended = pending.tokens := by
  cases pending with
  | nothing => rfl
  | identifier first => rfl
  | identifiers first rest => exact Statement.tokensAll_singleton _
  | block head =>
    have hstatement := head.tokens_statement .missing
    rw [ForScope.tokens, List.append_nil] at hstatement
    exact (Statement.tokensAll_singleton _).trans hstatement
  | listing target keyword body =>
    have hstatement : (Statement.listing target keyword body none).tokens
        = keyword :: Statement.tokensAll body := by simp [Statement.tokens]
    exact (Statement.tokensAll_singleton _).trans hstatement
  | _ => exact h.elim

/-- Whether a token is kept in a statement. Braces and commas are not. -/
def Token.isKept (token : Token) : Bool :=
  match token.kind with
  | .leftBrace | .rightBrace | .comma => false
  | _ => true

namespace Reader

/-- The tokens of the open scopes and of what stands in front of them. -/
def scopeTokens : List (Opener × List Statement) → List Token
  | [] => []
  | (opener, before) :: outer =>
    scopeTokens outer ++ (Statement.tokensAll before ++ opener.tokens)

/-- The tokens of what a reader holds. -/
def tokens (reader : Reader) : List Token :=
  scopeTokens reader.scopes ++ (Statement.tokensAll reader.current ++ reader.pending.tokens)

variable {reader after : Reader} {token : Token}

/-- A closing brace moves what is held into the statement that it closes. The brace itself is not
held, so the tokens are the same. -/
theorem tokens_leave (h : reader.leave token = .ok after) (hpending : reader.pending = .nothing) :
    after.tokens = reader.tokens := by
  obtain ⟨scopes, current, pending⟩ := reader
  cases hpending
  cases scopes with
  | nil => cases h
  | cons scope outer =>
    obtain ⟨opener, before⟩ := scope
    cases opener with
    | matchBlock keyword =>
      cases h
      simp [tokens, scopeTokens, Pending.tokens, BlockHead.tokens, Opener.tokens]
    | listing target keyword =>
      cases h
      simp [tokens, scopeTokens, Pending.tokens, Opener.tokens]
    | forScope head keyword =>
      cases h
      simp [tokens, scopeTokens, Pending.tokens, Opener.tokens, BlockHead.tokens_statement,
        ForScope.tokens]

/-- The first token of a statement is pending alone, or it closes a scope. -/
theorem tokens_start (h : reader.start token = .ok after) (hpending : reader.pending = .nothing) :
    after.tokens = reader.tokens ++ [token].filter Token.isKept := by
  have hawait : ∀ pending : Pending, token.isKept = true → pending.tokens = [token] →
      (reader.await pending).tokens = reader.tokens ++ [token].filter Token.isKept := by
    intro pending hkept hone
    have hnone : Pending.nothing.tokens = [] := rfl
    simp [tokens, await, hone, hpending, hnone, hkept]
  cases hkind : token.kind <;> simp only [Reader.start, hkind, reduceCtorEq] at h
  case rightBrace =>
    have hdropped : [token].filter Token.isKept = [] := by simp [Token.isKept, hkind]
    rw [hdropped, List.append_nil]
    exact tokens_leave h hpending
  all_goals
    cases h
    exact hawait _ (by simp [Token.isKept, hkind]) rfl

/-- **A step puts its token behind those that are held**, unless it is a brace or a comma. The cases
are the moves of the reader. -/
theorem tokens_step (h : reader.step token = .ok after) :
    after.tokens = reader.tokens ++ [token].filter Token.isKept := by
  have hmove := move_of_step h
  obtain ⟨scopes, current, pending⟩ := reader
  cases hmove with
  | ends hends hstart =>
    rw [tokens_start hstart rfl]
    simp [tokens, Pending.tokens, Pending.tokensAll_ended hends]
  | _ =>
    -- Some of the pending tokens may move on together, but none of them moves past another.
    simp_all [Token.isKept, tokens, scopeTokens, Pending.tokens, Opener.tokens,
      AssignmentKind.tokens, Assignment.tokens, CopyPair.tokens, MapAll.tokens, Statement.tokens,
      AssignmentKind.tokens_statement]

/-- **A run keeps the tokens that it reads, in order**, without braces and commas: what is held
grows by the token of each step. -/
theorem tokens_run {read : List Token} (h : reader.run read = .ok after) :
    after.tokens = reader.tokens ++ read.filter Token.isKept := by
  have hstart : reader.tokens = reader.tokens ++ [].filter Token.isKept := (List.append_nil _).symm
  refine run_induction
    (motive := fun front middle => middle.tokens = reader.tokens ++ front.filter Token.isKept)
    h hstart ?_
  intro front middle token next hmiddle hstep
  rw [tokens_step hstep, hmiddle, List.append_assoc, ← List.filter_append]

theorem tokensAll_finish {last : Option Token} {statements : List Statement}
    (h : reader.finish last = .ok statements) : Statement.tokensAll statements = reader.tokens := by
  obtain ⟨hscopes, hends⟩ := finish_eq_ok h
  rw [statements_of_finish h, ended, Statement.tokensAll_append, Pending.tokensAll_ended hends,
    tokens, hscopes]
  rfl

end Reader

/-! ## The statements of a file -/

namespace Statement

/-- **The statements of a file hold its tokens in order**, without braces and commas. So a statement
has no token that is not in the file, and no token of the file is lost. -/
theorem tokensAll_read {tokens : List Token} {statements : List Statement}
    (h : read tokens = .ok statements) : tokensAll statements = tokens.filter Token.isKept := by
  unfold read at h
  split at h
  · next reader hrun =>
    rw [Reader.tokensAll_finish h, Reader.tokens_run hrun]
    rfl
  · cases h

theorem mem_of_mem_tokens_read {tokens : List Token} {statements : List Statement}
    (h : read tokens = .ok statements) {token : Token} (htoken : token ∈ tokensAll statements) :
    token ∈ tokens := by
  rw [tokensAll_read h] at htoken
  exact (List.mem_filter.mp htoken).1

/-! ### Violations -/

/-- A violation of a scoping rule at a token. -/
def IsViolationAt (token : Token) (diagnostic : Diagnostic) : Prop :=
  ∃ fault, diagnostic = .located (.scope fault) token.location

theorem exists_token_of_mem_misplacement {scope : NodeKind} {statement : Statement}
    {diagnostic : Diagnostic} (h : diagnostic ∈ statement.misplacement scope) :
    ∃ token ∈ statement.tokens, IsViolationAt token diagnostic := by
  unfold misplacement at h
  dsimp only at h
  split at h
  · cases h
  · exact ⟨_, statement.firstToken_mem, _, List.mem_singleton.mp h⟩

theorem exists_token_of_mem_missingFor {statement : Statement} {uses : ForScope}
    {diagnostic : Diagnostic} (h : diagnostic ∈ statement.missingFor uses) :
    ∃ token ∈ statement.tokens, IsViolationAt token diagnostic := by
  unfold missingFor at h
  split at h
  · cases h
  · exact ⟨_, statement.firstToken_mem, _, List.mem_singleton.mp h⟩

theorem isViolationAt_of_mem_unclearListing {keyword : Token} {body : List Statement}
    {mapAll : Option MapAll} {diagnostic : Diagnostic}
    (h : diagnostic ∈ unclearListing keyword body mapAll) : IsViolationAt keyword diagnostic := by
  unfold unclearListing at h
  split at h
  · split at h
    · exact ⟨_, List.mem_singleton.mp h⟩
    · exact ⟨_, List.mem_singleton.mp h⟩
    · cases h
  · cases h

theorem exists_token_of_mem_incompleteness {statement : Statement} {diagnostic : Diagnostic}
    (h : diagnostic ∈ statement.incompleteness) :
    ∃ token ∈ statement.tokens, IsViolationAt token diagnostic := by
  unfold incompleteness at h
  split at h
  · exact exists_token_of_mem_missingFor h
  · exact exists_token_of_mem_missingFor h
  · exact ⟨_, List.mem_cons_self, isViolationAt_of_mem_unclearListing h⟩
  · cases h

mutual

/-- Every violation of a statement is at one of its tokens. The induction is on the statement: it is
misplaced, it is incomplete, or the violation is inside of it. -/
theorem exists_token_of_mem_violations {scope : NodeKind} {diagnostic : Diagnostic} :
    ∀ statement : Statement, diagnostic ∈ statement.violations scope →
      ∃ token ∈ statement.tokens, IsViolationAt token diagnostic := by
  intro statement h
  rw [Statement.violations.eq_def, List.mem_append, List.mem_append] at h
  rcases h with (hmisplaced | hincomplete) | hinside
  · exact exists_token_of_mem_misplacement hmisplaced
  · exact exists_token_of_mem_incompleteness hincomplete
  · -- What is inside of a statement is behind its keyword.
    cases statement with
    | matchBlock keyword body uses =>
      rcases List.mem_append.mp hinside with hbody | huses
      · obtain ⟨token, htoken, hat⟩ := exists_token_of_mem_violationsAll body hbody
        exact ⟨token, List.mem_cons_of_mem _ (List.mem_append_left _ htoken), hat⟩
      · obtain ⟨token, htoken, hat⟩ := exists_token_of_mem_forViolations uses huses
        exact ⟨token, List.mem_cons_of_mem _ (List.mem_append_right _ htoken), hat⟩
    | anyBlock keyword uses =>
      obtain ⟨token, htoken, hat⟩ := exists_token_of_mem_forViolations uses hinside
      exact ⟨token, List.mem_cons_of_mem _ htoken, hat⟩
    | listing target keyword body mapAll =>
      obtain ⟨token, htoken, hat⟩ := exists_token_of_mem_violationsAll body hinside
      exact ⟨token, List.mem_cons_of_mem _ (List.mem_append_left _ htoken), hat⟩
    | _ => cases hinside

theorem exists_token_of_mem_violationsAll {scope : NodeKind} {diagnostic : Diagnostic} :
    ∀ statements : List Statement, diagnostic ∈ Statement.violationsAll scope statements →
      ∃ token ∈ tokensAll statements, IsViolationAt token diagnostic := by
  intro statements h
  cases statements with
  | nil => cases h
  | cons statement rest =>
    rw [Statement.violationsAll, List.mem_append] at h
    rcases h with hfirst | hrest
    · obtain ⟨token, htoken, hat⟩ := exists_token_of_mem_violations statement hfirst
      exact ⟨token, List.mem_append_left _ htoken, hat⟩
    · obtain ⟨token, htoken, hat⟩ := exists_token_of_mem_violationsAll rest hrest
      exact ⟨token, List.mem_append_right _ htoken, hat⟩

theorem exists_token_of_mem_forViolations {diagnostic : Diagnostic} :
    ∀ uses : ForScope, diagnostic ∈ uses.violations →
      ∃ token ∈ uses.tokens, IsViolationAt token diagnostic := by
  intro uses h
  cases uses with
  | missing => cases h
  | present keyword body =>
    obtain ⟨token, htoken, hat⟩ := exists_token_of_mem_violationsAll body h
    exact ⟨token, List.mem_cons_of_mem _ htoken, hat⟩

end

/-- **Violations are at tokens of the file**, since the tokens of its statements are. -/
theorem exists_token_of_mem_check {tokens : List Token} {statements : List Statement}
    (h : read tokens = .ok statements) {diagnostic : Diagnostic}
    (hcheck : diagnostic ∈ check statements) :
    ∃ token ∈ tokens, IsViolationAt token diagnostic := by
  obtain ⟨token, htoken, hat⟩ := exists_token_of_mem_violationsAll statements hcheck
  exact ⟨token, mem_of_mem_tokens_read h htoken, hat⟩

end Statement

end Reskin
