import Reskin.Proofs.Reader.Earliest

/-!
# Scopes that are left open

A file that ends inside of a scope is reported at the keyword of the innermost scope that is open.
Which scope that is follows from the braces alone: it is the one behind whose brace every brace has
its partner. The reader keeps its open scopes in step with the braces that it has read.

* **`IsBalanced`** — tokens in which every brace has its partner.
* **`LeavesOpen`** — the scopes that tokens leave open, innermost first.
* **`Reader.Nests`** — the invariant. **`Nests.step`** and **`Nests.run`** keep it.
* **`Statement.read_error_cases`** — what a fault of a file is at.
-/

namespace Reskin

/-- Tokens in which every brace has its partner. -/
inductive IsBalanced : List Token → Prop where
  | nil : IsBalanced []
  | snoc {tokens : List Token} {token : Token} (htokens : IsBalanced tokens)
      (hleft : token.kind ≠ .leftBrace) (hright : token.kind ≠ .rightBrace) :
      IsBalanced (tokens ++ [token])
  | scope {before inner : List Token} {opening closing : Token} (hbefore : IsBalanced before)
      (hopening : opening.kind = .leftBrace) (hinner : IsBalanced inner)
      (hclosing : closing.kind = .rightBrace) :
      IsBalanced (before ++ (opening :: inner ++ [closing]))

/-- Balanced tokens can be put one behind the other. The induction is on the derivation for the
second list, as lists grow at their end. -/
theorem IsBalanced.append {a b : List Token} (ha : IsBalanced a) (hb : IsBalanced b) :
    IsBalanced (a ++ b) := by
  induction hb with
  | nil => rwa [List.append_nil]
  | snoc _ hleft hright ih =>
    rw [← List.append_assoc]
    exact .snoc ih hleft hright
  | scope _ hopening hinner hclosing ih _ =>
    rw [← List.append_assoc]
    exact .scope ih hopening hinner hclosing

/-- Whether tokens of a kind stand in front of the brace of a scope with statements. -/
def TokenKind.opensScope : TokenKind → Bool
  | matchKeyword | forKeyword | target _ => true
  | _ => false

theorem TokenKind.ne_brace_of_opensScope {kind : TokenKind} (h : kind.opensScope = true) :
    kind ≠ .leftBrace ∧ kind ≠ .rightBrace := by
  constructor
  · rintro rfl
    cases h
  · rintro rfl
    cases h

/-- The scopes that tokens leave open, innermost first. -/
inductive LeavesOpen : List Opener → List Token → Prop where
  | nil {tokens : List Token} (htokens : IsBalanced tokens) : LeavesOpen [] tokens
  | cons {opener : Opener} {openers : List Opener} {outer inner : List Token} {brace : Token}
      (houter : LeavesOpen openers outer) (hkeyword : opener.keyword.kind.opensScope = true)
      (hbrace : brace.kind = .leftBrace) (hinner : IsBalanced inner) :
      LeavesOpen (opener :: openers) (outer ++ opener.keyword :: brace :: inner)

namespace LeavesOpen

variable {openers : List Opener} {opener : Opener} {tokens : List Token} {token : Token}

/-- Balanced tokens leave no further scope open. They belong to the innermost scope, so only the
last part of the derivation changes. -/
theorem append {more : List Token} (h : LeavesOpen openers tokens) (hmore : IsBalanced more) :
    LeavesOpen openers (tokens ++ more) := by
  cases h with
  | nil htokens => exact .nil (htokens.append hmore)
  | cons houter hkeyword hbrace hinner =>
    rw [List.append_assoc]
    exact .cons houter hkeyword hbrace (hinner.append hmore)

theorem snoc (h : LeavesOpen openers tokens) (hleft : token.kind ≠ .leftBrace)
    (hright : token.kind ≠ .rightBrace) : LeavesOpen openers (tokens ++ [token]) :=
  h.append (.snoc .nil hleft hright)

/-- A brace behind a keyword opens one more scope, and nothing was read in it yet. -/
theorem enter (h : LeavesOpen openers tokens) (hkeyword : opener.keyword.kind.opensScope = true)
    (hbrace : token.kind = .leftBrace) :
    LeavesOpen (opener :: openers) (tokens ++ [opener.keyword] ++ [token]) := by
  rw [List.append_assoc]
  exact .cons h hkeyword hbrace .nil

/-- A closing brace is the partner of the brace of the innermost scope. Together with what is
between them they are balanced, and so they become part of the next outer scope. -/
theorem leave (h : LeavesOpen (opener :: openers) tokens) (hclosing : token.kind = .rightBrace) :
    LeavesOpen openers (tokens ++ [token]) := by
  cases h with
  | cons houter hkeyword hbrace hinner =>
    obtain ⟨hleft, hright⟩ := TokenKind.ne_brace_of_opensScope hkeyword
    have hclosed := houter.append
      (.scope (.snoc .nil hleft hright) hbrace hinner hclosing)
    simpa only [List.append_assoc, List.nil_append, List.cons_append] using hclosed

end LeavesOpen

/-! ## The invariant -/

/-- What a pending statement says about the tokens that were read. A keyword that waits for its
brace is the last one of them, and a `copy` scope has an open brace of its own. -/
def Pending.Nests : Pending → List Opener → List Token → Prop
  | opening opener, openers, tokens => ∃ front, tokens = front ++ [opener.keyword]
      ∧ opener.keyword.kind.opensScope = true ∧ LeavesOpen openers front
  | target _ keyword, openers, tokens => ∃ front, tokens = front ++ [keyword]
      ∧ keyword.kind.opensScope = true ∧ LeavesOpen openers front
  | copyPairs _ _, openers, tokens | copySource _ _ _, openers, tokens
  | copyArrow _ _ _ _, openers, tokens | copyNext _ _, openers, tokens =>
    ∃ front brace inner, tokens = front ++ brace :: inner ∧ brace.kind = .leftBrace
      ∧ IsBalanced inner ∧ LeavesOpen openers front
  | _, openers, tokens => LeavesOpen openers tokens

namespace Reader

/-- The open scopes of a reader are those that the tokens leave open. -/
def Nests (reader : Reader) (tokens : List Token) : Prop :=
  reader.pending.Nests (reader.scopes.map Prod.fst) tokens

variable {scopes : List (Opener × List Statement)} {current : List Statement} {pending : Pending}
  {reader after : Reader} {tokens : List Token} {token : Token}

theorem nests_initial : Nests {} [] :=
  .nil .nil

/-- A statement that may be over has no brace of its own, and does not wait for one. -/
theorem leavesOpen_of_endsBefore {next : Option TokenKind} {openers : List Opener}
    (hends : pending.EndsBefore next) (h : pending.Nests openers tokens) :
    LeavesOpen openers tokens := by
  cases pending with
  | nothing => exact h
  | identifier first => exact h
  | identifiers first rest => exact h
  | block head => exact h
  | listing target keyword body => exact h
  | _ => exact hends.elim

/-- A closing brace that the reader takes removes the innermost scope from its stack, and from the
scopes that the tokens leave open. -/
theorem nests_leave (h : LeavesOpen (scopes.map Prod.fst) tokens)
    (hleave : Reader.leave ⟨scopes, current, pending⟩ token = .ok after)
    (hkind : token.kind = .rightBrace) : after.Nests (tokens ++ [token]) := by
  cases scopes with
  | nil => cases hleave
  | cons scope outer =>
    obtain ⟨opener, before⟩ := scope
    have houter : LeavesOpen (outer.map Prod.fst) (tokens ++ [token]) := LeavesOpen.leave h hkind
    cases opener with
    | matchBlock keyword =>
      cases hleave
      exact houter
    | listing target keyword =>
      cases hleave
      exact houter
    | forScope head keyword =>
      cases hleave
      exact houter

/-- The first token of a statement: a brace closes a scope, and no other opens one. The keywords
that wait for their brace are kept as the last token. -/
theorem nests_start (h : LeavesOpen (scopes.map Prod.fst) tokens)
    (hstart : Reader.start ⟨scopes, current, .nothing⟩ token = .ok after) :
    after.Nests (tokens ++ [token]) := by
  cases hkind : token.kind <;> simp only [Reader.start, hkind, reduceCtorEq] at hstart
  case rightBrace => exact nests_leave h hstart hkind
  case matchKeyword =>
    cases hstart
    exact ⟨tokens, rfl, congrArg TokenKind.opensScope hkind, h⟩
  case target target =>
    cases hstart
    exact ⟨tokens, rfl, congrArg TokenKind.opensScope hkind, h⟩
  all_goals
    cases hstart
    exact LeavesOpen.snoc h (by simp [hkind]) (by simp [hkind])

/-- Another token of a `copy` scope. There is no brace inside of such a scope. -/
theorem nests_copy {openers : List Opener} (hleft : token.kind ≠ .leftBrace)
    (hright : token.kind ≠ .rightBrace)
    (h : ∃ front brace inner, tokens = front ++ brace :: inner ∧ brace.kind = .leftBrace
      ∧ IsBalanced inner ∧ LeavesOpen openers front) :
    ∃ front brace inner, tokens ++ [token] = front ++ brace :: inner ∧ brace.kind = .leftBrace
      ∧ IsBalanced inner ∧ LeavesOpen openers front := by
  obtain ⟨front, brace, inner, rfl, hbrace, hinner, hfront⟩ := h
  refine ⟨front, brace, inner ++ [token], ?_, hbrace, .snoc hinner hleft hright, hfront⟩
  rw [List.append_assoc, List.cons_append]

/-- The end of a `copy` scope. The scope is never on the stack of the reader, so its two braces are
balanced where they stand. -/
theorem leavesOpen_copy {openers : List Opener} (hclosing : token.kind = .rightBrace)
    (h : ∃ front brace inner, tokens = front ++ brace :: inner ∧ brace.kind = .leftBrace
      ∧ IsBalanced inner ∧ LeavesOpen openers front) : LeavesOpen openers (tokens ++ [token]) := by
  obtain ⟨front, brace, inner, rfl, hbrace, hinner, hfront⟩ := h
  rw [List.append_assoc]
  exact hfront.append (.scope .nil hbrace hinner hclosing)

/-- **Every step keeps the invariant.** The cases are the moves of the reader; only those that take
a brace, or a keyword in front of one, say anything about scopes. -/
theorem Nests.step (h : reader.Nests tokens) (hstep : reader.step token = .ok after) :
    after.Nests (tokens ++ [token]) := by
  have hmove := move_of_step hstep
  obtain ⟨scopes, current, pending⟩ := reader
  cases hmove with
  | ends hends hstart => exact nests_start (leavesOpen_of_endsBefore hends h) hstart
  | enter hkind =>
    obtain ⟨front, rfl, hkeyword, hfront⟩ := h
    exact LeavesOpen.enter hfront hkeyword hkind
  | @enterListing target keyword hkind =>
    obtain ⟨front, rfl, hkeyword, hfront⟩ := h
    have hentered : LeavesOpen (.listing target keyword :: scopes.map Prod.fst)
        (front ++ [keyword] ++ [token]) := LeavesOpen.enter hfront hkeyword hkind
    exact hentered
  | setAll hkind =>
    obtain ⟨front, rfl, hkeyword, hfront⟩ := h
    obtain ⟨hleft, hright⟩ := TokenKind.ne_brace_of_opensScope hkeyword
    exact (LeavesOpen.snoc hfront hleft hright).snoc (by simp [hkind]) (by simp [hkind])
  | uses hkind => exact ⟨tokens, rfl, congrArg TokenKind.opensScope hkind, h⟩
  | enterCopy hkind => exact ⟨tokens, token, [], rfl, hkind, .nil, h⟩
  | copySource hkind => exact nests_copy (by simp [hkind]) (by simp [hkind]) h
  | copyArrow hkind => exact nests_copy (by simp [hkind]) (by simp [hkind]) h
  | copyDestination hkind => exact nests_copy (by simp [hkind]) (by simp [hkind]) h
  | copyComma hkind => exact nests_copy (by simp [hkind]) (by simp [hkind]) h
  | leaveCopy hkind => exact leavesOpen_copy hkind h
  | leaveCopyPair hkind => exact leavesOpen_copy hkind h
  | name hkind | equals hkind | value hkind | predicate hkind | second hkind | further hkind
  | mapAll hkind _ | mapAllValue hkind =>
    -- No brace is involved.
    exact LeavesOpen.snoc h (by simp [hkind]) (by simp [hkind])

/-- **Every run keeps the invariant**, since every step does. -/
theorem Nests.run {read : List Token} (h : reader.Nests tokens)
    (hrun : reader.run read = .ok after) : after.Nests (tokens ++ read) :=
  run_induction (motive := fun tokens reader => reader.Nests tokens) hrun h
    fun _ _ _ _ hnests hstep => hnests.step hstep

end Reader

/-! ## Faults -/

/-- A report on the innermost scope that is left open: it is at the keyword of that scope, and every
brace behind the brace of the scope has its partner. -/
structure IsUnclosedAt (tokens : List Token) (diagnostic : Diagnostic) (keyword : Token) :
    Prop where
  opensScope : keyword.kind.opensScope = true
  innermost : ∃ before brace after, tokens = before ++ keyword :: brace :: after
    ∧ brace.kind = .leftBrace ∧ IsBalanced after
  diagnostic_eq : diagnostic = .located (.grammar (.unclosedScope keyword.text)) keyword.location

theorem IsUnclosedAt.mem {tokens : List Token} {diagnostic : Diagnostic} {keyword : Token}
    (h : IsUnclosedAt tokens diagnostic keyword) : keyword ∈ tokens := by
  obtain ⟨before, brace, after, rfl, -, -⟩ := h.innermost
  exact List.mem_append_right before List.mem_cons_self

namespace Statement

/-- A file that ends too early is reported at its last token, or at the scope that is open. The
invariant says where in the file the keyword of that scope stands. -/
theorem finish_error_cases {reader : Reader} {tokens : List Token} {diagnostic : Diagnostic}
    (hrun : Reader.run {} tokens = .ok reader)
    (h : reader.finish tokens.getLast? = .error diagnostic) :
    (∃ token ∈ tokens, ∃ expected,
        diagnostic = .located (.grammar (.unexpectedEnd expected)) token.location)
      ∨ ∃ keyword, IsUnclosedAt tokens diagnostic keyword := by
  have hnests : reader.Nests tokens := Reader.nests_initial.run hrun
  unfold Reader.finish at h
  split at h
  · next hexpected =>
    have hopen : LeavesOpen (reader.scopes.map Prod.fst) tokens := by
      obtain ⟨scopes, current, pending⟩ := reader
      cases pending with
      | nothing => exact hnests
      | identifiers first rest => exact hnests
      | block head => exact hnests
      | listing target keyword body => exact hnests
      | _ => cases hexpected
    split at h
    · cases h
    · next opener before outer hscopes =>
      cases h
      rw [hscopes, List.map_cons] at hopen
      obtain ⟨⟩ | ⟨houter, hkeyword, hbrace, hinner⟩ := hopen
      exact .inr ⟨opener.keyword, hkeyword, ⟨_, _, _, rfl, hbrace, hinner⟩, rfl⟩
  · next expected hexpected =>
    cases h
    -- A reader that has read nothing waits for nothing.
    cases hlast : tokens.getLast? with
    | none =>
      rw [List.getLast?_eq_none_iff.mp hlast] at hrun
      cases hrun
      exact absurd rfl hexpected
    | some last =>
      exact .inl ⟨last, List.mem_of_getLast? hlast, _, rfl⟩

/-- **What a fault of a file is at**: a token that cannot stand where it is, the last token, or the
keyword of the innermost open scope. The first is a fault of a step, the others are faults of the
end of the file. -/
theorem read_error_cases {tokens : List Token} {diagnostic : Diagnostic}
    (h : read tokens = .error diagnostic) :
    (∃ token ∈ tokens, IsFaultAt token diagnostic)
      ∨ (∃ token ∈ tokens, ∃ expected,
        diagnostic = .located (.grammar (.unexpectedEnd expected)) token.location)
      ∨ ∃ keyword, IsUnclosedAt tokens diagnostic keyword := by
  unfold read at h
  split at h
  · next reader hrun => exact .inr (finish_error_cases hrun h)
  · next other hrun =>
    cases h
    obtain ⟨before, token, after, middle, rfl, -, hstep⟩ := Reader.run_eq_error hrun
    exact .inl ⟨token, List.mem_append_right before List.mem_cons_self, Reader.step_eq_error hstep⟩

end Statement

end Reskin
