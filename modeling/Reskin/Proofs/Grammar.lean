import Reskin.Statement.Kind

/-!
# The grammar of source files

The grammar is stated on the kinds of tokens alone, without the reader:

```
File      = Stmt*
Stmt      = ("let" | "global") IDENT "=" TEXT
          | "match" Scope Uses
          | "any" Uses
          | Target "=" TEXT
          | Target Scope                      -- a listing
          | Target Scope "=" TEXT             -- only if the scope starts with an IdentList
          | IDENT "=" TEXT | "model" "=" TEXT | "#weight" "=" TEXT
          | IdentList
          | "copy" "{" CopyBody "}"
Uses      = [ "for" Scope ]
Scope     = "{" Stmt* "}"
IdentList = IDENT+
CopyBody  = [ Pair ("," Pair)* [","] ]        Pair = TEXT "=>" TEXT
```

An `IdentList` is the one rule that looks ahead: it takes all identifiers that there are, and one
identifier alone is a list only in front of `}` or `model`. So a word is derived together with the
kind of the token that stands behind it, which is `none` at the end of the file.

* **`Derives`** — the derivations of statements, of runs of statements and of `for` scopes.
* **`Derives.snoc`** — a run of statements grows at its end, as the reader lets it grow.
* **`Derives.starts`** — no statement starts with a token that could continue another statement.
-/

namespace Reskin.Grammar

/-! ## What stands behind a word -/

/-- The kind of the first token of `rest` and what stands behind it. -/
def follow (rest : List TokenKind) (next : Option TokenKind) : Option TokenKind :=
  rest.head?.or next

@[simp] theorem follow_nil (next : Option TokenKind) : follow [] next = next := rfl

theorem follow_append (a b : List TokenKind) (next : Option TokenKind) :
    follow (a ++ b) next = follow a (follow b next) := by
  cases a with
  | nil => rfl
  | cons kind rest => rfl

/-! ## Words without scopes in them -/

def definitionKeyword : DefinitionScope → TokenKind
  | .file => .letKeyword
  | .global => .globalKeyword

/-- The lists of identifiers in front of `next`. -/
inductive IdentifierList : List TokenKind → Option TokenKind → Prop where
  | single {next : Option TokenKind} (hnext : next = some .rightBrace ∨ next = some .model) :
      IdentifierList [.identifier] next
  | several {next : Option TokenKind} (n : Nat) (hnext : next ≠ some .identifier) :
      IdentifierList (List.replicate (n + 2) .identifier) next

/-- One copied file or more, with commas between them. -/
inductive CopyPairs : List TokenKind → Prop where
  | one : CopyPairs [.text, .arrow, .text]
  | more {pairs : List TokenKind} (hpairs : CopyPairs pairs) :
      CopyPairs (pairs ++ [.comma, .text, .arrow, .text])

/-- The inside of a `copy` scope. -/
inductive CopyBody : List TokenKind → Prop where
  | empty : CopyBody []
  | pairs {pairs : List TokenKind} (hpairs : CopyPairs pairs) : CopyBody pairs
  | trailingComma {pairs : List TokenKind} (hpairs : CopyPairs pairs) :
      CopyBody (pairs ++ [.comma])

/-! ## Derivations -/

/-- What a word can be derived from. -/
inductive Nonterminal where
  | statement
  | statements
  | uses

/-- The words that a nonterminal derives in front of `next`. -/
inductive Derives : Nonterminal → List TokenKind → Option TokenKind → Prop where
  | definition {next : Option TokenKind} (scope : DefinitionScope) :
      Derives .statement [definitionKeyword scope, .identifier, .equals, .text] next
  | matchBlock {body uses : List TokenKind} {next : Option TokenKind}
      (hbody : Derives .statements body (some .rightBrace)) (huses : Derives .uses uses next) :
      Derives .statement (.matchKeyword :: .leftBrace :: (body ++ .rightBrace :: uses)) next
  | anyBlock {uses : List TokenKind} {next : Option TokenKind} (huses : Derives .uses uses next) :
      Derives .statement (.anyKeyword :: uses) next
  | setAll {next : Option TokenKind} (target : Target) :
      Derives .statement [.target target, .equals, .text] next
  | listing {body : List TokenKind} {next : Option TokenKind} (target : Target)
      (hbody : Derives .statements body (some .rightBrace)) :
      Derives .statement (.target target :: .leftBrace :: (body ++ [.rightBrace])) next
  | mapAll {first rest : List TokenKind} {next : Option TokenKind} (target : Target)
      (hfirst : IdentifierList first (follow rest (some .rightBrace)))
      (hrest : Derives .statements rest (some .rightBrace)) :
      Derives .statement
        (.target target :: .leftBrace :: (first ++ rest ++ [.rightBrace, .equals, .text])) next
  | predicate {next : Option TokenKind} : Derives .statement [.identifier, .equals, .text] next
  | model {next : Option TokenKind} : Derives .statement [.model, .equals, .text] next
  | weight {next : Option TokenKind} : Derives .statement [.weight, .equals, .text] next
  | identifiers {word : List TokenKind} {next : Option TokenKind}
      (hlist : IdentifierList word next) : Derives .statement word next
  | copy {body : List TokenKind} {next : Option TokenKind} (hbody : CopyBody body) :
      Derives .statement (.copy :: .leftBrace :: (body ++ [.rightBrace])) next
  | nil {next : Option TokenKind} : Derives .statements [] next
  | cons {first rest : List TokenKind} {next : Option TokenKind}
      (hfirst : Derives .statement first (follow rest next))
      (hrest : Derives .statements rest next) : Derives .statements (first ++ rest) next
  | noUses {next : Option TokenKind} : Derives .uses [] next
  | uses {body : List TokenKind} {next : Option TokenKind}
      (hbody : Derives .statements body (some .rightBrace)) :
      Derives .uses (.forKeyword :: .leftBrace :: (body ++ [.rightBrace])) next

/-- Whether the kinds of the tokens of a file follow the grammar. -/
def IsFile (kinds : List TokenKind) : Prop :=
  Derives .statements kinds none

/-! ## Growing a run of statements

The rule for runs puts a statement in front; the reader puts one behind. The words in between see
another token behind them once a statement is added, which is why `snoc` asks for the run in front
of that statement. -/

/-- A run of statements and one more statement behind it are a run of statements. Induction on the
run: its statements are derived in front of what follows them, which ends with the new one. -/
theorem Derives.snoc {run last : List TokenKind} {next : Option TokenKind}
    (hrun : Derives .statements run (follow last next)) (hlast : Derives .statement last next) :
    Derives .statements (run ++ last) next := by
  generalize hsymbol : Nonterminal.statements = symbol at hrun
  generalize hfollow : follow last next = after at hrun
  induction hrun with
  | nil =>
    have hone : Derives .statements (last ++ []) next := .cons hlast .nil
    simpa using hone
  | @cons first rest after hfirst hrest _ ih =>
    subst hfollow
    rw [List.append_assoc]
    refine .cons ?_ (ih rfl rfl)
    rwa [follow_append]
  | _ => cases hsymbol

/-- The runs of statements that start with a list of identifiers. -/
def Listed (word : List TokenKind) (next : Option TokenKind) : Prop :=
  ∃ first rest, word = first ++ rest ∧ IdentifierList first (follow rest next)
    ∧ Derives .statements rest next

/-- A run that starts with a list of identifiers still does with one more statement behind it. -/
theorem Listed.snoc {run last : List TokenKind} {next : Option TokenKind}
    (hrun : Listed run (follow last next)) (hlast : Derives .statement last next) :
    Listed (run ++ last) next := by
  obtain ⟨first, rest, rfl, hfirst, hrest⟩ := hrun
  refine ⟨first, rest ++ last, List.append_assoc .., ?_, hrest.snoc hlast⟩
  rwa [follow_append]

/-! ## What may stand behind a statement

A `for` continues a block and a `=` continues a listing. Neither starts a statement, so a statement
never takes one of them away from the statement in front of it. -/

/-- Whether a token of this kind ends whatever statement stands in front of it. -/
def Separates (next : Option TokenKind) : Prop :=
  next ≠ some .forKeyword ∧ next ≠ some .equals

/-- A statement is not empty, and its first token ends the statement in front of it. One look at the
first token of each rule is enough. -/
theorem Derives.starts {word : List TokenKind} {next : Option TokenKind}
    (h : Derives .statement word next) :
    ∃ kind rest, word = kind :: rest ∧ Separates (some kind) := by
  cases h with
  | definition scope => cases scope <;> exact ⟨_, _, rfl, by decide, by decide⟩
  | setAll target => exact ⟨_, _, rfl, by simp, by simp⟩
  | listing target _ => exact ⟨_, _, rfl, by simp, by simp⟩
  | mapAll target _ _ => exact ⟨_, _, rfl, by simp, by simp⟩
  | identifiers hlist => cases hlist <;> exact ⟨_, _, rfl, by decide, by decide⟩
  | _ => exact ⟨_, _, rfl, by decide, by decide⟩

/-- The first token of a run of statements ends the statement in front of it, or what follows the
run does if the run is empty. -/
theorem Derives.separates {word : List TokenKind} {next : Option TokenKind}
    (h : Derives .statements word next) (hnext : Separates next) :
    Separates (follow word next) := by
  cases h with
  | nil => exact hnext
  | cons hfirst _ =>
    obtain ⟨kind, rest, rfl, hkind⟩ := hfirst.starts
    exact hkind

end Reskin.Grammar
