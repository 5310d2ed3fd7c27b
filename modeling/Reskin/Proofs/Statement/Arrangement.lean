import Mathlib.Data.List.Perm.Basic
import Reskin.Proofs.List
import Reskin.Proofs.Reader.Pieces
import Reskin.Proofs.Statement.Placement

/-!
# Definitions that are moved

A definition can stand anywhere between the other statements of a file. `Statement.Rearranges` says
that two lists of statements differ in this way, and `Moves` says it of the pieces that a file is
cut into, before anything is read. Pieces that are no definitions keep their order.

* **`Statement.check_of_rearranges`** — moved definitions break no rule.
* **`Moves.exists_read`** — the statements of a file whose pieces are moved.
-/

namespace Reskin

open Grammar

/-! ## Statements -/

namespace Statement

def isDefinition : Statement → Bool
  | definition _ _ _ => true
  | _ => false

/-- Two lists with the same statements, of which only definitions may have moved. -/
structure Rearranges (statements moved : List Statement) : Prop where
  perm : statements.Perm moved
  others_eq : statements.filter (fun statement => !statement.isDefinition)
    = moved.filter fun statement => !statement.isDefinition

variable {statements moved : List Statement}

/-- A file breaks no rule if none of its statements does, each looked at alone. -/
theorem check_eq_nil_iff :
    Statement.check statements = []
      ↔ ∀ statement ∈ statements, statement.violations .file = [] := by
  refine ⟨fun h statement hmem => violations_of_mem h hmem, fun h => ?_⟩
  unfold check
  induction statements with
  | nil => rfl
  | cons first rest ih =>
    rw [List.forall_mem_cons] at h
    rw [violationsAll, h.1, ih h.2, List.append_nil]

/-- Moved definitions break no rule, since the rules do not look at the order of the statements of a
file. -/
theorem check_of_rearranges (h : Rearranges statements moved)
    (hcheck : Statement.check statements = []) : Statement.check moved = [] := by
  rw [check_eq_nil_iff] at hcheck ⊢
  intro statement hmem
  exact hcheck statement (h.perm.mem_iff.mpr hmem)

/-- There are lists of identifiers in listings only, so a file that breaks no rule can be cut into
its statements. -/
theorem isIdentifiers_eq_false_of_check (h : Statement.check statements = []) :
    ∀ statement ∈ statements, statement.isIdentifiers = false := by
  intro statement hmem
  cases inFile_of_check h statement hmem <;> rfl

end Statement

/-! ## Pieces -/

/-- Whether the texts of some tokens are those of a definition. -/
def isDefinitionTexts (texts : List String) : Bool :=
  [DefinitionScope.file, .global].any fun scope =>
    texts.map TokenKind.ofText = [definitionKeyword scope, .identifier, .equals, .text]

/-- The pieces of two files, by the texts of their tokens. A piece is one or more statements of the
file, and only pieces that are definitions may have moved. -/
structure Moves (pieces moved : List (List String)) : Prop where
  isFile : ∀ piece ∈ pieces, IsFile (piece.map TokenKind.ofText)
  perm : pieces.Perm moved
  others_eq : pieces.filter (fun piece => !isDefinitionTexts piece)
    = moved.filter fun piece => !isDefinitionTexts piece

/-- Tokens of the kinds of a definition are read as one definition. -/
theorem Statement.exists_read_definition {tokens : List Token} {scope : DefinitionScope}
    (h : tokens.map Token.kind = [definitionKeyword scope, .identifier, .equals, .text]) :
    ∃ keyword assignment, Statement.read tokens = .ok [.definition scope keyword assignment] := by
  obtain ⟨keyword, rest, rfl, hkeyword, h⟩ := List.map_eq_cons_iff.mp h
  obtain ⟨name, rest, rfl, hname, h⟩ := List.map_eq_cons_iff.mp h
  obtain ⟨sign, rest, rfl, hsign, h⟩ := List.map_eq_cons_iff.mp h
  obtain ⟨value, rest, rfl, hvalue, h⟩ := List.map_eq_cons_iff.mp h
  cases List.map_eq_nil_iff.mp h
  refine ⟨keyword, ⟨name, sign, value⟩, ?_⟩
  cases scope <;>
    simp [Statement.read, Reader.run, Reader.step, Reader.start, Reader.finish, Reader.settle,
      Reader.await, Reader.add, Pending.expected, Pending.complete, AssignmentKind.statement,
      hkeyword, hname, hsign, hvalue, definitionKeyword]

/-! ## Reading moved pieces -/

/-- A token of which only the text and the file are known. -/
def Token.bare (file : Option FileId) (text : String) : Token :=
  ⟨text, 0, 0, file⟩

theorem Token.map_kind_bare (file : Option FileId) (texts : List String) :
    (texts.map (Token.bare file)).map Token.kind = texts.map TokenKind.ofText := by
  rw [List.map_map]
  rfl

/-- Texts of tokens that can be read follow the grammar. -/
theorem isFile_of_isOk {texts : List String}
    (h : (Statement.read (texts.map (Token.bare none))).isOk = true) :
    IsFile (texts.map TokenKind.ofText) := by
  cases hread : Statement.read (texts.map (Token.bare none)) with
  | error diagnostic =>
    rw [hread] at h
    cases h
  | ok statements =>
    rw [← Token.map_kind_bare none]
    exact Statement.isFile_of_read hread

theorem others_ofTokens_of_isDefinitionTexts {texts : List String} (file : Option FileId)
    (h : isDefinitionTexts texts = true) :
    (Statement.ofTokens (texts.map (Token.bare file))).filter (fun statement =>
      !statement.isDefinition) = [] := by
  obtain ⟨scope, -, hkinds⟩ := List.any_eq_true.mp h
  rw [decide_eq_true_eq, ← Token.map_kind_bare file] at hkinds
  obtain ⟨keyword, assignment, hread⟩ := Statement.exists_read_definition hkinds
  rw [Statement.ofTokens_of_read hread]
  rfl

namespace Moves

variable {pieces moved : List (List String)} (h : Moves pieces moved) (file : Option FileId)
include h

/-- The statements of moved pieces are those of the pieces, with definitions moved. A piece that is
a definition has no other statement, so the others come from pieces that did not move. -/
theorem rearranges :
    Statement.Rearranges
      (pieces.flatMap fun piece => Statement.ofTokens (piece.map (Token.bare file)))
      (moved.flatMap fun piece => Statement.ofTokens (piece.map (Token.bare file))) where
  perm := h.perm.flatMap_right _
  others_eq := by
    have hothers : ∀ texts : List (List String),
        (texts.flatMap fun piece => Statement.ofTokens (piece.map (Token.bare file))).filter
            (fun statement => !statement.isDefinition)
          = (texts.filter fun piece => !isDefinitionTexts piece).flatMap fun piece =>
            (Statement.ofTokens (piece.map (Token.bare file))).filter fun statement =>
              !statement.isDefinition := by
      intro texts
      rw [List.filter_flatMap, flatMap_filter_of_nil]
      intro piece _ hpiece
      exact others_ofTokens_of_isDefinitionTexts file (by simpa using hpiece)
    rw [hothers, hothers, h.others_eq]

/-- **A file whose definitions are moved is read**, and has the same statements but for this. There
is no list of identifiers among them, so the statements of a file are those of its pieces. -/
theorem exists_read {statements : List Statement}
    (hread : Statement.read (pieces.flatten.map (Token.bare file)) = .ok statements)
    (hcheck : Statement.check statements = []) :
    ∃ others, Statement.read (moved.flatten.map (Token.bare file)) = .ok others
      ∧ Statement.Rearranges statements others := by
  have hisFile : ∀ piece ∈ pieces.map (List.map (Token.bare file)),
      IsFile (piece.map Token.kind) := by
    rw [List.forall_mem_map]
    intro piece hpiece
    rw [Token.map_kind_bare]
    exact h.isFile piece hpiece
  have hmoved : ∀ piece ∈ moved.map (List.map (Token.bare file)),
      IsFile (piece.map Token.kind) := by
    intro piece hpiece
    exact hisFile piece ((h.perm.map _).mem_iff.mpr hpiece)
  rw [List.map_flatten] at hread ⊢
  have hlist := Statement.isIdentifiers_eq_false_of_check hcheck
  have hstatements := Statement.eq_flatMap_of_read hisFile hread hlist
  rw [List.flatMap_map] at hstatements
  have hrearranges := h.rearranges file
  rw [← hstatements] at hrearranges
  refine ⟨_, ?_, hrearranges⟩
  rw [← List.flatMap_map]
  apply Statement.read_flatten hmoved
  rw [List.flatMap_map]
  intro statement hmem
  exact hlist statement (hrearranges.perm.mem_iff.mpr hmem)

end Moves

end Reskin
