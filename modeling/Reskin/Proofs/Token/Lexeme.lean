import Mathlib.Data.List.Infix
import Mathlib.Data.List.TakeWhile
import Reskin.Token.Piece

/-!
# What gaps and lexemes look like

A gap is made of blanks and comments, a lexeme is a text literal, a mark or a word. Here this is
said without the reader of pieces, and then shown of every piece that it takes.

* **`IsGap`**: the text of a gap in front of a given rest. The rest matters since a line comment
  goes on to the end of its line.
* **`IsLexeme`**: a literal with nothing but valid escapes, a mark, or a word.
* **`next_isPiece`**: what `Piece.next` can take, and what can follow it. A word that was taken
  cannot be continued, and an equals sign is not followed by the other half of an arrow.
-/

namespace Reskin

open Piece (startsComment isWordChar splitComment splitWord splitEscape splitLiteral)

/-! ## Gaps -/

/-- A gap in front of `rest`. -/
inductive IsGap (rest : List Char) : List Char → Prop where
  | nil : IsGap rest []
  | blank {c : Char} {text : List Char} (hc : Text.isBlank c = true) (htext : IsGap rest text) :
      IsGap rest (c :: text)
  | lineComment {inner text : List Char} (hinner : '\n' ∉ inner)
      (hend : ∀ c ∈ (text ++ rest).head?, c = '\n') (htext : IsGap rest text) :
      IsGap rest ('/' :: '/' :: (inner ++ text))
  | blockComment {inner text : List Char} (hinner : ¬['*', '/'] <:+: inner)
      (htext : IsGap rest text) :
      IsGap rest ('/' :: '*' :: (inner ++ '*' :: '/' :: text))

/-- A gap behind a gap is one gap. A line comment at the end of the first looks at what follows it,
which is the second. -/
theorem IsGap.append {a b rest : List Char} (ha : IsGap (b ++ rest) a) (hb : IsGap rest b) :
    IsGap rest (a ++ b) := by
  induction ha with
  | nil => exact hb
  | blank hc _ ih => exact .blank hc ih
  | @lineComment inner text hinner hend _ ih =>
    have hend' : ∀ c ∈ ((text ++ b) ++ rest).head?, c = '\n' := by
      rw [List.append_assoc]
      exact hend
    have hgap := IsGap.lineComment hinner hend' ih
    rwa [← List.append_assoc] at hgap
  | @blockComment inner text hinner _ ih =>
    have hgap := IsGap.blockComment hinner ih
    simpa using hgap

/-! ## Lexemes -/

/-- The inside of a text literal: no line break, no quote that would end it, and backslashes only in
escapes. -/
inductive IsLiteralBody (quote : Char) : List Char → Prop where
  | nil : IsLiteralBody quote []
  | plain {c : Char} {body : List Char} (hline : c ≠ '\n') (hbackslash : c ≠ '\\')
      (hquote : c ≠ quote) (hbody : IsLiteralBody quote body) : IsLiteralBody quote (c :: body)
  | escape {c : Char} {body : List Char}
      (hc : c ∈ ['n', 't', 'b', 'f', 'r', '"', '\'', '\\'] ∨ c.isDigit = true)
      (hbody : IsLiteralBody quote body) : IsLiteralBody quote ('\\' :: c :: body)
  | codePoint {digits body : List Char} (hlength : digits.length = 4)
      (hdigits : ∀ c ∈ digits, Literal.isHexDigit c = true) (hbody : IsLiteralBody quote body) :
      IsLiteralBody quote ('\\' :: 'u' :: (digits ++ body))

/-- A text literal with its quotes. -/
def IsLiteral (text : List Char) : Prop :=
  ∃ quote body, isQuote quote = true ∧ IsLiteralBody quote body
    ∧ text = quote :: (body ++ [quote])

/-- The texts of marks. -/
def marks : List (List Char) :=
  [[','], ['('], [')'], ['\x7b'], ['\x7d'], ['='], ['>'], ['=', '>']]

/-- A word: no blanks, quotes and marks in it, and no comment starts in it. -/
structure IsWord (text : List Char) : Prop where
  ne_nil : text ≠ []
  isWordChar : ∀ c ∈ text, isWordChar c = true
  no_lineComment : ¬['/', '/'] <:+: text
  no_blockComment : ¬['/', '*'] <:+: text

/-- The text of a token. -/
inductive IsLexeme (text : List Char) : Prop where
  | literal (h : IsLiteral text)
  | mark (h : text ∈ marks)
  | word (h : IsWord text)

/-! ## Ends and lines

A lexeme is never empty, stays on its line and does not end in a blank. -/

theorem IsLexeme.ne_nil {text : List Char} (h : IsLexeme text) : text ≠ [] := by
  rintro rfl
  cases h with
  | literal hliteral =>
    obtain ⟨_, _, _, _, heq⟩ := hliteral
    cases heq
  | mark hmark => exact absurd hmark (by decide)
  | word hword => exact hword.ne_nil rfl

/-- A literal stays on its line. -/
theorem not_mem_of_isLiteralBody {quote : Char} {body : List Char}
    (h : IsLiteralBody quote body) : '\n' ∉ body := by
  induction h with
  | nil => exact List.not_mem_nil
  | plain hline _ _ _ ih => exact List.not_mem_cons_of_ne_of_not_mem (Ne.symm hline) ih
  | escape hc _ ih =>
    -- A line break is none of the characters that can be escaped.
    refine List.not_mem_cons_of_ne_of_not_mem (by decide) ?_
    refine List.not_mem_cons_of_ne_of_not_mem (fun heq => ?_) ih
    subst heq
    revert hc
    decide
  | codePoint _ hdigits _ ih =>
    refine List.not_mem_cons_of_ne_of_not_mem (by decide) ?_
    refine List.not_mem_cons_of_ne_of_not_mem (by decide) ?_
    refine fun hmem => (List.mem_append.mp hmem).elim (fun hmem => ?_) ih
    exact absurd (hdigits _ hmem) (by decide)

theorem IsLexeme.newline_not_mem {text : List Char} (h : IsLexeme text) : '\n' ∉ text := by
  intro hmem
  cases h with
  | literal h =>
    obtain ⟨quote, body, hquote, hbody, rfl⟩ := h
    have hne : '\n' ≠ quote := fun heq => absurd (heq ▸ hquote) (by decide)
    rcases List.mem_append.mp (List.mem_of_ne_of_mem hne hmem) with hmem | hmem
    · exact not_mem_of_isLiteralBody hbody hmem
    · exact hne (List.mem_singleton.mp hmem)
  | mark h =>
    have hmarks : ∀ mark ∈ marks, '\n' ∉ mark := by decide
    exact hmarks _ h hmem
  | word h => exact absurd (h.isWordChar '\n' hmem) (by decide)

/-- A lexeme does not end in a carriage return, which is a blank and no part of a word, mark or
quote. -/
theorem IsLexeme.getLast?_ne_return {text : List Char} (h : IsLexeme text) :
    text.getLast? ≠ some '\r' := by
  intro hlast
  cases h with
  | literal h =>
    obtain ⟨quote, body, hquote, -, rfl⟩ := h
    rw [← List.cons_append, List.getLast?_concat] at hlast
    cases hlast
    cases hquote
  | mark h =>
    have hmarks : ∀ mark ∈ marks, mark.getLast? ≠ some '\r' := by decide
    exact hmarks _ h hlast
  | word h => exact absurd (h.isWordChar '\r' (List.mem_of_getLast? hlast)) (by decide)

/-! ## Comments -/

theorem startsComment_iff {cs : List Char} :
    startsComment cs = true ↔ ['/', '/'] <+: cs ∨ ['/', '*'] <+: cs := by
  fun_cases startsComment cs with
  | case1 rest => simp
  | case2 rest => simp
  | case3 cs hline hblock =>
    refine ⟨fun h => absurd h Bool.false_ne_true, ?_⟩
    rintro (⟨rest, rfl⟩ | ⟨rest, rfl⟩)
    · exact absurd rfl (hline rest)
    · exact absurd rfl (hblock rest)

/-- The rest of a block comment holds its first end: nothing in front of it closes the comment. -/
theorem splitComment_eq_some {cs inner after : List Char}
    (h : splitComment cs = some (inner, after)) :
    ∃ body, inner = body ++ ['*', '/'] ∧ ¬['*', '/'] <:+: body := by
  fun_induction splitComment cs generalizing inner after with
  | case1 => cases h
  | case2 rest =>
    simp only [Option.some.injEq, Prod.mk.injEq] at h
    exact ⟨[], h.1.symm, by decide⟩
  | case3 c rest hopen ih =>
    obtain ⟨⟨inner', after'⟩, hrest, heq⟩ := Option.map_eq_some_iff.mp h
    simp only [Prod.mk.injEq] at heq
    obtain ⟨body, hinner, hbody⟩ := ih hrest
    refine ⟨c :: body, by rw [← heq.1, hinner]; rfl, fun hinfix => ?_⟩
    rcases List.infix_cons_iff.mp hinfix with hprefix | hinfix
    · -- The end would stand at the very start, where the reader would have stopped.
      obtain ⟨tail, htail⟩ := hprefix
      have hrest' := Piece.splitComment_text hrest
      rw [hinner] at hrest'
      cases body with
      | nil => simp at htail
      | cons d body =>
        simp only [List.cons_append, List.nil_append, List.cons.injEq] at htail
        refine hopen (body ++ ['*', '/'] ++ after') htail.1.symm ?_
        rw [← hrest', ← htail.2.1]
        rfl
    · exact hbody hinfix

/-! ## Words -/

theorem isWordChar_of_mem_splitWord {cs : List Char} {c : Char} (h : c ∈ (splitWord cs).1) :
    isWordChar c = true := by
  induction cs with
  | nil => cases h
  | cons d rest ih =>
    rw [splitWord] at h
    split at h
    · next hcond =>
      rw [Bool.and_eq_true] at hcond
      rcases List.mem_cons.mp h with rfl | h
      · exact hcond.1
      · exact ih h
    · cases h

/-- No comment starts in a word that was split off. If one did, it would start at some character of
the text, and the word would have ended there. -/
theorem not_infix_splitWord {cs start : List Char}
    (hstart : start = ['/', '/'] ∨ start = ['/', '*']) : ¬start <:+: (splitWord cs).1 := by
  induction cs with
  | nil =>
    intro hinfix
    have hnil := List.infix_nil.mp hinfix
    rcases hstart with rfl | rfl <;> cases hnil
  | cons c rest ih =>
    intro hinfix
    have htext := Piece.splitWord_text (c :: rest)
    rw [splitWord] at hinfix htext
    split at hinfix
    · next hcond =>
      rw [if_pos hcond] at htext
      rw [Bool.and_eq_true, Bool.not_eq_true'] at hcond
      rcases List.infix_cons_iff.mp hinfix with hprefix | hinfix
      · -- A comment at the front of the word is a comment at the front of the text.
        have hopen : start <+: c :: rest := htext ▸ hprefix.trans (List.prefix_append _ _)
        have hcomment : startsComment (c :: rest) = true := by
          rw [startsComment_iff]
          rcases hstart with rfl | rfl
          · exact .inl hopen
          · exact .inr hopen
        rw [hcomment] at hcond
        exact Bool.false_ne_true hcond.2.symm
      · exact ih hinfix
    · have hnil := List.infix_nil.mp hinfix
      rcases hstart with rfl | rfl <;> cases hnil

/-- Whether a text goes on with a word that stands in front of it. -/
def continuesWord (cs : List Char) : Bool :=
  cs.head?.any isWordChar && !startsComment cs

theorem continuesWord_splitWord (cs : List Char) : continuesWord (splitWord cs).2 = false := by
  induction cs with
  | nil => rfl
  | cons c rest ih =>
    rw [splitWord]
    split
    · exact ih
    · next hcond => exact eq_false_of_ne_true hcond

/-- A character of a word, together with the word that is split off behind it, is a word. -/
theorem isWord_cons_splitWord {c : Char} {rest : List Char} (hc : isWordChar c = true)
    (hcomment : startsComment (c :: rest) = false) : IsWord (c :: (splitWord rest).1) := by
  have hword : (splitWord (c :: rest)).1 = c :: (splitWord rest).1 := by
    rw [splitWord, if_pos (by rw [hc, hcomment]; rfl)]
  rw [← hword]
  refine ⟨by rw [hword]; exact List.cons_ne_nil _ _, fun _ => isWordChar_of_mem_splitWord, ?_, ?_⟩
  · exact not_infix_splitWord (.inl rfl)
  · exact not_infix_splitWord (.inr rfl)

/-! ## Text literals -/

theorem escape?_isSome {c : Char} (h : (Literal.escape? c).isSome = true) :
    c ∈ ['n', 't', 'b', 'f', 'r', '"', '\'', '\\'] ∨ c.isDigit = true := by
  unfold Literal.escape? at h
  split at h
  all_goals try exact .inl (by decide)
  split at h
  · next hdigit => exact .inr hdigit
  · cases h

/-- An escape and the inside of a literal are the inside of a literal. The escapes that are accepted
are those of the grammar. -/
theorem isLiteralBody_escape {quote : Char} {offset : Nat} {cs escape after body : List Char}
    (h : splitEscape offset cs = .ok (escape, after)) (hbody : IsLiteralBody quote body) :
    IsLiteralBody quote ('\\' :: (escape ++ body)) := by
  unfold splitEscape at h
  split at h
  · cases h
  · cases h
  · next rest =>
    dsimp only at h
    split at h
    · next hlength =>
      cases h
      exact .codePoint hlength (fun c hc => List.mem_takeWhile_imp hc) hbody
    · cases h
  · split at h
    · next hsome =>
      cases h
      exact .escape (escape?_isSome hsome) hbody
    · cases h

/-- What is taken of a literal is its inside and the quote that ends it. The induction follows the
reader. -/
theorem splitLiteral_eq_ok {quote : Char} {offset : Nat} {cs inner after : List Char}
    (h : splitLiteral quote offset cs = .ok (inner, after)) :
    ∃ body, IsLiteralBody quote body ∧ inner = body ++ [quote] := by
  fun_induction splitLiteral quote offset cs generalizing inner after with
  | case1 => cases h
  | case2 => cases h
  | case3 => cases h
  | case4 => cases h
  | case5 offset rest escape next hescape inner' after' hrest _ ih =>
    cases h
    obtain ⟨body, hbody, rfl⟩ := ih hrest
    exact ⟨_, isLiteralBody_escape hescape hbody, by simp⟩
  | case6 =>
    cases h
    exact ⟨[], .nil, rfl⟩
  | case7 => cases h
  | case8 offset c rest hline hbackslash hquote inner' after' hrest ih =>
    cases h
    obtain ⟨body, hbody, rfl⟩ := ih hrest
    exact ⟨c :: body, .plain hline hbackslash hquote hbody, rfl⟩

/-! ## One piece -/

/-- A piece in front of `after`. -/
inductive IsPiece (after : List Char) : Piece → Prop where
  | gap {text : List Char} (hne : text ≠ []) (htext : IsGap after text) : IsPiece after (.gap text)
  | literal {text : List Char} (htext : IsLiteral text) : IsPiece after (.lexeme text)
  | mark {text : List Char} (htext : text ∈ marks)
      (harrow : text = ['='] → after.head? ≠ some '>') : IsPiece after (.lexeme text)
  | word {text : List Char} (htext : IsWord text) (hafter : continuesWord after = false) :
      IsPiece after (.lexeme text)

theorem isGap_lineComment (rest : List Char) :
    IsGap (rest.dropWhile (· ≠ '\n')) ('/' :: '/' :: rest.takeWhile (· ≠ '\n')) := by
  have hinner : '\n' ∉ rest.takeWhile (· ≠ '\n') := by
    intro hmem
    have hne := List.mem_takeWhile_imp hmem
    simp at hne
  have hend : ∀ c ∈ ([] ++ rest.dropWhile (· ≠ '\n')).head?, c = '\n' := by
    intro c hc
    have hnot := List.head?_dropWhile_not (· ≠ '\n') rest
    rw [List.nil_append, Option.mem_def] at hc
    rw [hc] at hnot
    simpa using hnot
  have hgap := IsGap.lineComment hinner hend .nil
  rwa [List.append_nil] at hgap

theorem singleton_mem_marks {c : Char} (h : Piece.isMark c = true) : [c] ∈ marks := by
  have hmem : c ∈ [',', '(', ')', '\x7b', '\x7d', '=', '>'] := List.contains_iff_mem.mp h
  simp only [List.mem_cons, List.not_mem_nil, or_false] at hmem
  rcases hmem with rfl | rfl | rfl | rfl | rfl | rfl | rfl <;> decide

/-- **The next piece is a gap, a literal, a mark or a word**, and is as long as it can be. The
reader tries these one after the other, so each case knows what the ones before it excluded. -/
theorem next_isPiece {c : Char} {rest after : List Char} {piece : Piece}
    (h : Piece.next c rest = .ok (piece, after)) : IsPiece after piece := by
  unfold Piece.next at h
  split at h
  · next hblank =>
    cases h
    exact .gap (List.cons_ne_nil _ _) (.blank hblank .nil)
  next hblank =>
  split at h
  · next hline =>
    obtain ⟨rfl, hhead⟩ := hline
    obtain ⟨tail, rfl⟩ := List.head?_eq_some_iff.mp hhead
    cases h
    exact .gap (List.cons_ne_nil _ _) (isGap_lineComment tail)
  next hline =>
  split at h
  · next hblock =>
    obtain ⟨rfl, hhead⟩ := hblock
    obtain ⟨tail, rfl⟩ := List.head?_eq_some_iff.mp hhead
    split at h
    · next hcomment =>
      cases h
      obtain ⟨body, rfl, hbody⟩ := splitComment_eq_some hcomment
      exact .gap (List.cons_ne_nil _ _) (.blockComment hbody .nil)
    · cases h
  next hblock =>
  split at h
  · next hquote =>
    split at h
    · next hliteral =>
      cases h
      obtain ⟨body, hbody, rfl⟩ := splitLiteral_eq_ok hliteral
      exact .literal ⟨c, body, hquote, hbody, rfl⟩
    · cases h
  next hquote =>
  split at h
  · cases h
    exact .mark (by decide) fun hequals => absurd hequals (by decide)
  next harrow =>
  split at h
  · next hmark =>
    cases h
    refine .mark (singleton_mem_marks hmark) fun hequals hgreater => ?_
    exact harrow ⟨List.head_eq_of_cons_eq hequals, hgreater⟩
  · next hmark =>
    cases h
    -- Nothing else claimed the character, so it is a character of a word.
    have hword : isWordChar c = true := by
      simp only [isWordChar, Bool.not_eq_true', Bool.or_eq_false_iff]
      exact ⟨⟨eq_false_of_ne_true hblank, eq_false_of_ne_true hquote⟩, eq_false_of_ne_true hmark⟩
    have hcomment : startsComment (c :: rest) = false := by
      rw [← Bool.not_eq_true, startsComment_iff]
      rintro (⟨tail, htail⟩ | ⟨tail, htail⟩)
      · cases htail
        exact hline ⟨rfl, rfl⟩
      · cases htail
        exact hblock ⟨rfl, rfl⟩
    exact .word (isWord_cons_splitWord hword hcomment) (continuesWord_splitWord rest)

/-- Where a comment starts, no lexeme is taken. -/
theorem next_ne_lexeme {c : Char} {rest text after : List Char}
    (hcomment : startsComment (c :: rest) = true) :
    Piece.next c rest ≠ .ok (.lexeme text, after) := by
  have hblank : ¬Text.isBlank '/' = true := by decide
  intro h
  unfold Piece.next at h
  rcases startsComment_iff.mp hcomment with ⟨tail, htail⟩ | ⟨tail, htail⟩
  · cases htail
    rw [if_neg hblank, if_pos ⟨rfl, rfl⟩] at h
    cases h
  · cases htail
    rw [if_neg hblank, if_neg (by simp), if_pos ⟨rfl, rfl⟩] at h
    split at h <;> cases h

end Reskin
