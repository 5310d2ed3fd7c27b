import Reskin.Proofs.Token.Tiling

/-!
# Layout does not change the tokens

`Proofs.Token.Lexeme` says what the reader of pieces can take. Here the other direction: a gap and a
lexeme are taken as such wherever they stand, as long as a lexeme is followed by a blank or by
nothing. So lexemes can be laid out in any way, and the tokens of the text are these lexemes.

* **`IsSeparator`**: a blank, and then blanks and comments that are closed.
* **`next_of_isLexeme`**: one lexeme is taken whole, whatever stands behind the blank after it.
* **`Lexes`**: the lexemes of a text. `Lexes.gap` and `Lexes.lexeme` put one more piece in front.
* **`scan_layOut`**: the tokens of lexemes with separators between them are the lexemes; hence the
  tokens of a text are those of its tokens with single blanks between them.
-/

namespace Reskin

open Piece (isMark startsComment isWordChar splitComment splitWord splitEscape splitLiteral)

/-! ## Separators -/

/-- Blanks, block comments and line comments with the line break behind them. -/
inductive IsLayout : List Char → Prop where
  | nil : IsLayout []
  | blank {c : Char} {text : List Char} (hc : Text.isBlank c = true) (htext : IsLayout text) :
      IsLayout (c :: text)
  | lineComment {inner text : List Char} (hinner : '\n' ∉ inner) (htext : IsLayout text) :
      IsLayout ('/' :: '/' :: (inner ++ '\n' :: text))
  | blockComment {inner text : List Char} (hinner : ¬['*', '/'] <:+: inner)
      (htext : IsLayout text) : IsLayout ('/' :: '*' :: (inner ++ '*' :: '/' :: text))

/-- What may stand between two lexemes. -/
structure IsSeparator (text : List Char) : Prop where
  isLayout : IsLayout text
  starts : ∃ c rest, text = c :: rest ∧ Text.isBlank c = true

/-- Layout is a gap in front of whatever follows, since its line comments are ended by line breaks
of their own. -/
theorem IsLayout.isGap {text : List Char} (h : IsLayout text) (rest : List Char) :
    IsGap rest text := by
  induction h with
  | nil => exact .nil
  | blank hc _ ih => exact .blank hc ih
  | lineComment hinner _ ih =>
    -- The line break ends the comment and is a blank of its own.
    refine .lineComment hinner ?_ (.blank (by decide) ih)
    intro c hc
    cases hc
    rfl
  | blockComment hinner _ ih => exact .blockComment hinner ih

/-- Nothing follows, or a blank does. -/
def EndsLexeme (after : List Char) : Prop :=
  ∀ c ∈ after.head?, Text.isBlank c = true

theorem EndsLexeme.head?_ne {after : List Char} (h : EndsLexeme after) {c : Char}
    (hc : Text.isBlank c = false) : after.head? ≠ some c := by
  intro hhead
  have hblank : Text.isBlank c = true := h c hhead
  rw [hc] at hblank
  cases hblank

theorem IsSeparator.endsLexeme {text : List Char} (h : IsSeparator text) (rest : List Char) :
    EndsLexeme (text ++ rest) := by
  obtain ⟨c, more, rfl, hc⟩ := h.starts
  intro d hd
  cases hd
  exact hc

/-! ## Gaps are skipped -/

/-- A block comment is taken up to its first end. -/
theorem splitComment_append {inner : List Char} (hinner : ¬['*', '/'] <:+: inner)
    (after : List Char) :
    splitComment (inner ++ '*' :: '/' :: after) = some (inner ++ ['*', '/'], after) := by
  induction inner with
  | nil => rfl
  | cons c inner ih =>
    have hrest : ¬['*', '/'] <:+: inner := fun h =>
      hinner (h.trans (List.suffix_cons c inner).isInfix)
    have hopen : ∀ rest, c = '*' → inner ++ '*' :: '/' :: after ≠ '/' :: rest := by
      -- If the comment ended here, its end would stand in `inner`.
      rintro rest rfl heq
      cases inner with
      | nil => cases heq
      | cons d more =>
        cases List.head_eq_of_cons_eq heq
        exact hinner ⟨[], more, rfl⟩
    rw [List.cons_append, splitComment, ih hrest]
    · rfl
    · exact hopen

/-- The pieces of a text are the next one and those of what it leaves. -/
theorem split_cons_of_next {c : Char} {rest after : List Char} {piece : Piece}
    (h : Piece.next c rest = .ok (piece, after)) :
    Piece.split (c :: rest) = (piece :: (Piece.split after).1, (Piece.split after).2) := by
  rw [Piece.split.eq_def]
  dsimp only
  split
  · next hnext =>
    rw [h] at hnext
    cases hnext
  · next hnext =>
    rw [h] at hnext
    cases hnext
    rfl

/-- The lexemes among pieces. -/
def Piece.lexemes (pieces : List Piece) : List (List Char) :=
  pieces.filterMap fun
    | .gap _ => none
    | .lexeme text => some text

/-- The lexemes of a text, which has no fault. -/
def Lexes (cs : List Char) (words : List (List Char)) : Prop :=
  (Piece.split cs).2 = none ∧ Piece.lexemes (Piece.split cs).1 = words

theorem lexes_nil : Lexes [] [] := by
  unfold Lexes
  rw [Piece.split.eq_def]
  exact ⟨rfl, rfl⟩

/-- A gap that is taken as the next piece adds no lexeme. -/
theorem Lexes.of_next_gap {c : Char} {rest after text : List Char} {words : List (List Char)}
    (h : Lexes after words) (hnext : Piece.next c rest = .ok (.gap text, after)) :
    Lexes (c :: rest) words := by
  unfold Lexes
  rw [split_cons_of_next hnext]
  exact h

theorem next_blank {c : Char} (hc : Text.isBlank c = true) (rest : List Char) :
    Piece.next c rest = .ok (.gap [c], rest) := by
  rw [Piece.next, if_pos hc]

theorem next_lineComment {inner after : List Char} (hinner : '\n' ∉ inner)
    (hend : ∀ c ∈ after.head?, c = '\n') :
    Piece.next '/' ('/' :: (inner ++ after)) = .ok (.gap ('/' :: '/' :: inner), after) := by
  have hline : ∀ c ∈ '/' :: inner, decide (c ≠ '\n') = true := by
    intro c hc
    rw [decide_eq_true_eq]
    rintro rfl
    rcases List.mem_cons.mp hc with h | h
    · exact absurd h (by decide)
    · exact hinner h
  have htake : after.takeWhile (· ≠ '\n') = [] ∧ after.dropWhile (· ≠ '\n') = after := by
    cases after with
    | nil => exact ⟨rfl, rfl⟩
    | cons c rest =>
      cases hend c rfl
      exact ⟨rfl, rfl⟩
  rw [Piece.next, if_neg (by decide), if_pos ⟨rfl, rfl⟩, ← List.cons_append,
    List.takeWhile_append_of_pos hline, List.dropWhile_append_of_pos hline, htake.1, htake.2,
    List.append_nil]

theorem next_blockComment {inner : List Char} (hinner : ¬['*', '/'] <:+: inner)
    (after : List Char) :
    Piece.next '/' ('*' :: (inner ++ '*' :: '/' :: after))
      = .ok (.gap ('/' :: '*' :: (inner ++ ['*', '/'])), after) := by
  rw [Piece.next, if_neg (by decide), if_neg (by simp), if_pos ⟨rfl, rfl⟩, List.tail_cons,
    splitComment_append hinner]

/-- A gap in front of a text adds no lexeme. The induction is on the gap, whose parts are taken as
one piece each. -/
theorem Lexes.gap {text rest : List Char} {words : List (List Char)} (h : Lexes rest words)
    (htext : IsGap rest text) : Lexes (text ++ rest) words := by
  induction htext with
  | nil => exact h
  | blank hc _ ih => exact ih.of_next_gap (next_blank hc _)
  | lineComment hinner hend _ ih =>
    simp only [List.cons_append, List.append_assoc]
    exact ih.of_next_gap (next_lineComment hinner hend)
  | blockComment hinner _ ih =>
    simp only [List.cons_append, List.append_assoc]
    exact ih.of_next_gap (next_blockComment hinner _)

/-! ## Lexemes are taken whole -/

theorem escape?_isSome_iff {c : Char} :
    (Literal.escape? c).isSome = true
      ↔ c ∈ ['n', 't', 'b', 'f', 'r', '"', '\'', '\\'] ∨ c.isDigit = true := by
  refine ⟨escape?_isSome, ?_⟩
  rintro (hc | hc)
  · simp only [List.mem_cons, List.not_mem_nil, or_false] at hc
    rcases hc with rfl | rfl | rfl | rfl | rfl | rfl | rfl | rfl <;> rfl
  · unfold Literal.escape?
    split
    all_goals try rfl
    rw [if_pos hc]
    rfl

theorem splitEscape_of_escape {c : Char}
    (hc : c ∈ ['n', 't', 'b', 'f', 'r', '"', '\'', '\\'] ∨ c.isDigit = true) (offset : Nat)
    (after : List Char) : splitEscape offset (c :: after) = .ok ([c], after) := by
  have hline : c ≠ '\n' := by
    rintro rfl
    revert hc
    decide
  have hcode : c ≠ 'u' := by
    rintro rfl
    revert hc
    decide
  rw [splitEscape, if_pos (escape?_isSome_iff.mpr hc)]
  · exact hline
  · exact hcode

theorem splitEscape_of_codePoint {digits : List Char} (hlength : digits.length = 4)
    (hdigits : ∀ c ∈ digits, Literal.isHexDigit c = true) (offset : Nat) (after : List Char) :
    splitEscape offset ('u' :: (digits ++ after)) = .ok ('u' :: digits, after) := by
  have htake : ((digits ++ after).take 4).takeWhile Literal.isHexDigit = digits := by
    rw [List.take_left' hlength, List.takeWhile_eq_self_iff]
    exact hdigits
  rw [splitEscape, htake, if_pos hlength, List.drop_left' hlength]

/-- The inside of a literal is taken up to the quote that ends it. The induction is on the inside,
one character or escape at a time. -/
theorem splitLiteral_append {quote : Char} {body : List Char} (hquote : isQuote quote = true)
    (hbody : IsLiteralBody quote body) (offset : Nat) (after : List Char) :
    splitLiteral quote offset (body ++ quote :: after) = .ok (body ++ [quote], after) := by
  have hline : quote ≠ '\n' := by
    rintro rfl
    revert hquote
    decide
  have hbackslash : quote ≠ '\\' := by
    rintro rfl
    revert hquote
    decide
  induction hbody generalizing offset with
  | nil => rw [List.nil_append, splitLiteral, if_neg hline, if_neg hbackslash, if_pos rfl]; rfl
  | plain hline hbackslash hquote _ ih =>
    rw [List.cons_append, splitLiteral, if_neg hline, if_neg hbackslash, if_neg hquote, ih]
    rfl
  | @escape c body hc _ ih =>
    rw [List.cons_append, List.cons_append, splitLiteral, if_neg (by decide), if_pos rfl]
    split
    · next hescape =>
      rw [splitEscape_of_escape hc] at hescape
      cases hescape
    · next hescape =>
      rw [splitEscape_of_escape hc] at hescape
      cases hescape
      rw [ih]
      rfl
  | @codePoint digits body hlength hdigits _ ih =>
    rw [List.cons_append, List.cons_append, List.append_assoc, splitLiteral, if_neg (by decide),
      if_pos rfl]
    split
    · next hescape =>
      rw [splitEscape_of_codePoint hlength hdigits] at hescape
      cases hescape
    · next hescape =>
      rw [splitEscape_of_codePoint hlength hdigits] at hescape
      cases hescape
      rw [ih]
      simp

theorem isQuote_iff {c : Char} : isQuote c = true ↔ c = '"' ∨ c = '\'' := by
  simp [isQuote]

theorem next_literal {quote : Char} {body : List Char} (hquote : isQuote quote = true)
    (hbody : IsLiteralBody quote body) (after : List Char) :
    Piece.next quote (body ++ quote :: after)
      = .ok (.lexeme (quote :: (body ++ [quote])), after) := by
  have hblank : ¬Text.isBlank quote = true := by
    rcases isQuote_iff.mp hquote with rfl | rfl <;> decide
  have hslash : quote ≠ '/' := by
    rintro rfl
    revert hquote
    decide
  rw [Piece.next, if_neg hblank, if_neg fun h => hslash h.1, if_neg fun h => hslash h.1,
    if_pos hquote, splitLiteral_append hquote hbody]

theorem next_mark {c : Char} {rest : List Char} (hmark : isMark c = true)
    (harrow : ¬(c = '=' ∧ rest.head? = some '>')) :
    Piece.next c rest = .ok (.lexeme [c], rest) := by
  obtain ⟨hblank, hslash, hquote⟩ : ¬Text.isBlank c = true ∧ c ≠ '/' ∧ ¬isQuote c = true := by
    have hmem : c ∈ [',', '(', ')', '\x7b', '\x7d', '=', '>'] := List.contains_iff_mem.mp hmark
    simp only [List.mem_cons, List.not_mem_nil, or_false] at hmem
    rcases hmem with rfl | rfl | rfl | rfl | rfl | rfl | rfl <;> decide
  rw [Piece.next, if_neg hblank, if_neg fun h => hslash h.1, if_neg fun h => hslash h.1,
    if_neg hquote, if_neg harrow, if_pos hmark]

theorem next_arrow (rest : List Char) :
    Piece.next '=' ('>' :: rest) = .ok (.lexeme ['=', '>'], rest) := by
  rw [Piece.next, if_neg (by decide), if_neg (by simp), if_neg (by simp), if_neg (by decide),
    if_pos ⟨rfl, rfl⟩, List.tail_cons]

/-- Neither in a word nor where it ends a comment starts: a slash at the end of the word has a blank
behind it, or nothing. -/
theorem IsWord.startsComment_append {c : Char} {more after : List Char} (h : IsWord (c :: more))
    (hafter : EndsLexeme after) : startsComment (c :: more ++ after) = false := by
  rw [← Bool.not_eq_true, startsComment_iff]
  -- The second character of a comment start is in the word, or it is the blank behind it.
  have hsecond : ∀ d, Text.isBlank d = false → ['/', d] <+: c :: more ++ after →
      ['/', d] <:+: c :: more := by
    rintro d hd ⟨rest, hrest⟩
    cases more with
    | nil =>
      simp only [List.cons_append, List.nil_append, List.cons.injEq] at hrest
      exact absurd (by rw [← hrest.2]; rfl) (hafter.head?_ne hd)
    | cons e more =>
      simp only [List.cons_append, List.nil_append, List.cons.injEq] at hrest
      obtain ⟨rfl, rfl, -⟩ := hrest
      exact ⟨[], more, rfl⟩
  rintro (hline | hblock)
  · exact h.no_lineComment (hsecond '/' (by decide) hline)
  · exact h.no_blockComment (hsecond '*' (by decide) hblock)

theorem IsWord.tail {c d : Char} {more : List Char} (h : IsWord (c :: d :: more)) :
    IsWord (d :: more) where
  ne_nil := List.cons_ne_nil _ _
  isWordChar e he := h.isWordChar e (List.mem_cons_of_mem c he)
  no_lineComment hinside := h.no_lineComment (hinside.trans (List.suffix_cons c _).isInfix)
  no_blockComment hinside := h.no_blockComment (hinside.trans (List.suffix_cons c _).isInfix)

theorem isWordChar_eq_false_of_isBlank {c : Char} (hc : Text.isBlank c = true) :
    isWordChar c = false := by
  rw [isWordChar, hc]
  rfl

theorem splitWord_of_endsLexeme {after : List Char} (h : EndsLexeme after) :
    splitWord after = ([], after) := by
  cases after with
  | nil => rfl
  | cons c rest =>
    have hc : isWordChar c = false := isWordChar_eq_false_of_isBlank (h c rfl)
    rw [splitWord, hc]
    rfl

/-- A word is taken whole where a blank or nothing follows it. -/
theorem splitWord_append {word after : List Char} (hword : IsWord word)
    (hafter : EndsLexeme after) : splitWord (word ++ after) = (word, after) := by
  induction word with
  | nil => exact absurd rfl hword.ne_nil
  | cons c more ih =>
    have hc : isWordChar c = true := hword.isWordChar c List.mem_cons_self
    have hcomment : startsComment (c :: (more ++ after)) = false :=
      hword.startsComment_append hafter
    have hmore : splitWord (more ++ after) = (more, after) := by
      cases more with
      | nil => exact splitWord_of_endsLexeme hafter
      | cons d more => exact ih hword.tail
    rw [List.cons_append, splitWord, hc, hcomment, hmore]
    rfl

theorem next_word {c : Char} {more after : List Char} (hword : IsWord (c :: more))
    (hafter : EndsLexeme after) :
    Piece.next c (more ++ after) = .ok (.lexeme (c :: more), after) := by
  have hc : isWordChar c = true := hword.isWordChar c List.mem_cons_self
  obtain ⟨⟨hblank, hquote⟩, hmark⟩ :
      (Text.isBlank c = false ∧ isQuote c = false) ∧ isMark c = false := by
    simpa only [isWordChar, Bool.not_eq_true', Bool.or_eq_false_iff] using hc
  have hcomment : startsComment (c :: (more ++ after)) = false := hword.startsComment_append hafter
  have hslash : ∀ d, (d = '/' ∨ d = '*') → ¬(c = '/' ∧ (more ++ after).head? = some d) := by
    rintro d hd ⟨rfl, hhead⟩
    obtain ⟨tail, htail⟩ := List.head?_eq_some_iff.mp hhead
    rw [htail] at hcomment
    rcases hd with rfl | rfl <;> cases hcomment
  have hequals : c ≠ '=' := by
    rintro rfl
    revert hmark
    decide
  have hrest : splitWord (more ++ after) = (more, after) := by
    cases more with
    | nil => exact splitWord_of_endsLexeme hafter
    | cons d more => exact splitWord_append hword.tail hafter
  rw [Piece.next, if_neg (by rw [hblank]; decide), if_neg (hslash '/' (.inl rfl)),
    if_neg (hslash '*' (.inr rfl)), if_neg (by rw [hquote]; decide), if_neg fun h => hequals h.1,
    if_neg (by rw [hmark]; decide), hrest]

/-- Every lexeme is the next piece where a blank or nothing follows it. An equals sign has to be
kept from becoming an arrow. -/
theorem next_of_isLexeme {c : Char} {more after : List Char} (h : IsLexeme (c :: more))
    (hafter : EndsLexeme after) :
    Piece.next c (more ++ after) = .ok (.lexeme (c :: more), after) := by
  cases h with
  | literal hliteral =>
    obtain ⟨quote, body, hquote, hbody, heq⟩ := hliteral
    cases heq
    rw [List.append_assoc]
    exact next_literal hquote hbody after
  | mark hmark =>
    have hequals : ¬(c = '=' ∧ after.head? = some '>') := fun h =>
      hafter.head?_ne (by decide) h.2
    simp only [marks, List.mem_cons, List.not_mem_nil, or_false] at hmark
    rcases hmark with h | h | h | h | h | h | h | h <;> cases h
    case mark.inr.inr.inr.inr.inr.inr.inr.refl => exact next_arrow after
    all_goals exact next_mark rfl hequals
  | word hword => exact next_word hword hafter

/-- A lexeme in front of a text adds itself, if a blank or nothing follows it. -/
theorem Lexes.lexeme {word after : List Char} {words : List (List Char)} (h : Lexes after words)
    (hword : IsLexeme word) (hafter : EndsLexeme after) :
    Lexes (word ++ after) (word :: words) := by
  obtain ⟨c, more, rfl⟩ := List.exists_cons_of_ne_nil hword.ne_nil
  unfold Lexes
  rw [List.cons_append, split_cons_of_next (next_of_isLexeme hword hafter)]
  exact ⟨h.1, congrArg _ h.2⟩

/-! ## Whole texts -/

/-- Lexemes with gaps between them: the first lexeme, then each gap with the lexeme behind it. -/
def layOut : List (List Char) → List (List Char) → List Char
  | [], _ => []
  | first :: rest, gaps => first ++ (List.zipWith (· ++ ·) gaps rest).flatten

/-- Lexemes with separators between them are read as these lexemes. Induction on the lexemes, from
the last one to the first. -/
theorem lexes_layOut {words gaps : List (List Char)} (hwords : ∀ word ∈ words, IsLexeme word)
    (hlength : gaps.length = words.length - 1) (hgaps : ∀ gap ∈ gaps, IsSeparator gap) :
    Lexes (layOut words gaps) words := by
  induction words generalizing gaps with
  | nil => exact lexes_nil
  | cons first words ih =>
    have hfirst : IsLexeme first := hwords first List.mem_cons_self
    cases words with
    | nil =>
      have hnil : gaps = [] := List.eq_nil_of_length_eq_zero hlength
      subst hnil
      exact lexes_nil.lexeme hfirst fun c hc => by cases hc
    | cons second words =>
      obtain ⟨gap, gaps, rfl⟩ : ∃ gap more, gaps = gap :: more :=
        List.exists_cons_of_length_eq_add_one hlength
      have hgap : IsSeparator gap := hgaps gap List.mem_cons_self
      have hrest : Lexes (layOut (second :: words) gaps) (second :: words) := by
        refine ih (fun word hword => hwords word (List.mem_cons_of_mem _ hword)) ?_
          fun other hother => hgaps other (List.mem_cons_of_mem _ hother)
        simpa using hlength
      have htext : layOut (first :: second :: words) (gap :: gaps)
          = first ++ (gap ++ layOut (second :: words) gaps) := by
        simp [layOut]
      rw [htext]
      exact (hrest.gap (hgap.isLayout.isGap _)).lexeme hfirst (hgap.endsLexeme _)

theorem text_place (file : Option FileId) (position : Position) (pieces : List Piece) :
    (Token.place file position pieces).1.map Token.text
      = (Piece.lexemes pieces).map String.ofList := by
  induction pieces generalizing position with
  | nil => rfl
  | cons piece pieces ih =>
    cases piece with
    | gap text => exact ih _
    | lexeme text => exact congrArg (String.ofList text :: ·) (ih _)

theorem isLexeme_of_mem_scan {source : String} {file : Option FileId} {tokens : List Token}
    (h : Token.scan source file = .ok tokens) {token : Token} (htoken : token ∈ tokens) :
    IsLexeme token.text.toList := by
  obtain ⟨tiles, last, htiling, tile, htile, rfl⟩ := exists_tile_of_mem_scan h htoken
  exact htiling.isLexeme tile htile

theorem Lexes.scan {cs : List Char} {words : List (List Char)} (h : Lexes cs words)
    (file : Option FileId) :
    ∃ tokens, Token.scan (String.ofList cs) file = .ok tokens
      ∧ tokens.map Token.text = words.map String.ofList := by
  refine ⟨(Token.place file {} (Piece.split cs).1).1, ?_, ?_⟩
  · unfold Token.scan
    rw [String.toList_ofList]
    dsimp only
    rw [h.1]
  · rw [text_place, h.2]

theorem intercalate_eq_layOut (words : List (List Char)) (gap : List Char) :
    gap.intercalate words = layOut words (List.replicate (words.length - 1) gap) := by
  induction words with
  | nil => rfl
  | cons first words ih =>
    cases words with
    | nil => simp [layOut, List.intercalate]
    | cons second words =>
      rw [List.intercalate_cons_cons, ih]
      simp [layOut, List.replicate_succ]

theorem isSeparator_blank : IsSeparator [' '] :=
  ⟨.blank (by decide) .nil, ' ', [], rfl, by decide⟩

/-- **Layout does not change the tokens.** Lexemes with separators between them are read as these
lexemes, whatever the separators are. In particular the tokens of a text are read again from their
texts with single blanks between them. -/
theorem scan_layOut :
    (∀ (words gaps : List (List Char)) (file : Option FileId),
      (∀ word ∈ words, IsLexeme word) → gaps.length = words.length - 1 →
      (∀ gap ∈ gaps, IsSeparator gap) →
      ∃ tokens, Token.scan (String.ofList (layOut words gaps)) file = .ok tokens
        ∧ tokens.map Token.text = words.map String.ofList)
    ∧ ∀ (source : String) (file : Option FileId) (tokens : List Token),
      Token.scan source file = .ok tokens →
      ∃ again, Token.scan (" ".intercalate (tokens.map Token.text)) file = .ok again
        ∧ again.map Token.text = tokens.map Token.text := by
  refine ⟨fun words gaps file hwords hlength hgaps =>
    (lexes_layOut hwords hlength hgaps).scan file, ?_⟩
  intro source file tokens hscan
  let words := tokens.map fun token => token.text.toList
  have hwords : ∀ word ∈ words, IsLexeme word := by
    intro word hword
    obtain ⟨token, htoken, rfl⟩ := List.mem_map.mp hword
    exact isLexeme_of_mem_scan hscan htoken
  have hblanks : ∀ gap ∈ List.replicate (words.length - 1) [' '], IsSeparator gap := by
    intro gap hgap
    rw [List.eq_of_mem_replicate hgap]
    exact isSeparator_blank
  obtain ⟨again, hagain, htexts⟩ :=
    (lexes_layOut hwords List.length_replicate hblanks).scan file
  refine ⟨again, ?_, ?_⟩
  · rw [← hagain, ← intercalate_eq_layOut]
    congr 1
    apply String.toList_inj.mp
    rw [String.toList_intercalate, List.map_map]
    exact String.toList_ofList.symm
  · rw [htexts, List.map_map]
    exact List.map_congr_left fun token _ => String.ofList_toList

/-- A word that ends like a comment starts, the two halves of an arrow, a literal with escapes and a
word that starts like a comment ends. -/
def scattered : List (List Char) :=
  ["a/".toList, "=".toList, ">".toList, "'x\\'\\u00e9'".toList, "*/b".toList]

/-- Comments with quotes, comment marks and the letters of an arrow in them. -/
def scatteredGaps : List (List Char) :=
  [" /*'\"**/".toList, "\t// */ >\n".toList, "\n".toList, " /*/*/".toList]

theorem scan_layOut_scattered :
    (∃ tokens, Token.scan (String.ofList (layOut scattered scatteredGaps)) none = .ok tokens
        ∧ tokens.map Token.text = scattered.map String.ofList)
      ∧ ∃ again, Token.scan (" ".intercalate (gluedTokens.map Token.text)) none = .ok again
        ∧ again.map Token.text = gluedTokens.map Token.text := by
  have hwords : ∀ word ∈ scattered, IsLexeme word := by
    have hdigits : ∀ c ∈ "00e9".toList, Literal.isHexDigit c = true :=
      List.all_eq_true.mp (by decide)
    have hbody : IsLiteralBody '\'' "x\\'\\u00e9".toList :=
      .plain (by decide) (by decide) (by decide)
        (.escape (.inl (by decide)) (.codePoint rfl hdigits .nil))
    intro word hword
    simp only [scattered, List.mem_cons, List.not_mem_nil, or_false] at hword
    rcases hword with rfl | rfl | rfl | rfl | rfl
    · exact .word ⟨by decide, List.all_eq_true.mp (by decide), by decide, by decide⟩
    · exact .mark (by decide)
    · exact .mark (by decide)
    · exact .literal ⟨'\'', _, rfl, hbody, rfl⟩
    · exact .word ⟨by decide, List.all_eq_true.mp (by decide), by decide, by decide⟩
  have hgaps : ∀ gap ∈ scatteredGaps, IsSeparator gap := by
    have hquotes : ¬['*', '/'] <:+: "'\"*".toList := by decide
    have hslash : ¬['*', '/'] <:+: "/".toList := by decide
    have hline : '\n' ∉ " */ >".toList := by decide
    intro gap hgap
    simp only [scatteredGaps, List.mem_cons, List.not_mem_nil, or_false] at hgap
    rcases hgap with rfl | rfl | rfl | rfl
    · exact ⟨.blank rfl (.blockComment hquotes .nil), _, _, rfl, rfl⟩
    · exact ⟨.blank rfl (.lineComment hline .nil), _, _, rfl, rfl⟩
    · exact ⟨.blank rfl .nil, _, _, rfl, rfl⟩
    · exact ⟨.blank rfl (.blockComment hslash .nil), _, _, rfl, rfl⟩
  have hscan : Token.scan glued none = .ok gluedTokens := by decide +kernel
  exact ⟨scan_layOut.1 scattered scatteredGaps none hwords rfl hgaps,
    scan_layOut.2 glued none gluedTokens hscan⟩

end Reskin
