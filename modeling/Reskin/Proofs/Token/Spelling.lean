import Reskin.Proofs.Token.Value

/-!
# Every text can be written as a literal

A literal cannot hold a line break or its own quote, and a backslash in it starts an escape. Each of
the three has an escape of one character, so a text is written by escaping these and nothing else:
carriage returns, other control characters, the other quote and comment marks stand for themselves.

* **`Literal.spell`** — the literal of a text.
* **`isLiteralBody_spellChar`**, **`isTaken_spellChar`** — one step: the spelling of a character is
  read as a whole, and stands for the character.
* **`Token.scan_spell`** — the literal of a text is one token, and its value is the text.
-/

namespace Reskin

namespace Literal

/-- The spelling of a character between the given quotes. -/
def spellChar (quote c : Char) : List Char :=
  if c = '\\' then ['\\', '\\']
  else if c = quote then ['\\', quote]
  else if c = '\n' then ['\\', 'n']
  else [c]

/-- The literal of a text in the given quotes. -/
def spell (quote : Char) (text : String) : String :=
  String.ofList (quote :: (text.toList.flatMap (spellChar quote) ++ [quote]))

variable {quote : Char} {body : List Char}

theorem toList_spell (quote : Char) (text : String) :
    (spell quote text).toList = quote :: (text.toList.flatMap (spellChar quote) ++ [quote]) :=
  String.toList_ofList

/-- The spelling of a character in front of the inside of a literal belongs to the inside. -/
theorem isLiteralBody_spellChar (hquote : isQuote quote = true) (c : Char)
    (hbody : IsLiteralBody quote body) : IsLiteralBody quote (spellChar quote c ++ body) := by
  unfold spellChar
  split
  · exact .escape (.inl (by decide)) hbody
  · next hbackslash =>
    split
    · have hmem : quote ∈ ['n', 't', 'b', 'f', 'r', '"', '\'', '\\'] := by
        rcases isQuote_iff.mp hquote with rfl | rfl <;> decide
      exact .escape (.inl hmem) hbody
    · next hother =>
      split
      · exact .escape (.inl (by decide)) hbody
      · next hline => exact .plain hline hbackslash hother hbody

theorem isLiteralBody_spell (hquote : isQuote quote = true) (cs : List Char) :
    IsLiteralBody quote (cs.flatMap (spellChar quote)) := by
  induction cs with
  | nil => exact .nil
  | cons c cs ih => exact isLiteralBody_spellChar hquote c ih

/-- The spelling of a character is a unit that stands for the character. There are three characters
that have to be escaped: the backslash, the quote and the newline. -/
theorem isTaken_spellChar (hquote : isQuote quote = true) (c : Char) :
    IsTaken quote (spellChar quote c, [c]) := by
  unfold spellChar
  split
  · next hbackslash =>
    subst hbackslash
    exact isTaken_escape rfl
  · next hbackslash =>
    split
    · next hsame =>
      subst hsame
      refine isTaken_escape ?_
      rcases isQuote_iff.mp hquote with rfl | rfl <;> rfl
    · next hother =>
      split
      · next hline =>
        subst hline
        exact isTaken_escape rfl
      · next hline => exact isTaken_plain hbackslash hline hother

/-- A text that is spelled and read back is the text, since each character is a unit. -/
theorem unescape_spell (hquote : isQuote quote = true) (cs : List Char) :
    unescape (cs.flatMap (spellChar quote)) = cs := by
  have hunits : ∀ unit ∈ cs.map fun c => (spellChar quote c, [c]), IsTaken quote unit := by
    intro unit hunit
    obtain ⟨c, -, rfl⟩ := List.mem_map.mp hunit
    exact isTaken_spellChar hquote c
  have hvalue := unescape_units hunits
  rwa [List.flatMap_map, List.flatMap_map, List.flatMap_singleton'] at hvalue

end Literal

/-- A literal alone is one piece. -/
theorem split_literal {quote : Char} {body : List Char} (hquote : isQuote quote = true)
    (hbody : IsLiteralBody quote body) :
    Piece.split (quote :: (body ++ [quote])) = ([.lexeme (quote :: (body ++ [quote]))], none) := by
  rw [split_cons_of_next (next_literal hquote hbody []), Piece.split.eq_def []]

namespace Token

/-- **Every text can be written as a literal.** With its backslashes, line breaks and the quote
escaped and quotes put around it, a text is read as one token. The token is a literal, and its value
is the text. -/
theorem scan_spell {quote : Char} (hquote : quote = '"' ∨ quote = '\'') (text : String)
    (file : Option FileId) :
    ∃ token, scan (Literal.spell quote text) file = .ok [token]
      ∧ token.text = Literal.spell quote text
      ∧ token.kind = .text
      ∧ token.value = text := by
  have hquote' : isQuote quote = true := isQuote_iff.mpr hquote
  have htext := Literal.toList_spell quote text
  refine ⟨⟨Literal.spell quote text, 1, 1, file⟩, ?_, rfl, ?_, ?_⟩
  · unfold scan
    rw [htext, split_literal hquote' (Literal.isLiteralBody_spell hquote' text.toList)]
    rfl
  · show TokenKind.ofText (Literal.spell quote text) = .text
    rw [TokenKind.ofText, htext]
    exact if_pos hquote'
  · rw [value, htext, Literal.unquote?_eq hquote']
    show String.ofList (Literal.unescape _) = text
    rw [Literal.unescape_spell hquote', String.ofList_toList]

/-- A text with both quotes, line breaks of two kinds, what looks like an escape and like comments,
and a backslash at its end. -/
def trickyText : String :=
  "'\"\r\n\\u0041\\n//*/\\"

theorem scan_spell_trickyText :
    Literal.spell '\'' trickyText = "'\\'\"\r\\n\\\\u0041\\\\n//*/\\\\'"
      ∧ ∃ token, scan (Literal.spell '\'' trickyText) none = .ok [token]
        ∧ token.text = Literal.spell '\'' trickyText
        ∧ token.kind = .text
        ∧ token.value = trickyText :=
  ⟨by decide +kernel, scan_spell (.inr rfl) trickyText none⟩

end Token

end Reskin
