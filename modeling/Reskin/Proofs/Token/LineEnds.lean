import Reskin.Proofs.Token.Layout

/-!
# Line ends do not change the tokens

A line may end in a newline, or in a carriage return and a newline. A carriage return is a blank, so
it ends a word as the newline would; in a comment it is a character like any other; and in a text
literal it stands in front of a newline, which is a fault. Nowhere does it move a token, since
columns are counted anew behind the newline.

* **`Text.withReturns`** — a text with the longer line ends.
* **`splitWord_withReturns`** and its kin — each reader of a part of the text takes the same part.
  Faults may differ, so results are compared as options.
* **`next_withReturns`** — one piece. Only a line comment is different: it takes the carriage return
  of its line end along.
* **`readFrom?_withReturns`** — all pieces, from any place on.
* **`scan_withReturns`** — the tokens of a source text.
-/

namespace Reskin

open Piece (startsComment splitComment splitWord splitEscape splitLiteral)

/-! ## Longer line ends -/

namespace Text

/-- A text in which every newline is replaced by a carriage return and a newline. -/
def withReturns (cs : List Char) : List Char :=
  cs.flatMap fun c => if c = '\n' then ['\r', '\n'] else [c]

theorem withReturns_nil : withReturns [] = [] := rfl

theorem withReturns_newline (cs : List Char) :
    withReturns ('\n' :: cs) = '\r' :: '\n' :: withReturns cs := rfl

theorem withReturns_cons {c : Char} (hc : c ≠ '\n') (cs : List Char) :
    withReturns (c :: cs) = c :: withReturns cs := by
  rw [withReturns, List.flatMap_cons, if_neg hc]
  rfl

theorem withReturns_append (a b : List Char) :
    withReturns (a ++ b) = withReturns a ++ withReturns b :=
  List.flatMap_append

theorem withReturns_of_not_mem {cs : List Char} (h : '\n' ∉ cs) : withReturns cs = cs := by
  induction cs with
  | nil => rfl
  | cons c cs ih =>
    obtain ⟨hc, hcs⟩ := not_or.mp (mt List.mem_cons.mpr h)
    rw [withReturns_cons (Ne.symm hc), ih hcs]

/-- What a text starts with is the same up to its first line end. Induction on the start, which has
no line end in it. -/
theorem prefix_withReturns_iff {start cs : List Char} (hnewline : '\n' ∉ start)
    (hreturn : '\r' ∉ start) : start <+: withReturns cs ↔ start <+: cs := by
  induction start generalizing cs with
  | nil => simp
  | cons c start ih =>
    obtain ⟨hcn, hsn⟩ := not_or.mp (mt List.mem_cons.mpr hnewline)
    obtain ⟨hcr, hsr⟩ := not_or.mp (mt List.mem_cons.mpr hreturn)
    cases cs with
    | nil => rfl
    | cons d cs =>
      by_cases hd : d = '\n'
      · subst hd
        rw [withReturns_newline, List.cons_prefix_cons, List.cons_prefix_cons]
        exact iff_of_false (fun h => hcr h.1.symm) fun h => hcn h.1.symm
      · rw [withReturns_cons hd, List.cons_prefix_cons, List.cons_prefix_cons, ih hsn hsr]

theorem head?_withReturns_iff {c : Char} (hnewline : c ≠ '\n') (hreturn : c ≠ '\r')
    (cs : List Char) : (withReturns cs).head? = some c ↔ cs.head? = some c := by
  have hsingle : ∀ text : List Char, text.head? = some c ↔ [c] <+: text := fun text =>
    ⟨fun h => (List.head?_eq_some_iff.mp h).imp fun _ heq => heq.symm,
      fun h => List.head?_eq_some_iff.mpr (h.imp fun _ heq => heq.symm)⟩
  rw [hsingle, hsingle, prefix_withReturns_iff] <;> simp [hnewline.symm, hreturn.symm]

theorem tail_withReturns {c : Char} (hc : c ≠ '\n') {cs : List Char} (h : cs.head? = some c) :
    (withReturns cs).tail = withReturns cs.tail := by
  obtain ⟨tail, rfl⟩ := List.head?_eq_some_iff.mp h
  rw [withReturns_cons hc, List.tail_cons, List.tail_cons]

/-- Characters that are taken up to a line end are the same. -/
theorem takeWhile_take_withReturns {p : Char → Bool} (hnewline : p '\n' = false)
    (hreturn : p '\r' = false) (n : Nat) (cs : List Char) :
    ((withReturns cs).take n).takeWhile p = (cs.take n).takeWhile p := by
  induction cs generalizing n with
  | nil => rfl
  | cons c cs ih =>
    cases n with
    | zero => rfl
    | succ n =>
      by_cases hc : c = '\n'
      · subst hc
        simp [withReturns_newline, hnewline, hreturn]
      · rw [withReturns_cons hc, List.take_succ_cons, List.take_succ_cons, List.takeWhile_cons,
          List.takeWhile_cons, ih]

end Text

open Text (withReturns withReturns_nil withReturns_newline withReturns_cons withReturns_append
  withReturns_of_not_mem prefix_withReturns_iff head?_withReturns_iff tail_withReturns
  takeWhile_take_withReturns)

/-- The place behind a line end does not depend on how the line ends. -/
theorem Position.advanceAll_withReturns (position : Position) (cs : List Char) :
    position.advanceAll (withReturns cs) = position.advanceAll cs := by
  induction cs generalizing position with
  | nil => rfl
  | cons c cs ih =>
    by_cases hc : c = '\n'
    · subst hc
      exact ih (position.advance '\n')
    · rw [withReturns_cons hc]
      exact ih (position.advance c)

/-! ## Words and comments -/

theorem startsComment_withReturns (cs : List Char) :
    startsComment (withReturns cs) = startsComment cs := by
  rw [Bool.eq_iff_iff, startsComment_iff, startsComment_iff,
    prefix_withReturns_iff (by decide) (by decide), prefix_withReturns_iff (by decide) (by decide)]

/-- A word ends in front of a line end of either kind, as a carriage return is a blank too. -/
theorem splitWord_withReturns (cs : List Char) :
    splitWord (withReturns cs) = ((splitWord cs).1, withReturns (splitWord cs).2) := by
  induction cs with
  | nil => rfl
  | cons c cs ih =>
    by_cases hc : c = '\n'
    · subst hc
      rfl
    · have hcomment := startsComment_withReturns (c :: cs)
      rw [withReturns_cons hc] at hcomment ⊢
      rw [splitWord, splitWord, hcomment, ih]
      split
      · rfl
      · rw [withReturns_cons hc]

theorem splitComment_cons {c : Char} {rest : List Char} (h : ¬['*', '/'] <+: c :: rest) :
    splitComment (c :: rest) = (splitComment rest).map (Prod.map (c :: ·) id) := by
  rw [splitComment]
  · rfl
  · rintro after rfl rfl
    exact h ⟨after, rfl⟩

/-- A block comment goes over line ends, which become longer inside of it. -/
theorem splitComment_withReturns (cs : List Char) :
    splitComment (withReturns cs) = (splitComment cs).map (Prod.map withReturns withReturns) := by
  fun_induction splitComment cs with
  | case1 => rfl
  | case2 rest => rfl
  | case3 c rest hopen ih =>
    have hplain : ¬['*', '/'] <+: c :: rest := by
      rintro ⟨after, heq⟩
      cases heq
      exact hopen after rfl rfl
    by_cases hc : c = '\n'
    · subst hc
      rw [withReturns_newline, splitComment_cons (by simp), splitComment_cons (by simp), ih]
      cases splitComment rest <;> rfl
    · rw [← prefix_withReturns_iff (by decide) (by decide), withReturns_cons hc] at hplain
      rw [withReturns_cons hc, splitComment_cons hplain, ih]
      cases splitComment rest with
      | none => rfl
      | some parts =>
        show some (c :: withReturns parts.1, withReturns parts.2) = _
        rw [← withReturns_cons hc]
        rfl

/-! ## Text literals -/

/-- An escape is taken alike. Its hexadecimal digits end at a line end of either kind. -/
theorem splitEscape_withReturns (offset : Nat) (cs : List Char) :
    (splitEscape offset (withReturns cs)).toOption
      = (splitEscape offset cs).toOption.map (Prod.map id withReturns) := by
  fun_cases splitEscape offset cs with
  | case1 => rfl
  | case2 => rfl
  | case3 rest digits hlength =>
    have hdigits : ((withReturns rest).take 4).takeWhile Literal.isHexDigit = digits :=
      takeWhile_take_withReturns (by decide) (by decide) 4 rest
    -- No line end stands among the digits.
    have htake : rest.take 4 = digits := (takeWhile_take_eq_of_length hlength).symm
    have hnone : '\n' ∉ digits := fun hmem => absurd (List.mem_takeWhile_imp hmem) (by decide)
    have hrest : withReturns rest = digits ++ withReturns (rest.drop 4) := by
      rw [← withReturns_of_not_mem hnone, ← htake, ← withReturns_append, List.take_append_drop]
    have hdrop : (withReturns rest).drop 4 = withReturns (rest.drop 4) := by
      rw [hrest, ← hlength, List.drop_left]
    rw [withReturns_cons (by decide), splitEscape, hdigits, if_pos hlength, hdrop]
    rfl
  | case4 rest digits hlength =>
    have hdigits : ((withReturns rest).take 4).takeWhile Literal.isHexDigit = digits :=
      takeWhile_take_withReturns (by decide) (by decide) 4 rest
    rw [withReturns_cons (by decide), splitEscape, hdigits, if_neg hlength]
    rfl
  | case5 c rest hnewline hu hsome =>
    rw [withReturns_cons hnewline, splitEscape, if_pos hsome]
    · rfl
    · exact hnewline
    · exact hu
  | case6 c rest hnewline hu hnone =>
    rw [withReturns_cons hnewline, splitEscape, if_neg hnone]
    · rfl
    · exact hnewline
    · exact hu

section Literal

variable {quote : Char} {offset : Nat}

theorem splitLiteral_backslash (rest : List Char) :
    (splitLiteral quote offset ('\\' :: rest)).toOption
      = (splitEscape offset rest).toOption.bind fun escape =>
        (splitLiteral quote (offset + 1 + escape.1.length) escape.2).toOption.map
          (Prod.map (fun inner => '\\' :: (escape.1 ++ inner)) id) := by
  rw [splitLiteral, if_neg (by decide), if_pos rfl]
  split
  · next hescape =>
    rw [hescape]
    rfl
  · next escape next hescape =>
    rw [hescape]
    show _ = Option.map _ (splitLiteral quote (offset + 1 + escape.length) next).toOption
    cases splitLiteral quote (offset + 1 + escape.length) next <;> rfl

theorem splitLiteral_plain {c : Char} (hnewline : c ≠ '\n') (hbackslash : c ≠ '\\')
    (hquote : c ≠ quote) (rest : List Char) :
    (splitLiteral quote offset (c :: rest)).toOption
      = (splitLiteral quote (offset + 1) rest).toOption.map (Prod.map (c :: ·) id) := by
  rw [splitLiteral, if_neg hnewline, if_neg hbackslash, if_neg hquote]
  cases splitLiteral quote (offset + 1) rest <;> rfl

/-- A literal is taken alike or not at all: a line end in it is a fault, with a carriage return in
front of it or without. -/
theorem splitLiteral_withReturns (hquote : isQuote quote = true) (offset : Nat) (cs : List Char) :
    (splitLiteral quote offset (withReturns cs)).toOption
      = (splitLiteral quote offset cs).toOption.map (Prod.map id withReturns) := by
  have hreturn : '\r' ≠ quote := by
    rintro rfl
    cases hquote
  -- An escape takes several characters at once, so the induction is on the length.
  induction hlength : cs.length using Nat.strong_induction_on generalizing cs offset with
  | _ n ih =>
    cases cs with
    | nil =>
      rw [withReturns_nil, splitLiteral]
      rfl
    | cons c rest =>
      rw [List.length_cons] at hlength
      by_cases hnewline : c = '\n'
      · -- The carriage return is read as a part of the literal, and the newline is a fault.
        subst hnewline
        rw [withReturns_newline, splitLiteral_plain (by decide) (by decide) hreturn, splitLiteral,
          if_pos rfl, splitLiteral, if_pos rfl]
        rfl
      by_cases hbackslash : c = '\\'
      · subst hbackslash
        rw [withReturns_cons (by decide), splitLiteral_backslash, splitLiteral_backslash,
          splitEscape_withReturns]
        cases hescape : splitEscape offset rest with
        | error fault => rfl
        | ok parts =>
          have hshorter := Piece.splitEscape_length hescape
          have hrest := ih parts.2.length (by omega) (offset + 1 + parts.1.length) parts.2 rfl
          show Option.map _ (splitLiteral quote (offset + 1 + parts.1.length)
            (withReturns parts.2)).toOption = Option.map _ (Option.map _ _)
          rw [hrest, Option.map_map, Option.map_map]
          rfl
      by_cases hclose : c = quote
      · rw [withReturns_cons hnewline, splitLiteral, splitLiteral]
        simp only [if_neg hnewline, if_neg hbackslash, if_pos hclose]
        rfl
      · rw [withReturns_cons hnewline, splitLiteral_plain hnewline hbackslash hclose,
          splitLiteral_plain hnewline hbackslash hclose, ih rest.length (by omega) _ rest rfl,
          Option.map_map, Option.map_map]
        rfl

end Literal

/-! ## One piece -/

namespace Piece

/-- A piece with the longer line ends. A lexeme has no line end. -/
def withReturns : Piece → Piece
  | gap text => gap (Text.withReturns text)
  | lexeme text => lexeme text

theorem next_quote {quote : Char} (hquote : isQuote quote = true) (rest : List Char) :
    (next quote rest).toOption
      = (splitLiteral quote 1 rest).toOption.map
        (Prod.map (fun inner => lexeme (quote :: inner)) id) := by
  have hblank : ¬Text.isBlank quote = true := by
    rcases isQuote_iff.mp hquote with rfl | rfl <;> decide
  have hslash : quote ≠ '/' := by
    rintro rfl
    cases hquote
  rw [next, if_neg hblank, if_neg fun h => hslash h.1, if_neg fun h => hslash h.1, if_pos hquote]
  cases splitLiteral quote 1 rest <;> rfl

/-- One piece is taken alike, and a gap has the longer line ends in it. Line comments are left out:
they take the carriage return along, but not the newline. -/
theorem next_withReturns {c : Char} (hc : c ≠ '\n') {rest : List Char}
    (hline : ¬(c = '/' ∧ rest.head? = some '/')) :
    (next c (Text.withReturns rest)).toOption
      = (next c rest).toOption.map (Prod.map withReturns Text.withReturns) := by
  by_cases hquote : isQuote c = true
  · rw [next_quote hquote, next_quote hquote, splitLiteral_withReturns hquote, Option.map_map,
      Option.map_map]
    rfl
  have hhead : ∀ first second, second ≠ '\n' → second ≠ '\r' →
      ((c = first ∧ (Text.withReturns rest).head? = some second)
        ↔ (c = first ∧ rest.head? = some second)) := by
    intro first second hnewline hreturn
    rw [head?_withReturns_iff hnewline hreturn]
  rw [next, next, if_neg hline, if_neg (mt (hhead _ _ (by decide) (by decide)).mp hline),
    if_congr (hhead _ _ (by decide) (by decide)) rfl rfl, if_neg hquote, if_neg hquote,
    if_congr (hhead '=' '>' (by decide) (by decide)) rfl rfl]
  by_cases hblank : Text.isBlank c = true
  · rw [if_pos hblank, if_pos hblank]
    show _ = some (gap (Text.withReturns [c]), Text.withReturns rest)
    rw [withReturns_cons hc]
    rfl
  rw [if_neg hblank, if_neg hblank]
  by_cases hblock : c = '/' ∧ rest.head? = some '*'
  · rw [if_pos hblock, if_pos hblock, tail_withReturns (by decide) hblock.2,
      splitComment_withReturns]
    cases splitComment rest.tail with
    | none => rfl
    | some parts =>
      show some (gap (c :: '*' :: Text.withReturns parts.1), Text.withReturns parts.2) = _
      rw [← withReturns_cons (by decide), ← withReturns_cons hc]
      rfl
  rw [if_neg hblock, if_neg hblock]
  by_cases harrow : c = '=' ∧ rest.head? = some '>'
  · rw [if_pos harrow, if_pos harrow, tail_withReturns (by decide) harrow.2]
    rfl
  rw [if_neg harrow, if_neg harrow]
  by_cases hmark : isMark c = true
  · rw [if_pos hmark, if_pos hmark]
    rfl
  · rw [if_neg hmark, if_neg hmark, splitWord_withReturns]
    rfl

/-- The token of a piece that starts at a place, if it has one. -/
def tokens (file : Option FileId) (position : Position) : Piece → List Token
  | gap _ => []
  | lexeme text => [⟨String.ofList text, position.line, position.column, file⟩]

theorem tokens_withReturns (file : Option FileId) (position : Position) (piece : Piece) :
    piece.withReturns.tokens file position = piece.tokens file position := by
  cases piece <;> rfl

theorem advanceAll_text_withReturns (position : Position) (piece : Piece) :
    position.advanceAll piece.withReturns.text = position.advanceAll piece.text := by
  cases piece with
  | gap text => exact position.advanceAll_withReturns text
  | lexeme text => rfl

end Piece

/-! ## All pieces -/

namespace Token

/-- The tokens of an unread text that starts at a place, unless it has a fault. -/
def readFrom? (file : Option FileId) (position : Position) (cs : List Char) :
    Option (List Token) :=
  if (Piece.split cs).2.isNone then some (place file position (Piece.split cs).1).1 else none

theorem toOption_scan (source : String) (file : Option FileId) :
    (scan source file).toOption = readFrom? file {} source.toList := by
  unfold scan readFrom?
  dsimp only
  cases (Piece.split source.toList).2 <;> rfl

/-- The tokens of a text are that of the next piece, if it has one, and those of what it leaves.
This equation is what both sides of the comparison are unfolded with. -/
theorem readFrom?_cons (file : Option FileId) (position : Position) (c : Char) (rest : List Char) :
    readFrom? file position (c :: rest)
      = (Piece.next c rest).toOption.bind fun step =>
        (readFrom? file (position.advanceAll step.1.text) step.2).map
          (step.1.tokens file position ++ ·) := by
  cases hnext : Piece.next c rest with
  | error fault =>
    have hsplit : Piece.split (c :: rest) = ([], some fault) := by
      rw [Piece.split.eq_def]
      dsimp only
      split
      · next hfault =>
        rw [hnext] at hfault
        cases hfault
        rfl
      · next hpiece =>
        rw [hnext] at hpiece
        cases hpiece
    rw [readFrom?, hsplit]
    rfl
  | ok step =>
    obtain ⟨piece, after⟩ := step
    show _ = Option.map _ (readFrom? file (position.advanceAll piece.text) after)
    rw [readFrom?, split_cons_of_next hnext, readFrom?]
    dsimp only
    split
    · cases piece <;> rfl
    · rfl

theorem readFrom?_of_next_gap {file : Option FileId} {position : Position} {c : Char}
    {rest text after : List Char} (h : Piece.next c rest = .ok (.gap text, after)) :
    readFrom? file position (c :: rest) = readFrom? file (position.advanceAll text) after := by
  rw [readFrom?_cons, h]
  show Option.map ([] ++ ·) (readFrom? file (position.advanceAll text) after) = _
  simp

theorem readFrom?_blank (file : Option FileId) (position : Position) {c : Char}
    (hc : Text.isBlank c = true) (rest : List Char) :
    readFrom? file position (c :: rest) = readFrom? file (position.advance c) rest :=
  readFrom?_of_next_gap (next_blank hc rest)

theorem readFrom?_lineComment (file : Option FileId) (position : Position) {inner more : List Char}
    (hinner : '\n' ∉ inner) :
    readFrom? file position ('/' :: '/' :: (inner ++ '\n' :: more))
      = readFrom? file ((position.advanceAll ('/' :: '/' :: inner)).advance '\n') more := by
  have hend : ∀ c ∈ ('\n' :: more).head?, c = '\n' := by
    intro c hc
    cases hc
    rfl
  rw [readFrom?_of_next_gap (next_lineComment hinner hend), readFrom?_blank _ _ (by decide)]

/-- The same tokens are read from any place on. The induction is on the length of the text, with
newlines and line comments as cases of their own. -/
theorem readFrom?_withReturns (file : Option FileId) (position : Position) (cs : List Char) :
    readFrom? file position (withReturns cs) = readFrom? file position cs := by
  induction hlength : cs.length using Nat.strong_induction_on generalizing cs position with
  | _ n ih =>
    cases cs with
    | nil => rfl
    | cons c rest =>
      rw [List.length_cons] at hlength
      by_cases hnewline : c = '\n'
      · subst hnewline
        rw [withReturns_newline, readFrom?_blank _ _ (by decide), readFrom?_blank _ _ (by decide),
          readFrom?_blank _ _ (by decide), ih rest.length (by omega) _ rest rfl]
        rfl
      by_cases hline : c = '/' ∧ rest.head? = some '/'
      · obtain ⟨rfl, hhead⟩ := hline
        obtain ⟨text, rfl⟩ := List.head?_eq_some_iff.mp hhead
        rw [List.length_cons] at hlength
        rw [withReturns_cons (by decide), withReturns_cons (by decide)]
        by_cases hlast : '\n' ∈ text
        · -- The comment takes the carriage return along, and both texts go on with the newline.
          obtain ⟨inner, more, rfl, hinner⟩ := List.eq_append_cons_of_mem hlast
          have hreturns : withReturns (inner ++ '\n' :: more)
              = (inner ++ ['\r']) ++ '\n' :: withReturns more := by
            rw [withReturns_append, withReturns_of_not_mem hinner, withReturns_newline]
            simp
          rw [List.length_append, List.length_cons] at hlength
          rw [hreturns, readFrom?_lineComment _ _ (by simp [hinner]),
            readFrom?_lineComment _ _ hinner, ih more.length (by omega) _ more rfl]
          simp [Position.advanceAll, Position.advance]
        · rw [withReturns_of_not_mem hlast]
      · rw [withReturns_cons hnewline, readFrom?_cons, readFrom?_cons,
          Piece.next_withReturns hnewline hline]
        cases hnext : Piece.next c rest with
        | error fault => rfl
        | ok step =>
          have hshorter : step.2.length < (c :: rest).length := Piece.next_length hnext
          rw [List.length_cons] at hshorter
          show Option.map (step.1.withReturns.tokens file position ++ ·)
            (readFrom? file (position.advanceAll step.1.withReturns.text) (withReturns step.2)) = _
          rw [Piece.tokens_withReturns, Piece.advanceAll_text_withReturns,
            ih step.2.length (by omega) _ step.2 rfl]
          rfl

/-- **Line ends do not change the tokens.** If every newline of a source text is replaced by a
carriage return and a newline, then the text is read if and only if it was, and its tokens are the
same, with the same texts, lines and columns. -/
theorem scan_withReturns (source : String) (file : Option FileId) (tokens : List Token) :
    scan (String.ofList (withReturns source.toList)) file = .ok tokens
      ↔ scan source file = .ok tokens := by
  have htokens : (scan (String.ofList (withReturns source.toList)) file).toOption
      = (scan source file).toOption := by
    rw [toOption_scan, toOption_scan, String.toList_ofList, readFrom?_withReturns]
  have hok : ∀ result : Except Diagnostic (List Token),
      result = .ok tokens ↔ result.toOption = some tokens := by
    intro result
    cases result <;> simp [Except.toOption]
  rw [hok, hok, htokens]

end Token

end Reskin
