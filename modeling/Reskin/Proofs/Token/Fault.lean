import Reskin.Proofs.Token.Tiling

/-!
# Where a source text breaks off

A text that is not divided into tokens breaks off in a piece: a literal that is not ended on its
line, one with an invalid escape, or a comment that is not closed. In front of that piece there are
only whole pieces, so the fault is where the piece starts.

* **`IsDivision`** — whole pieces in front of a given rest.
* **`IsUnended`** — the inside of a literal that is not ended, and **`IsFault`**, what a text looks
  like that starts with a faulty piece.
* **`next_eq_error`** — one piece; **`scan_eq_error`** — a whole text.
-/

namespace Reskin

open Piece (splitComment splitEscape splitLiteral)

/-- A text that is made of whole pieces in front of `rest`. -/
inductive IsDivision (rest : List Char) : List Char → Prop where
  | nil : IsDivision rest []
  | cons {piece : Piece} {text : List Char} (hpiece : IsPiece (text ++ rest) piece)
      (htext : IsDivision rest text) : IsDivision rest (piece.text ++ text)

/-- What stands behind the quote of a literal that is not ended. A backslash may be the last thing
that is read of it. -/
inductive IsUnended (quote : Char) : LexicalFault → List Char → Prop where
  | atEnd {body rest : List Char} (hbody : IsLiteralBody quote body)
      (hrest : rest = body ∨ rest = body ++ ['\\']) : IsUnended quote .unterminatedText rest
  | atLineBreak {body more rest : List Char} (hbody : IsLiteralBody quote body)
      (hrest : rest = body ++ '\n' :: more ∨ rest = body ++ '\\' :: '\n' :: more) :
      IsUnended quote .newlineInText rest

/-- A text that starts with a faulty piece. -/
inductive IsFault : Piece.Fault → List Char → Prop where
  | literal {quote : Char} {cause : LexicalFault} {rest : List Char}
      (hquote : isQuote quote = true) (hrest : IsUnended quote cause rest) :
      IsFault ⟨cause, 0, 1⟩ (quote :: rest)
  | escape {sequence : String} {offset length : Nat} {text : List Char} :
      IsFault ⟨.invalidEscape sequence, offset, length⟩ text
  | comment {rest : List Char} (hopen : ¬['*', '/'] <:+: rest) :
      IsFault ⟨.unterminatedComment, 0, 2⟩ ('/' :: '*' :: rest)

/-! ## Comments -/

/-- A block comment that is not closed has no end anywhere in the rest of the text. -/
theorem splitComment_eq_none {cs : List Char} (h : splitComment cs = none) :
    ¬['*', '/'] <:+: cs := by
  fun_induction splitComment cs with
  | case1 => exact fun hinside => absurd (List.infix_nil.mp hinside) (List.cons_ne_nil _ _)
  | case2 => cases h
  | case3 c rest hopen ih =>
    intro hinside
    rcases List.infix_cons_iff.mp hinside with hfront | hinside
    · -- The end at the very start would have been taken.
      obtain ⟨tail, htail⟩ := hfront
      cases htail
      exact hopen tail rfl rfl
    · exact ih (Option.map_eq_none_iff.mp h) hinside

/-! ## Literals -/

/-- What can stand in front of the inside of any literal can stand in front of this one. So a
literal that is not ended grows to the left as it was read. -/
theorem IsUnended.prepend {quote : Char} {cause : LexicalFault} {front rest : List Char}
    (h : IsUnended quote cause rest)
    (hfront : ∀ body, IsLiteralBody quote body → IsLiteralBody quote (front ++ body)) :
    IsUnended quote cause (front ++ rest) := by
  cases h with
  | @atEnd body _ hbody hrest =>
    refine .atEnd (hfront body hbody) ?_
    rcases hrest with rfl | rfl
    · exact .inl rfl
    · exact .inr (List.append_assoc _ _ _).symm
  | @atLineBreak body more _ hbody hrest =>
    have hjoined := hfront body hbody
    rcases hrest with rfl | rfl
    · exact .atLineBreak hjoined (.inl (List.append_assoc _ _ _).symm)
    · exact .atLineBreak hjoined (.inr (List.append_assoc _ _ _).symm)

/-- An escape that is not taken is invalid, or nothing or a line break follows its backslash. -/
theorem splitEscape_eq_error {quote : Char} {offset : Nat} {cs : List Char} {fault : Piece.Fault}
    (h : splitEscape offset cs = .error fault) :
    (∃ sequence offset length, fault = ⟨.invalidEscape sequence, offset, length⟩)
      ∨ ∃ cause, fault = ⟨cause, 0, 1⟩ ∧ IsUnended quote cause ('\\' :: cs) := by
  unfold splitEscape at h
  split at h
  · cases h
    exact .inr ⟨_, rfl, .atEnd .nil (.inr rfl)⟩
  · cases h
    exact .inr ⟨_, rfl, .atLineBreak .nil (.inr rfl)⟩
  · dsimp only at h
    split at h
    · cases h
    · cases h
      exact .inl ⟨_, _, _, rfl⟩
  · split at h
    · cases h
    · cases h
      exact .inl ⟨_, _, _, rfl⟩

/-- The inside of a literal that is not taken has an escape that is invalid, or the literal is not
ended. The induction follows the reader, and puts what was read back in front. -/
theorem splitLiteral_eq_error {quote : Char} {offset : Nat} {cs : List Char} {fault : Piece.Fault}
    (h : splitLiteral quote offset cs = .error fault) :
    (∃ sequence offset length, fault = ⟨.invalidEscape sequence, offset, length⟩)
      ∨ ∃ cause, fault = ⟨cause, 0, 1⟩ ∧ IsUnended quote cause cs := by
  fun_induction splitLiteral quote offset cs generalizing fault with
  | case1 =>
    cases h
    exact .inr ⟨_, rfl, .atEnd .nil (.inl rfl)⟩
  | case2 =>
    cases h
    exact .inr ⟨_, rfl, .atLineBreak .nil (.inl rfl)⟩
  | case3 offset rest fault' hescape =>
    cases h
    exact splitEscape_eq_error hescape
  | case4 offset rest escape next hescape fault' hrest _ ih =>
    cases h
    refine (ih hrest).imp_right ?_
    rintro ⟨cause, rfl, hunended⟩
    refine ⟨cause, rfl, ?_⟩
    rw [← Piece.splitEscape_text hescape, ← List.cons_append]
    exact hunended.prepend fun body hbody => isLiteralBody_escape hescape hbody
  | case5 => cases h
  | case6 => cases h
  | case7 offset c rest hline hbackslash hquote fault' hrest ih =>
    cases h
    refine (ih hrest).imp_right ?_
    rintro ⟨cause, rfl, hunended⟩
    refine ⟨cause, rfl, ?_⟩
    rw [← List.singleton_append]
    exact hunended.prepend fun body hbody => .plain hline hbackslash hquote hbody
  | case8 => cases h

/-! ## One piece and all pieces -/

/-- A piece that is not taken is faulty. Only comments and literals can be; all other characters
make a piece. -/
theorem next_eq_error {c : Char} {rest : List Char} {fault : Piece.Fault}
    (h : Piece.next c rest = .error fault) : IsFault fault (c :: rest) := by
  unfold Piece.next at h
  split at h
  · cases h
  split at h
  · cases h
  split at h
  · next hblock =>
    obtain ⟨rfl, hhead⟩ := hblock
    obtain ⟨tail, rfl⟩ := List.head?_eq_some_iff.mp hhead
    split at h
    · cases h
    · next hcomment =>
      cases h
      exact .comment (splitComment_eq_none hcomment)
  split at h
  · next hquote =>
    split at h
    · cases h
    · next hliteral =>
      cases h
      rcases splitLiteral_eq_error hliteral with
        ⟨sequence, offset, length, rfl⟩ | ⟨cause, rfl, hrest⟩
      · exact .escape
      · exact .literal hquote hrest
  split at h
  · cases h
  split at h <;> cases h

/-- A text that breaks off has whole pieces in front of a faulty one. The induction follows the
division of the text, and each piece is known to stand in front of what comes after it. -/
theorem split_eq_fault {cs : List Char} {pieces : List Piece} {fault : Piece.Fault}
    (h : Piece.split cs = (pieces, some fault)) :
    ∃ rest, cs = pieces.flatMap Piece.text ++ rest
      ∧ IsDivision rest (pieces.flatMap Piece.text) ∧ IsFault fault rest := by
  fun_induction Piece.split cs generalizing pieces with
  | case1 => cases h
  | case2 c rest fault' hnext =>
    cases h
    exact ⟨c :: rest, rfl, .nil, next_eq_error hnext⟩
  | case3 c rest piece after hnext pieces' fault' hpieces ih =>
    cases h
    obtain ⟨last, hafter, hdivision, hfault⟩ := ih hpieces
    have htext : piece.text ++ after = c :: rest := Piece.next_text hnext
    refine ⟨last, ?_, ?_, hfault⟩
    · rw [List.flatMap_cons, List.append_assoc, ← hafter, htext]
    · rw [List.flatMap_cons]
      refine .cons ?_ hdivision
      rw [← hafter]
      exact next_isPiece hnext

/-- The place behind pieces is the place behind their text. -/
theorem place_final (file : Option FileId) (before : List Char) (pieces : List Piece) :
    (Token.place file (.after before) pieces).2
      = .after (before ++ pieces.flatMap Piece.text) := by
  induction pieces generalizing before with
  | nil => rw [List.flatMap_nil, List.append_nil]; rfl
  | cons piece pieces ih =>
    have hstep : (Token.place file (.after before) (piece :: pieces)).2
        = (Token.place file ((Position.after before).advanceAll piece.text) pieces).2 := by
      cases piece <;> rfl
    rw [hstep, Position.advanceAll_after, ih, List.flatMap_cons, List.append_assoc]

/-- **A text that is not divided into tokens breaks off in a faulty piece**, and that is where the
fault is reported. -/
theorem scan_eq_error {source : String} {file : Option FileId} {diagnostic : Diagnostic}
    (h : Token.scan source file = .error diagnostic) :
    ∃ before rest fault, source.toList = before ++ rest ∧ IsDivision rest before
      ∧ IsFault fault rest ∧ diagnostic = Token.faultAt file (.after before) fault := by
  unfold Token.scan at h
  generalize hsplit : Piece.split source.toList = split at h
  obtain ⟨pieces, fault⟩ := split
  cases fault with
  | none => cases h
  | some fault =>
    cases h
    obtain ⟨rest, hsource, hdivision, hfault⟩ := split_eq_fault hsplit
    refine ⟨_, rest, fault, hsource, hdivision, hfault, ?_⟩
    have hfinal := place_final file [] pieces
    rw [List.nil_append] at hfinal
    exact congrArg (Token.faultAt file · fault) hfinal

end Reskin
