import Reskin.Diagnostic.Cause
import Reskin.List
import Reskin.Text.Blank
import Reskin.Token.Literal

/-!
# Pieces of a source text

A source text is a sequence of pieces: gaps (a blank character or a comment) and lexemes (a text
literal, a mark or a word). `Piece.split` takes them off the front one after the other, so the
pieces and the unread rest always give back the text: `Piece.next_text` says so for one piece.
Places are not known here; a fault names its distance from the start of the piece it is found in.
-/

namespace Reskin

/-- A gap between tokens, or the text of a token. -/
inductive Piece where
  | gap (text : List Char)
  | lexeme (text : List Char)
deriving DecidableEq, Inhabited, Repr

namespace Piece

def text : Piece → List Char
  | gap text | lexeme text => text

/-- A fault in a piece: where it starts, counted from the start of the piece, and how many
characters it concerns. -/
structure Fault where
  cause : LexicalFault
  offset : Nat
  length : Nat
deriving DecidableEq, Inhabited, Repr

/-- The characters that are tokens of their own. -/
def isMark (c : Char) : Bool :=
  [',', '(', ')', '\x7b', '\x7d', '=', '>'].contains c

/-! ## Comments -/

def startsComment : List Char → Bool
  | '/' :: '/' :: _ | '/' :: '*' :: _ => true
  | _ => false

/-- The rest of a block comment with its end, and what follows it. -/
def splitComment : List Char → Option (List Char × List Char)
  | [] => none
  | '*' :: '/' :: rest => some (['*', '/'], rest)
  | c :: rest => (splitComment rest).map fun (inner, after) => (c :: inner, after)

/-! ## Words -/

def isWordChar (c : Char) : Bool :=
  !(Text.isBlank c || isQuote c || isMark c)

/-- The characters that continue a word, and what follows them. A word also ends where a comment
starts. -/
def splitWord : List Char → List Char × List Char
  | [] => ([], [])
  | c :: rest =>
    if isWordChar c && !startsComment (c :: rest) then
      let (word, after) := splitWord rest
      (c :: word, after)
    else ([], c :: rest)

/-! ## Text literals -/

/-- The characters of an escape after its backslash, and what follows them. -/
def splitEscape (offset : Nat) : List Char → Except Fault (List Char × List Char)
  | [] => .error ⟨.unterminatedText, 0, 1⟩
  | '\n' :: _ => .error ⟨.newlineInText, 0, 1⟩
  | 'u' :: rest =>
    let digits := (rest.take 4).takeWhile Literal.isHexDigit
    if digits.length = 4 then .ok ('u' :: digits, rest.drop 4)
    else .error ⟨.invalidEscape (String.ofList ('\\' :: 'u' :: digits)), offset, digits.length + 2⟩
  | c :: rest =>
    if (Literal.escape? c).isSome then .ok ([c], rest)
    else .error ⟨.invalidEscape (String.ofList ['\\', c]), offset, 2⟩

/-- An escape takes characters from the text, and never adds any. This is the step in which
`splitLiteral` does not recurse on the tail of its argument. -/
theorem splitEscape_length {offset : Nat} {cs escape after : List Char}
    (h : splitEscape offset cs = .ok (escape, after)) : after.length ≤ cs.length := by
  unfold splitEscape at h
  split at h
  · simp at h
  · simp at h
  · dsimp only at h
    split at h
    · simp only [Except.ok.injEq, Prod.mk.injEq] at h
      rw [← h.2, List.length_drop, List.length_cons]
      omega
    · simp at h
  · split at h
    · simp only [Except.ok.injEq, Prod.mk.injEq] at h
      rw [← h.2, List.length_cons]
      omega
    · simp at h

/-- The rest of a text literal with its closing quote, and what follows it. The first argument after
the quote is the number of characters already read. -/
def splitLiteral (quote : Char) (offset : Nat) (cs : List Char) :
    Except Fault (List Char × List Char) :=
  match cs with
  | [] => .error ⟨.unterminatedText, 0, 1⟩
  | c :: rest =>
    if c = '\n' then .error ⟨.newlineInText, 0, 1⟩
    else if c = '\\' then
      match _h : splitEscape offset rest with
      | .error fault => .error fault
      | .ok (escape, next) =>
        match splitLiteral quote (offset + 1 + escape.length) next with
        | .error fault => .error fault
        | .ok (inner, after) => .ok (c :: (escape ++ inner), after)
    else if c = quote then .ok ([c], rest)
    else
      match splitLiteral quote (offset + 1) rest with
      | .error fault => .error fault
      | .ok (inner, after) => .ok (c :: inner, after)
termination_by cs.length
decreasing_by
  · have := splitEscape_length _h
    simp only [List.length_cons]
    omega
  · simp

/-! ## One piece and all pieces -/

/-- The first piece of a text that starts with `c`, and what follows it. -/
def next (c : Char) (rest : List Char) : Except Fault (Piece × List Char) :=
  if Text.isBlank c then .ok (gap [c], rest)
  else if c = '/' ∧ rest.head? = some '/' then
    .ok (gap (c :: rest.takeWhile (· ≠ '\n')), rest.dropWhile (· ≠ '\n'))
  else if c = '/' ∧ rest.head? = some '*' then
    match splitComment rest.tail with
    | some (inner, after) => .ok (gap (c :: '*' :: inner), after)
    | none => .error ⟨.unterminatedComment, 0, 2⟩
  else if isQuote c then
    match splitLiteral c 1 rest with
    | .ok (inner, after) => .ok (lexeme (c :: inner), after)
    | .error fault => .error fault
  else if c = '=' ∧ rest.head? = some '>' then .ok (lexeme ['=', '>'], rest.tail)
  else if isMark c then .ok (lexeme [c], rest)
  else
    let (word, after) := splitWord rest
    .ok (lexeme (c :: word), after)

/-- A block comment and what follows it give back the text. So do the other parts of a piece below,
each by the recursion of the function that splits it off. -/
theorem splitComment_text {cs inner after : List Char}
    (h : splitComment cs = some (inner, after)) : inner ++ after = cs := by
  fun_induction splitComment cs generalizing inner after with
  | case1 => simp at h
  | case2 =>
    simp only [Option.some.injEq, Prod.mk.injEq] at h
    rw [← h.1, ← h.2]
    rfl
  | case3 c rest _ ih =>
    obtain ⟨⟨i, a⟩, hi, he⟩ := Option.map_eq_some_iff.1 h
    simp only [Prod.mk.injEq] at he
    rw [← he.1, ← he.2, List.cons_append, ih hi]

theorem splitWord_text (cs : List Char) : (splitWord cs).1 ++ (splitWord cs).2 = cs := by
  induction cs with
  | nil => rfl
  | cons c rest ih =>
    rw [splitWord]
    split
    · simp [ih]
    · rfl

theorem splitEscape_text {offset : Nat} {cs escape after : List Char}
    (h : splitEscape offset cs = .ok (escape, after)) : escape ++ after = cs := by
  unfold splitEscape at h
  split at h
  · simp at h
  · simp at h
  · dsimp only at h
    split at h
    · rename_i hlen
      simp only [Except.ok.injEq, Prod.mk.injEq] at h
      rw [← h.1, ← h.2, takeWhile_take_eq_of_length hlen, List.cons_append, List.take_append_drop]
    · simp at h
  · split at h
    · simp only [Except.ok.injEq, Prod.mk.injEq] at h
      rw [← h.1, ← h.2]
      rfl
    · simp at h

theorem splitLiteral_text {quote : Char} {offset : Nat} {cs inner after : List Char}
    (h : splitLiteral quote offset cs = .ok (inner, after)) : inner ++ after = cs := by
  fun_induction splitLiteral quote offset cs generalizing inner after with
  | case1 => simp at h
  | case2 => simp at h
  | case3 => simp at h
  | case4 => simp at h
  | case5 _ rest escape next hescape i a hi _ ih =>
    simp only [Except.ok.injEq, Prod.mk.injEq] at h
    rw [← h.1, ← h.2, List.cons_append, List.append_assoc, ih hi, splitEscape_text hescape]
  | case6 =>
    simp only [Except.ok.injEq, Prod.mk.injEq] at h
    rw [← h.1, ← h.2]
    rfl
  | case7 => simp at h
  | case8 _ c rest _ _ _ i a hi ih =>
    simp only [Except.ok.injEq, Prod.mk.injEq] at h
    rw [← h.1, ← h.2, List.cons_append, ih hi]

/-- The first piece and what follows it give back the text: nothing is lost between pieces, and
every position in a piece is one in the text. -/
theorem next_text {c : Char} {rest after : List Char} {piece : Piece}
    (h : next c rest = .ok (piece, after)) : piece.text ++ after = c :: rest := by
  unfold next at h
  split at h
  · simp only [Except.ok.injEq, Prod.mk.injEq] at h
    rw [← h.1, ← h.2]
    rfl
  split at h
  · simp only [Except.ok.injEq, Prod.mk.injEq] at h
    rw [← h.1, ← h.2]
    simp [text]
  split at h
  · rename_i hstar
    split at h
    · rename_i hcomment
      simp only [Except.ok.injEq, Prod.mk.injEq] at h
      rw [← h.1, ← h.2, text, List.cons_append, List.cons_append, splitComment_text hcomment]
      obtain ⟨_, hhead⟩ := hstar
      cases rest <;> simp_all
    · simp at h
  split at h
  · split at h
    · rename_i hliteral
      simp only [Except.ok.injEq, Prod.mk.injEq] at h
      rw [← h.1, ← h.2, text, List.cons_append, splitLiteral_text hliteral]
    · simp at h
  split at h
  · rename_i harrow
    simp only [Except.ok.injEq, Prod.mk.injEq] at h
    rw [← h.1, ← h.2]
    obtain ⟨_, hhead⟩ := harrow
    cases rest <;> simp_all [text]
  split at h
  · simp only [Except.ok.injEq, Prod.mk.injEq] at h
    rw [← h.1, ← h.2]
    rfl
  · simp only [Except.ok.injEq, Prod.mk.injEq] at h
    rw [← h.1, ← h.2, text, List.cons_append, splitWord_text]

/-- A piece is never empty. Every branch of `next` keeps the character that it looked at. -/
theorem next_text_ne_nil {c : Char} {rest after : List Char} {piece : Piece}
    (h : next c rest = .ok (piece, after)) : piece.text ≠ [] := by
  unfold next at h
  repeat' split at h
  all_goals first
    | (simp only [Except.ok.injEq, Prod.mk.injEq] at h; rw [← h.1]; simp [text])
    | simp at h

/-- What follows a piece is shorter than the text, since the two make up the text and the piece is
not empty. So the division into pieces ends. -/
theorem next_length {c : Char} {rest after : List Char} {piece : Piece}
    (h : next c rest = .ok (piece, after)) : after.length < (c :: rest).length := by
  have htext := congrArg List.length (next_text h)
  have hpos := List.length_pos_iff.2 (next_text_ne_nil h)
  rw [List.length_append] at htext
  omega

/-- The pieces of a text, up to the first fault. -/
def split (cs : List Char) : List Piece × Option Fault :=
  match cs with
  | [] => ([], none)
  | c :: rest =>
    match _h : next c rest with
    | .error fault => ([], some fault)
    | .ok (piece, after) =>
      let (pieces, fault) := split after
      (piece :: pieces, fault)
termination_by cs.length
decreasing_by exact next_length _h

end Piece

end Reskin
