/-!
# Splitting a text at a character

Three ways to cut a text at a separator: at its first occurrence, at its last one, and at all of
them. The separator itself belongs to no part.
-/

namespace Reskin.Text

/-- The parts before and after the first `separator`, if there is one. -/
def splitFirst (separator : Char) : List Char → Option (List Char × List Char)
  | [] => none
  | c :: cs =>
    if c = separator then some ([], cs)
    else (splitFirst separator cs).map fun (before, after) => (c :: before, after)

/-- The parts before and after the last `separator`, if there is one. -/
def splitLast (separator : Char) : List Char → Option (List Char × List Char)
  | [] => none
  | c :: cs =>
    match splitLast separator cs with
    | some (before, after) => some (c :: before, after)
    | none => if c = separator then some ([], cs) else none

/-- All parts between the separators, empty ones included. -/
def splitAll (separator : Char) : List Char → List (List Char)
  | [] => [[]]
  | c :: cs =>
    if c = separator then [] :: splitAll separator cs
    else
      match splitAll separator cs with
      | [] => [[c]]
      | part :: parts => (c :: part) :: parts

/-- A text has at least one part, so the last part exists. -/
theorem splitAll_ne_nil (separator : Char) (cs : List Char) : splitAll separator cs ≠ [] := by
  cases cs with
  | nil => simp [splitAll]
  | cons c cs =>
    rw [splitAll]
    split
    · simp
    · split <;> simp

end Reskin.Text
