/-!
# Patterns with wildcards

In a pattern, `*` stands for any run of characters and `?` for any single one; every other character
stands for itself. Pattern and text are laid side by side up to the next `*`. What follows a `*` is
tried at one place of the text after the other, so each `*` absorbs as little as it can. Once the
next `*` is reached, the one before it is never revisited.
-/

namespace Reskin.Glob

def hasWildcard (pattern : String) : Bool :=
  pattern.toList.any fun c => c = '*' || c = '?'

/-- Where pattern and text come to when they are laid side by side. -/
inductive Outcome where
  /-- To characters that differ, or to the end of the pattern only. -/
  | mismatch
  /-- To the end of the text, with a rest of the pattern. -/
  | ended (pattern : List Char)
  /-- To a `*`, with the rest of the pattern behind it and the rest of the text. -/
  | star (pattern text : List Char)
deriving DecidableEq, Inhabited, Repr

/-- Lays a pattern and a text side by side, up to the next `*`. -/
def align : List Char → List Char → Outcome
  | pattern, [] => .ended pattern
  | [], _ :: _ => .mismatch
  | c :: pattern, x :: text =>
    if c = '*' then .star pattern (x :: text)
    else if c = '?' || c = x then align pattern text
    else .mismatch

/-- Lays a pattern and the first suffix of a text that fits side by side. -/
def search (pattern : List Char) : List Char → Outcome
  | [] => align pattern []
  | x :: text =>
    match align pattern (x :: text) with
    | .mismatch => search pattern text
    | outcome => outcome

namespace Outcome

/-- How much of a pattern has still to be tried. -/
def remaining : Outcome → Nat
  | star pattern _ => pattern.length + 1
  | mismatch | ended _ => 0

/-- The rest of the pattern behind the next `*` is shorter than the pattern, whatever the text is.
Together with `remaining_search_le` this is why `isMatch` ends. -/
theorem remaining_align_le (pattern text : List Char) :
    (align pattern text).remaining ≤ pattern.length := by
  fun_induction align pattern text with
  | case1 => exact Nat.zero_le _
  | case2 => exact Nat.zero_le _
  | case3 => exact Nat.le_refl _
  | case4 _ _ _ _ _ _ ih => exact Nat.le_succ_of_le ih
  | case5 => exact Nat.zero_le _

theorem remaining_search_le (pattern text : List Char) :
    (search pattern text).remaining ≤ pattern.length := by
  fun_induction search pattern text with
  | case1 => exact remaining_align_le pattern []
  | case2 _ _ _ ih => exact ih
  | case3 x text => exact remaining_align_le pattern (x :: text)

/-- Whether the text matches the pattern, if they come to this point. The pattern gets shorter with
every `*`, and the text is searched anew for what follows it. -/
def isMatch (outcome : Outcome) : Bool :=
  match outcome with
  | mismatch => false
  | ended pattern => pattern.all (· = '*')
  | star pattern text => (search pattern text).isMatch
termination_by outcome.remaining
decreasing_by exact Nat.lt_succ_of_le (remaining_search_le pattern text)

end Outcome

def isMatch (pattern text : String) : Bool :=
  (align pattern.toList text.toList).isMatch

end Reskin.Glob
