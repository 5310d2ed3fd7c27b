/-!
# References to variables in a text

A reference is written `$(name)`. A text is read once, from left to right, as characters and
references; the values that are put in are not read again. A `$(` without a closing parenthesis
after it is plain text.
-/

namespace Reskin.Interpolation

/-- A plain character, or a reference to a variable. -/
inductive Segment where
  | char (c : Char)
  | reference (name : List Char)
deriving DecidableEq, Inhabited, Repr

def segments (cs : List Char) : List Segment :=
  match cs with
  | [] => []
  | '$' :: '(' :: rest =>
    match _h : rest.dropWhile (· ≠ ')') with
    | _ :: after => .reference (rest.takeWhile (· ≠ ')')) :: segments after
    | [] => .char '$' :: segments ('(' :: rest)
  | c :: rest => .char c :: segments rest
termination_by cs.length
decreasing_by
  · have hle := (List.dropWhile_sublist (l := rest) fun c => decide (c ≠ ')')).length_le
    rw [_h, List.length_cons] at hle
    simp only [List.length_cons]
    omega
  · simp
  · simp

/-- The names that a text refers to, in order and with repetitions. -/
def references (text : String) : List String :=
  (segments text.toList).filterMap fun
    | .char _ => none
    | .reference name => some (String.ofList name)

/-- What a segment is replaced by. A reference without a value gives nothing. -/
def Segment.fill (lookup : String → Option String) : Segment → List Char
  | .char c => [c]
  | .reference name => ((lookup (String.ofList name)).getD "").toList

/-- A text with its references replaced. -/
def fill (lookup : String → Option String) (text : String) : String :=
  String.ofList ((segments text.toList).flatMap (Segment.fill lookup))

/-- The names in a text that have no value, in order and with repetitions. -/
def unresolved (lookup : String → Option String) (text : String) : List String :=
  (references text).filter fun name => (lookup name).isNone

end Reskin.Interpolation
