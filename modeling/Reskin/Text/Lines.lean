import Reskin.Text.Split

/-!
# Lines of a text

Only a newline ends a line. A carriage return in front of it belongs to the line break, not to the
line.
-/

namespace Reskin.Text

/-- A line without the carriage return at its end. -/
def dropReturn (line : List Char) : List Char :=
  if line.getLast? = some '\r' then line.dropLast else line

/-- The line with the given number, counted from one. A text that ends in a newline has an empty
last line. -/
def line? (cs : List Char) (number : Nat) : Option (List Char) :=
  match number with
  | 0 => none
  | index + 1 => ((splitAll '\n' cs)[index]?).map dropReturn

/-- The lines of a message, of which an empty last one is not counted. The last line keeps its
carriage return if no newline follows it. -/
def messageLines (cs : List Char) : List (List Char) :=
  match (splitAll '\n' cs).reverse with
  | [] => []
  | last :: before =>
    let complete := before.reverse.map dropReturn
    if last.isEmpty then complete else complete ++ [last]

end Reskin.Text
