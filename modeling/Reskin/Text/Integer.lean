/-!
# Integers in decimal

An integer is written as an optional sign and at least one digit, with no blanks anywhere. Only the
integers of 32 bits are accepted.
-/

namespace Reskin.Text

/-- The number that a run of decimal digits after `value` stands for. -/
def decimalValue? (value : Nat) : List Char → Option Nat
  | [] => some value
  | c :: cs => if c.isDigit then decimalValue? (value * 10 + (c.toNat - 48)) cs else none

/-- The number that a text of at least one decimal digit stands for. -/
def decimal? : List Char → Option Nat
  | [] => none
  | cs => decimalValue? 0 cs

/-- The integer that a text with an optional sign stands for. -/
def integer? : List Char → Option Int
  | '+' :: digits => (decimal? digits).map Int.ofNat
  | '-' :: digits => (decimal? digits).map fun n => -Int.ofNat n
  | digits => (decimal? digits).map Int.ofNat

/-- The integer of 32 bits that a text stands for. -/
def int32? (cs : List Char) : Option Int :=
  (integer? cs).filter fun n => -2147483648 ≤ n ∧ n ≤ 2147483647

end Reskin.Text
