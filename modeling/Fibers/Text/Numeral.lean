import Fibers.Text.Blank

/-!
# Numerals

Decimal numbers as people write them into settings: blanks around them are ignored, a plus sign may
stand in front, and leading zeros do not count.
-/

namespace Fibers.Text

/-- The value of an ASCII digit. -/
def digit? (c : Char) : Option Nat := if c.isDigit then some (c.toNat - '0'.toNat) else none

/-- The number that digits stand for, after a number already read. -/
def digits? : List Char → Nat → Option Nat
  | [], value => some value
  | c :: rest, value =>
    match digit? c with
    | some d => digits? rest (10 * value + d)
    | none => none

/-- The number that a list of characters stands for: one digit at least, perhaps behind a plus
sign. -/
def unsigned? : List Char → Option Nat
  | [] => none
  | ['+'] => none
  | '+' :: rest => digits? rest 0
  | chars => digits? chars 0

/-- Read a number that fits a machine word. -/
def word? (text : String) : Option Nat :=
  match unsigned? (trim text.toList) with
  | some n => if n < 18446744073709551616 then some n else none
  | none => none

end Fibers.Text
