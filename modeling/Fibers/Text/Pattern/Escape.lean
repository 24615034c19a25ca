import Fibers.Text.Pattern.Flags

/-!
# Escapes in patterns

What a backslash and the characters behind it stand for.
-/

namespace Fibers.Text.Pattern

/-- What an escape stands for. -/
inductive Escape where
  | literal (c : Char)
  | set
  | boundary

/-- The value of a hexadecimal digit. -/
def hexDigit? (c : Char) : Option Nat :=
  if c.isDigit then some (c.toNat - 48)
  else if 'a' ≤ c ∧ c ≤ 'f' then some (c.toNat - 87)
  else if 'A' ≤ c ∧ c ≤ 'F' then some (c.toNat - 55)
  else none

/-- Read the code point of a character, written with a given number of digits behind those that
gave the value. -/
def codePoint? (flags : Flags) : Nat → Nat → List Char → Option (Char × List Char)
  | 0, value, chars => if value.isValidChar then some (.ofNat value, chars) else none
  | digits + 1, value, chars =>
    match flags.skip chars with
    | c :: rest => (hexDigit? c).bind fun digit => codePoint? flags digits (16 * value + digit) rest
    | [] => none

/-- Read an escape behind its backslash. Punctuation stands for itself. Two digits write a byte,
which is a character by itself in ASCII alone. -/
def escape? (flags : Flags) : List Char → Option (Escape × List Char)
  | [] => none
  | 'x' :: chars => do
    let (c, rest) ← codePoint? flags 2 0 chars
    if flags.everyScript || c.toNat < 128 then some (.literal c, rest) else none
  | 'u' :: chars => (codePoint? flags 4 0 chars).map fun (c, rest) => (.literal c, rest)
  | 'U' :: chars => (codePoint? flags 8 0 chars).map fun (c, rest) => (.literal c, rest)
  | c :: chars =>
    match c with
    | 'a' => some (.literal '\x07', chars)
    | 'f' => some (.literal '\x0c', chars)
    | 'n' => some (.literal '\n', chars)
    | 'r' => some (.literal '\r', chars)
    | 't' => some (.literal '\t', chars)
    | 'v' => some (.literal '\x0b', chars)
    | 'A' | 'z' => some (.boundary, chars)
    | 'd' | 's' | 'w' => if flags.everyScript then none else some (.set, chars)
    | 'b' | 'B' | '<' | '>' => if flags.everyScript then none else some (.boundary, chars)
    | _ => if c.toNat < 128 && !c.isAlphanum then some (.literal c, chars) else none

end Fibers.Text.Pattern
