import Fibers.Text.Shape

/-!
# Quoted text

The form in which names stand in descriptions of values: between double quotes, with quotes,
backslashes and characters without a shape spelled out.
-/

namespace Fibers.Text

/-- The digits of a number in base sixteen, without leading zeros. -/
def hexadecimal (n : Nat) : String := String.ofList (Nat.toDigits 16 n)

/-- A character inside quoted text. -/
def quoteChar (c : Char) : String :=
  if c = '\x00' then "\\0"
  else if c = '\t' then "\\t"
  else if c = '\r' then "\\r"
  else if c = '\n' then "\\n"
  else if c = '"' then "\\\""
  else if c = '\\' then "\\\\"
  else if isShapeless c then "\\u\x7b" ++ hexadecimal c.toNat ++ "\x7d"
  else c.toString

/-- A text between double quotes. -/
def quote (text : String) : String :=
  "\"" ++ text.toList.foldl (fun quoted c => quoted ++ quoteChar c) "" ++ "\""

end Fibers.Text
