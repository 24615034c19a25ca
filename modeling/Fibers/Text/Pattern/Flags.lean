import Fibers.Text.Blank

/-!
# Flags of patterns

The letters by which a pattern switches what is available in it and how it is written. Properties
that need tables of every script (digits, blanks, word characters and their boundaries, folding of
case) are available for ASCII alone, which the flag `-u` asks for. Then what could match a part of
a character is not available.
-/

namespace Fibers.Text.Pattern

/-- The flags that decide what is available and how it is written. -/
structure Flags where
  foldCase : Bool := false
  everyScript : Bool := true
  /-- Whether blanks and comments may stand between the parts of a pattern. -/
  verbose : Bool := false

/-- What follows blanks and comments, given whether the text begins inside a comment. A comment
begins with a number sign and ends with its line. -/
def skipBlanks (comment : Bool) : List Char → List Char
  | [] => []
  | c :: rest =>
    if comment then skipBlanks (c ≠ '\n') rest
    else if c == '#' then skipBlanks true rest
    else if isBlank c then skipBlanks false rest
    else c :: rest

namespace Flags

/-- Switch a flag on or off. Those that are not kept change only what is matched. -/
def switch (flags : Flags) (flag : Char) (value : Bool) : Flags :=
  match flag with
  | 'i' => { flags with foldCase := value }
  | 'u' => { flags with everyScript := value }
  | 'x' => { flags with verbose := value }
  | _ => flags

/-- What follows the blanks and comments that the flags allow. -/
def skip (flags : Flags) (chars : List Char) : List Char :=
  if flags.verbose then skipBlanks false chars else chars

/-- The next character that is not blank. Only the sign of a comment is passed over, so the text of
the comment counts. -/
def ahead? (flags : Flags) (chars : List Char) : Option Char :=
  if flags.verbose then
    match chars.dropWhile isBlank with
    | '#' :: rest => (rest.dropWhile isBlank).head?
    | rest => rest.head?
  else chars.head?

/-- Whether a character may stand for itself outside classes. -/
def allowLiteral (flags : Flags) : Bool := !(flags.foldCase && flags.everyScript)

/-- Whether a character may be a member of a class. -/
def allowMember (flags : Flags) (c : Char) : Bool :=
  if flags.everyScript then !flags.foldCase else c.toNat < 128

/-- Whether a class with a name may be a member of a class, or what is outside of it. -/
def allowNamed (flags : Flags) (negated : Bool) : Bool :=
  if flags.everyScript then !flags.foldCase else !negated

end Flags

/-- Read flags up to the colon or the bracket that ends them. No flag stands twice, and a dash
switches off the flags behind it. -/
def flags? (flags : Flags) (seen : List Char) (off dash : Bool) :
    List Char → Option (Flags × List Char)
  | [] => none
  | ':' :: chars => if dash then none else some (flags, ':' :: chars)
  | ')' :: chars => if dash then none else some (flags, ')' :: chars)
  | '-' :: chars => if off then none else flags? flags seen true true chars
  | c :: chars =>
    if "imsUuRx".contains c && !seen.contains c then
      flags? (flags.switch c !off) (c :: seen) off false chars
    else none

end Fibers.Text.Pattern
