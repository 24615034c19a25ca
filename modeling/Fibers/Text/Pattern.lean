import Fibers.Text.Alphanumeric
import Fibers.Text.Pattern.Class

/-!
# Patterns

Whether a text is a regular expression: groups and their flags, alternatives, repetitions that
follow something, bracketed classes, and escapes, none of them too deep inside others. Nothing is
matched here. Counted repetitions are not available.
-/

namespace Fibers.Text.Pattern

/-! ## Groups -/

/-- A group whose closing bracket has not been read, or the whole pattern. -/
structure OpenGroup where
  /-- The depths of the alternatives before the last one. -/
  alternatives : List Nat := []
  /-- The depths of the parts of the last alternative, last first. -/
  parts : List Nat := []
  /-- Whether the last part is something that can be repeated. -/
  repeatable : Bool := false

namespace OpenGroup

/-- The depth of what a group holds. -/
def inside (group : OpenGroup) : Nat := together (together group.parts :: group.alternatives)

/-- Add a part with a depth. -/
def add (group : OpenGroup) (depth : Nat) : OpenGroup :=
  { group with parts := depth :: group.parts, repeatable := true }

/-- Add flags, which are a part that cannot be repeated. -/
def addFlags (group : OpenGroup) : OpenGroup :=
  { group with parts := 0 :: group.parts, repeatable := false }

/-- Begin another alternative. -/
def alternate (group : OpenGroup) : OpenGroup :=
  { alternatives := together group.parts :: group.alternatives }

/-- Repeat the last part, which may be a repetition itself. -/
def repeat? (group : OpenGroup) : Option OpenGroup :=
  match group.parts with
  | depth :: parts =>
    if group.repeatable then some { group with parts := (depth + 1) :: parts } else none
  | [] => none

end OpenGroup

/-- Whether the name of a group is well formed. -/
def isGroupName : List Char → Bool
  | [] => false
  | c :: rest =>
    (c == '_' || isAlphabetic c) &&
      rest.all fun c => c == '_' || c == '.' || c == '[' || c == ']' || isAlphanumeric c

/-! ## Reading -/

/-- Where a reader of a pattern stands. -/
structure Reader where
  flags : Flags := {}
  /-- The innermost open group. -/
  group : OpenGroup := {}
  /-- The groups around it with their flags, innermost first. -/
  around : List (Flags × OpenGroup) := []
  /-- The names given to groups. -/
  names : List (List Char) := []

namespace Reader

/-- Pass a part with a depth. -/
def pass (reader : Reader) (depth : Nat) : Reader :=
  { reader with group := reader.group.add depth }

/-- Begin a group with flags of its own. -/
def openGroup (reader : Reader) (flags : Flags) : Reader :=
  { reader with
    flags := flags
    group := {}
    around := (reader.flags, reader.group) :: reader.around }

/-- End the innermost group, and with it the reach of its flags. -/
def closeGroup? (reader : Reader) : Option Reader :=
  match reader.around with
  | (flags, outer) :: around =>
    some { reader with
      flags := flags
      group := outer.add (1 + reader.group.inside)
      around := around }
  | [] => none

/-- Begin a group with a name, which no other group has. -/
def namedGroup? (reader : Reader) (chars : List Char) : Option (Reader × List Char) :=
  let name := chars.takeWhile (· ≠ '>')
  match chars.drop name.length with
  | '>' :: rest =>
    if isGroupName name && !reader.names.contains name then
      some ({ reader.openGroup reader.flags with names := name :: reader.names }, rest)
    else none
  | _ => none

/-- Begin a group behind its bracket, or switch flags for the rest of the group around. -/
def group? (reader : Reader) (chars : List Char) : Option (Reader × List Char) :=
  match reader.flags.skip chars with
  | '?' :: 'P' :: '<' :: rest => reader.namedGroup? rest
  | '?' :: '<' :: rest => reader.namedGroup? rest
  | '?' :: ')' :: _ => none
  | '?' :: rest =>
    match flags? reader.flags [] false false rest with
    | some (flags, ':' :: rest) => some (reader.openGroup flags, rest)
    | some (flags, _ :: rest) =>
      some ({ reader with flags := flags, group := reader.group.addFlags }, rest)
    | _ => none
  | rest => some (reader.openGroup reader.flags, rest)

/-- Read a part of a pattern, or of what joins its parts, that begins with a character. -/
def part? (reader : Reader) (c : Char) (chars : List Char) : Option (Reader × List Char) :=
  match c with
  | '(' => reader.group? chars
  | ')' => reader.closeGroup?.map (·, chars)
  | '|' => some ({ reader with group := reader.group.alternate }, chars)
  | '*' | '+' | '?' =>
    let rest := match chars with
      | '?' :: rest => rest
      | _ => chars
    reader.group.repeat?.map fun group => ({ reader with group := group }, rest)
  | '{' => none
  | '[' => do
    let (depth, rest) ← (beginClass? reader.flags chars).bind
      (class? reader.flags chars.length [] {})
    some (reader.pass depth, rest)
  | '\\' =>
    match escape? reader.flags chars with
    | some (.literal _, rest) =>
      if reader.flags.allowLiteral then some (reader.pass 0, rest) else none
    | some (_, rest) => some (reader.pass 0, rest)
    | none => none
  | '^' | '$' => some (reader.pass 0, chars)
  | '.' => if reader.flags.everyScript then some (reader.pass 0, chars) else none
  | _ => if reader.flags.allowLiteral then some (reader.pass 0, chars) else none

/-- Whether a pattern may end here: no group is open, and nothing is too deep. -/
def isComplete (reader : Reader) : Bool :=
  reader.around.isEmpty && reader.group.inside ≤ maxDepth

/-- Whether the rest of a pattern can be read; every step reads a character at least. -/
def canRead (reader : Reader) : Nat → List Char → Bool
  | 0, chars => (reader.flags.skip chars).isEmpty && reader.isComplete
  | steps + 1, chars =>
    match reader.flags.skip chars with
    | [] => reader.isComplete
    | c :: rest =>
      match reader.part? c rest with
      | some (reader, rest) => reader.canRead steps rest
      | none => false

end Reader

end Pattern

/-- Whether a text is a regular expression. -/
def isPattern (text : String) : Bool :=
  Pattern.Reader.canRead {} text.toList.length text.toList

end Fibers.Text
