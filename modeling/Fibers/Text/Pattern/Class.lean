import Fibers.Text.Pattern.Depth
import Fibers.Text.Pattern.Escape

/-!
# Bracketed classes in patterns

Sets of characters between brackets: members, ranges, names of common classes, classes inside
classes, and operators between the members before them and those behind them.
-/

namespace Fibers.Text.Pattern

/-! ## Members -/

/-- The classes that have names. -/
def classNames : List String :=
  ["alnum", "alpha", "ascii", "blank", "cntrl", "digit", "graph", "lower", "print", "punct",
    "space", "upper", "word", "xdigit"]

/-- Read the name of a class up to the bracket behind it. -/
def className? (chars : List Char) : Option (List Char) :=
  let name := chars.takeWhile (· ≠ ':')
  match chars.drop name.length with
  | ':' :: ']' :: rest => if classNames.contains (String.ofList name) then some rest else none
  | _ => none

/-- Read a class with a name behind its bracket, and whether what is outside of it is meant. -/
def namedClass? : List Char → Option (Bool × List Char)
  | ':' :: '^' :: chars => (className? chars).map (true, ·)
  | ':' :: chars => (className? chars).map (false, ·)
  | _ => none

/-- Read a member of a class. -/
def member? (flags : Flags) : List Char → Option (Escape × List Char)
  | [] => none
  | '\\' :: chars =>
    match escape? flags chars with
    | some (.literal c, rest) => if flags.allowMember c then some (.literal c, rest) else none
    | some (.set, rest) => some (.set, rest)
    | _ => none
  | c :: chars => if flags.allowMember c then some (.literal c, chars) else none

/-- Read a member of a class or a range of members. A dash before the end of the class or before
another dash makes no range. -/
def range? (flags : Flags) (chars : List Char) : Option (List Char) := do
  let (first, rest) ← member? flags chars
  match flags.skip rest with
  | '-' :: behind =>
    if flags.ahead? behind = some ']' ∨ flags.ahead? behind = some '-' then some ('-' :: behind)
    else
      match first, member? flags (flags.skip behind) with
      | .literal first, some (.literal last, rest) => if first ≤ last then some rest else none
      | _, _ => none
  | rest => some rest

/-! ## Classes -/

/-- A class whose closing bracket has not been read. -/
structure OpenClass where
  /-- Whether nothing but dashes has been read. -/
  opening : Bool := true
  /-- The depth of what stands before the last operator. -/
  left : Option Nat := none
  /-- The depths of the members behind the last operator. -/
  members : List Nat := []

namespace OpenClass

/-- The depth of what a class holds. -/
def inside (set : OpenClass) : Nat :=
  match set.left with
  | some left => 1 + max left (together set.members)
  | none => together set.members

/-- The depth of a class. -/
def depth (set : OpenClass) : Nat := 1 + set.inside

/-- Add a member with a depth. -/
def add (set : OpenClass) (depth : Nat) : OpenClass :=
  { set with opening := false, members := depth :: set.members }

/-- Pass an operator. -/
def operate (set : OpenClass) : OpenClass := { opening := false, left := some set.inside }

/-- Whether a bracket or a dash stands for itself: dashes do at the beginning of a class, and a
bracket there if no dash is before it. -/
def quotes (set : OpenClass) (c : Char) : Bool :=
  set.opening && (c == '-' || c == ']' && set.members.isEmpty)

end OpenClass

/-- Begin a class behind its bracket. What is outside of a class is not ASCII alone. -/
def beginClass? (flags : Flags) (chars : List Char) : Option (List Char) :=
  match flags.skip chars with
  | '^' :: rest => if flags.everyScript then some rest else none
  | rest => some rest

/-- Read the rest of a class, given the classes around it, innermost first. Its depth comes back.
Every step reads a character at least. -/
def class? (flags : Flags) :
    Nat → List OpenClass → OpenClass → List Char → Option (Nat × List Char)
  | 0, _, _, _ => none
  | steps + 1, around, set, chars =>
    match flags.skip chars with
    | [] => none
    | c :: rest =>
      if set.quotes c then
        if flags.allowMember c then
          class? flags steps around { set.add 0 with opening := c == '-' } rest
        else none
      else match c, rest with
        | ']', rest =>
          match around with
          | [] => some (set.depth, rest)
          | outer :: around => class? flags steps around (outer.add set.depth) rest
        | '[', rest =>
          match namedClass? rest with
          | some (negated, rest) =>
            if flags.allowNamed negated then class? flags steps around (set.add 0) rest else none
          | none => (beginClass? flags rest).bind (class? flags steps (set :: around) {})
        | '&', '&' :: rest => class? flags steps around set.operate rest
        | '-', '-' :: rest => class? flags steps around set.operate rest
        | '~', '~' :: rest => class? flags steps around set.operate rest
        | c, rest => (range? flags (c :: rest)).bind (class? flags steps around (set.add 0))

end Fibers.Text.Pattern
