/-!
# Sets of characters as runs

A property of characters that no rule describes is given by data: the code points at which the
characters with the property and those without it take turns. The data below follow version 17 of
the Unicode standard.
-/

namespace Fibers.Text

/-- A set of code points, given by where its runs begin and end, in ascending order; the first
boundary begins a run that belongs to the set. -/
structure Runs where
  boundaries : Array Nat

/-- Whether a character belongs to the set: an odd number of boundaries are at or before it. -/
def Runs.contains (runs : Runs) (c : Char) : Bool :=
  runs.boundaries.foldl
    (fun inside boundary => if boundary ≤ c.toNat then !inside else inside) false

end Fibers.Text
