/-!
# Depth of patterns

A pattern is a tree: groups, repetitions, bracketed classes and their operators hold other patterns,
and so do sequences and alternatives of several. Its depth is the number of these from the outside
to the innermost part.
-/

namespace Fibers.Text.Pattern

/-- The depth that a pattern may have. -/
def maxDepth : Nat := 250

/-- The depth of parts that stand side by side. A part alone is not inside anything. -/
def together : List Nat → Nat
  | [] => 0
  | [depth] => depth
  | depths => 1 + depths.foldl max 0

theorem foldl_max_le_iff (depths : List Nat) (first bound : Nat) :
    depths.foldl max first ≤ bound ↔ first ≤ bound ∧ ∀ depth ∈ depths, depth ≤ bound := by
  induction depths generalizing first with
  | nil => simp
  | cons depth depths ih =>
    rw [List.foldl_cons, ih, List.forall_mem_cons, Nat.max_le, and_assoc]

/-- Parts that stand side by side are one level deeper than each of them. -/
theorem together_le_iff (a b : Nat) (rest : List Nat) (bound : Nat) :
    together (a :: b :: rest) ≤ bound ↔ ∀ depth ∈ a :: b :: rest, depth < bound := by
  have inside := foldl_max_le_iff (a :: b :: rest) 0 (bound - 1)
  have pass : together (a :: b :: rest) = 1 + (a :: b :: rest).foldl max 0 := rfl
  rw [pass]
  constructor
  · intro h depth member
    have := (inside.mp (by omega)).2 depth member
    omega
  · intro h
    have positive := h a (.head _)
    have := inside.mpr ⟨Nat.zero_le _, fun depth member => Nat.le_pred_of_lt (h depth member)⟩
    omega

end Fibers.Text.Pattern
