import Mathlib.Algebra.BigOperators.Group.Finset.Basic
import Mathlib.Data.Multiset.OrderedMonoid
import Mathlib.Tactic.Abel

/-!
# Tallies

The total contribution of the elements of an array to a multiset, and what becomes of it when one
element is changed or added. Each table of the heap is tallied in this way.
-/

namespace Fibers

variable {α β : Type}

/-- What the elements of an array contribute together, each from its place. -/
def tally (f : Nat → α → Multiset β) (xs : Array α) : Multiset β :=
  ∑ i ∈ Finset.range xs.size, (xs[i]?).elim 0 (f i)

@[simp] theorem tally_push (f : Nat → α → Multiset β) (xs : Array α) (a : α) :
    tally f (xs.push a) = tally f xs + f xs.size a := by
  unfold tally
  rw [Array.size_push, Finset.sum_range_succ]
  congr 1
  · refine Finset.sum_congr rfl fun i hi => ?_
    rw [Array.getElem?_push, if_neg (Finset.mem_range.mp hi).ne]
  · simp

/-- One element stands out from the rest, which do not notice a change of it. -/
theorem exists_tally_modify (f : Nat → α → Multiset β) {xs : Array α} {i : Nat} {a : α}
    (h : xs[i]? = some a) :
    ∃ rest, tally f xs = f i a + rest ∧
      ∀ g : α → α, tally f (xs.modify i g) = f i (g a) + rest := by
  have hi : i ∈ Finset.range xs.size := by
    rw [Finset.mem_range]
    exact (Array.getElem?_eq_some_iff.mp h).1
  refine ⟨∑ j ∈ (Finset.range xs.size).erase i, (xs[j]?).elim 0 (f j), ?_, fun g => ?_⟩
  · rw [tally, ← Finset.add_sum_erase _ _ hi, h]
    rfl
  · rw [tally, Array.size_modify, ← Finset.add_sum_erase _ _ hi]
    congr 1
    · simp [Array.getElem?_modify, h]
    · refine Finset.sum_congr rfl fun j hj => ?_
      rw [Array.getElem?_modify, if_neg (Finset.ne_of_mem_erase hj).symm]

theorem tally_modify_of_none (f : Nat → α → Multiset β) {xs : Array α} {i : Nat} (g : α → α)
    (h : xs[i]? = none) : tally f (xs.modify i g) = tally f xs := by
  unfold tally
  rw [Array.size_modify]
  refine Finset.sum_congr rfl fun j hj => ?_
  rw [Array.getElem?_modify]
  split
  next same => subst same; simp [h]
  next => rfl

theorem tally_modify (f : Nat → α → Multiset β) {xs : Array α} {i : Nat} (g : α → α)
    (h : ∀ a, xs[i]? = some a → f i (g a) = f i a) : tally f (xs.modify i g) = tally f xs := by
  cases at_i : xs[i]? with
  | none => exact tally_modify_of_none f g at_i
  | some a =>
    obtain ⟨rest, before, after⟩ := exists_tally_modify f at_i
    rw [after, before, h a at_i]

theorem tally_eq_zero (f : Nat → α → Multiset β) (xs : Array α)
    (h : ∀ i a, xs[i]? = some a → f i a = 0) : tally f xs = 0 := by
  refine Finset.sum_eq_zero fun i _ => ?_
  cases at_i : xs[i]? with
  | none => rfl
  | some a => exact h i a at_i

/-- What is in a tally comes from some element. -/
theorem exists_mem_of_mem_tally {f : Nat → α → Multiset β} {xs : Array α} {b : β}
    (mem : b ∈ tally f xs) : ∃ i a, xs[i]? = some a ∧ b ∈ f i a := by
  obtain ⟨i, _, mem⟩ := Multiset.mem_sum.mp mem
  cases at_i : xs[i]? with
  | none => simp [at_i] at mem
  | some a => exact ⟨i, a, at_i, by simpa [at_i] using mem⟩

/-- What is in a sum over a list comes from some element. -/
theorem exists_mem_of_mem_sum {f : α → Multiset β} {xs : List α} {b : β}
    (mem : b ∈ (xs.map f).sum) : ∃ a ∈ xs, b ∈ f a := by
  induction xs with
  | nil => simp at mem
  | cons x xs ih =>
    rw [List.map_cons, List.sum_cons, Multiset.mem_add] at mem
    rcases mem with here | later
    · exact ⟨x, List.mem_cons_self, here⟩
    · obtain ⟨a, known, mem⟩ := ih later
      exact ⟨a, List.mem_cons_of_mem _ known, mem⟩

/-- Of one thing at most, nothing is left once it has been found. -/
theorem eq_zero_of_card_add_le_one {α : Type} {found left : Multiset α}
    (single : (found + left).card ≤ 1) (there : found ≠ 0) : left = 0 := by
  have one := Multiset.card_pos.mpr there
  rw [Multiset.card_add] at single
  exact Multiset.card_eq_zero.mp (by omega)

end Fibers
