import Fibers.Proofs.Strand.Finalizer
import Fibers.Proofs.World.Follow
import Mathlib.Tactic.IntervalCases

/-!
# The guarantee of finalizers

A fiber works on an effect above a finalizer, on whatever threads and beside whatever other fibers,
while anybody asks for its interruption at any time.

## Main results

`World.finalizer_runs_iff`: as long as the fiber is not lost, its finalizer is run as it should be
exactly if no interruption takes effect between the outcome of the effect and the end of the
finalizer. `World.finalizer_skipped` is a run in which one does, and the finalizer is never run.
-/

namespace Fibers

variable {σ : Type}

namespace World

open Strand

/-- A fiber works on an effect above a finalizer. Before it goes on with anything under the
finalizer it has left the effect, and then it has started the finalizer once and carried it to its
own end, exactly if no interruption took effect in between. Without one the finalizer is started in
the third step after the effect was left. -/
theorem finalizer_runs_iff {run : Nat → World σ} (h : Run run) {id : FiberId}
    {effect finalizer : Node σ} {stack : List (Frame σ)} {holding : Holding} {calling : Bool}
    {first last : Nat}
    (entered : (run first).scene.Shows id
      ⟨.active (.node effect) (.fold (.finalizer finalizer) :: stack), holding, calling⟩)
    (le : first ≤ last) (there : (run last).places id ≠ 0) :
    ∃ strands,
      strands first =
        ⟨.active (.node effect) (.fold (.finalizer finalizer) :: stack), holding, calling⟩ ∧
      Follows run id strands first last ∧
      (∀ exit, Leaves strands first last stack exit →
        ∃ left outcome, left < last ∧
          Leaves strands first left (.fold (.finalizer finalizer) :: stack) outcome ∧
          (Honoured finalizer outcome stack strands first left last ↔
            Undisturbed outcome stack strands left last)) ∧
      ∀ left outcome, left ≤ last →
        Leaves strands first left (.fold (.finalizer finalizer) :: stack) outcome →
        Undisturbed outcome stack strands left last → 2 < changes strands left last →
        ∃ start, left ≤ start ∧ start < last ∧
          Starts finalizer outcome stack (strands start) (strands (start + 1)) := by
  obtain ⟨strands, begins, follows⟩ := h.exists_follows entered le there
  refine ⟨strands, begins, follows, fun exit leaves => ?_, fun left outcome le leaves => ?_⟩
  · refine follows.stretch.honoured_iff ?_ leaves
    rw [begins]
    exact List.suffix_rfl
  · exact (follows.stretch.mono leaves.le le_rfl).finalizer_starts le leaves.reaches

/-- An effect that counts its runs. -/
def counted : Effect Nat .unit := .succeed (.change (· + 1))

/-- An effect on a fiber of its own, with a finalizer that counts its runs. -/
def ensured (effect : Effect Nat .unit) : Code Nat Unit := launched (effect.ensuring counted)

/-- Without an interruption the finalizer is honoured and counts one run. -/
theorem finalizer_runs : ∃ strands,
    Follows (trial 0 (ensured .unit)) ⟨1⟩ strands 2 12 ∧
    ∃ left outcome, Leaves strands 2 left [.fold (.finalizer counted.node)] outcome ∧
      Honoured counted.node outcome [] strands 2 left 12 ∧
      (trial 0 (ensured .unit) 12).heap.world = 1 := by
  have entered : (trial 0 (ensured .unit) 2).scene.Shows ⟨1⟩
      ⟨.active (.node Node.unit) [.fold (.finalizer counted.node)], ⟨{}, [], ⟨0⟩⟩, false⟩ :=
    shows_trial rfl rfl rfl rfl
  have there : (trial 0 (ensured .unit) 12).places ⟨1⟩ = {.active (.value .unit) []} := rfl
  obtain ⟨strands, begins, follows, runs_iff, -⟩ :=
    finalizer_runs_iff (run_trial 0 (ensured .unit)) entered (by decide)
      (there ▸ Multiset.singleton_ne_zero _)
  have leaves : Leaves strands 2 12 [] (.success .unit) := by
    refine follows.leaves (by decide) there fun n low high => ?_
    interval_cases n <;> exact ⟨_, rfl, nofun⟩
  obtain ⟨left, outcome, lt, left', honoured⟩ := runs_iff _ leaves
  have fresh : (strands 12).holding.flags.finalizing = false := by
    rw [follows.holding_eq (by decide) le_rfl rfl]
    rfl
  have calm := follows.stretch.calm fresh
  refine ⟨strands, follows, left, outcome, left',
    honoured.mpr fun n low high interrupted => ?_, rfl⟩
  exact absurd interrupted (calm n (left'.le.trans low) high)

/-- The effect asks for its own interruption and succeeds; the interruption takes effect after the
finalizer has become the next effect, which therefore is dropped. The fiber ends, and the finalizer
has never run. -/
theorem finalizer_skipped :
    let run := trial 0 (ensured interruptSelf)
    Run run ∧
      (run 3).places ⟨1⟩ = {.active (.thunk (.interrupt ⟨1⟩ fun _ => .done .unit))
        [.fold (.finalizer counted.node)]} ∧
      (run 5).places ⟨1⟩ = {.active (.value .unit) [.fold (.finalizer counted.node)]} ∧
      (run 7).places ⟨1⟩ = {.active (.node (counted.node.andThen (.succeed .unit))) []} ∧
      (run 8).places ⟨1⟩ = {.active (.node (.failNow .interrupt))
        [.apply (.constant (counted.node.andThen (.succeed .unit)))]} ∧
      (run 11).heap.poll ⟨1⟩ = some (.failure .interrupt) ∧ (run 11).heap.world = 0 := by
  exact ⟨run_trial _ _, rfl, rfl, rfl, rfl, rfl, rfl⟩

end World

end Fibers
