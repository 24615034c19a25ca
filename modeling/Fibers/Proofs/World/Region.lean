import Fibers.Proofs.Strand.Scope
import Fibers.Proofs.Strand.Status
import Fibers.Proofs.World.Follow
import Mathlib.Tactic.IntervalCases

/-!
# Regions under interruption

A fiber runs an effect with an environment or with an interrupt status of its own, on whatever
threads and beside whatever other fibers, while anybody asks for its interruption at any time.

## Main results

`World.region_restored_iff`: when the fiber comes to the first frame under the region, its
environments, or its status, are those from before the region, exactly if no interruption took
effect where they were about to be put back. `World.scope_leaked` is a run in which one does, and a
handler outside the region sees the environment from inside.
-/

namespace Fibers

variable {σ : Type}

namespace World

open Strand

/-- A fiber begins a region. When it comes to the frames under it for the first time, whatever the
outcome, it has the environments from before the region exactly if no interruption took effect where
it was about to drop one, and the status from before the region exactly if no interruption took
effect where that was about to be put back, or it is the interruptible one anyway. -/
theorem region_restored_iff {run : Nat → World σ} (h : Run run) {id : FiberId} {effect : Node σ}
    (authored : effect.Authored) {stack : List (Frame σ)} {holding : Holding} {calling : Bool}
    {first last : Nat} (le : first ≤ last) (there : (run last).places id ≠ 0) :
    (∀ environment,
        (run first).scene.Shows id
          ⟨.active (.node (.provide effect environment)) stack, holding, calling⟩ →
        ∃ strands, Follows run id strands first last ∧
          ∀ exit, Leaves strands first last stack exit →
            ((strands last).holding.environments = holding.environments ↔
              ∀ n, first ≤ n → n < last → ¬Misses (strands n) (strands (n + 1)))) ∧
      ∀ status,
        (run first).scene.Shows id
          ⟨.active (.node (.withStatus effect status)) stack, holding, calling⟩ →
        ∃ strands, Follows run id strands first last ∧
          ∀ exit, Leaves strands first last stack exit →
            ((strands last).holding.flags.status = holding.flags.status ↔
              holding.flags.status = .interruptible ∨ ∀ n, first ≤ n → n < last →
                ¬Skips holding.flags.status stack (strands n) (strands (n + 1))) := by
  constructor
  · intro environment entered
    obtain ⟨strands, begins, follows⟩ := h.exists_follows entered le there
    exact ⟨strands, follows, fun exit leaves =>
      follows.stretch.environments_iff (.provide authored environment) begins leaves⟩
  · intro status entered
    obtain ⟨strands, begins, follows⟩ := h.exists_follows entered le there
    exact ⟨strands, follows, fun exit leaves => follows.stretch.status_iff begins leaves⟩

/-- Without an interruption an environment and a status are put back. -/
theorem region_restored :
    (∃ strands, Follows (trial () (launched (Effect.unit.provide (R := .int) 7))) ⟨1⟩ strands 1 10 ∧
      (strands 10).holding.environments = []) ∧
    ∃ strands, Follows (trial () (launched Effect.unit.uninterruptible)) ⟨1⟩ strands 1 10 ∧
      (strands 10).holding.flags.status = .interruptible := by
  constructor
  · have entered : (trial () (launched (Effect.unit.provide (R := .int) 7)) 1).scene.Shows ⟨1⟩
        ⟨.active (.node (.provide Node.unit ⟨.int, 7⟩)) [], ⟨{}, [], ⟨0⟩⟩, false⟩ :=
      shows_trial rfl rfl rfl rfl
    have there : (trial () (launched (Effect.unit.provide (R := .int) 7)) 10).places ⟨1⟩ =
        {.active (.value .unit) []} := rfl
    obtain ⟨strands, follows, restored⟩ := (region_restored_iff (run_trial _ _)
      Effect.authored_unit (by decide) (there ▸ Multiset.singleton_ne_zero _)).1 _ entered
    have leaves : Leaves strands 1 10 [] (.success .unit) := by
      refine follows.leaves (by decide) there fun n low high => ?_
      interval_cases n <;> exact ⟨_, rfl, nofun⟩
    have fresh : (strands 10).holding.flags.finalizing = false := by
      rw [follows.holding_eq (by decide) le_rfl rfl]
      rfl
    have calm := follows.stretch.calm fresh
    exact ⟨strands, follows, (restored _ leaves).mpr fun n low high misses =>
      calm n low high misses.1⟩
  · have entered : (trial () (launched Effect.unit.uninterruptible) 1).scene.Shows ⟨1⟩
        ⟨.active (.node (.withStatus Node.unit .uninterruptible)) [], ⟨{}, [], ⟨0⟩⟩, false⟩ :=
      shows_trial rfl rfl rfl rfl
    have there : (trial () (launched Effect.unit.uninterruptible) 10).places ⟨1⟩ =
        {.active (.value .unit) []} := rfl
    obtain ⟨strands, follows, restored⟩ := (region_restored_iff (run_trial _ _)
      Effect.authored_unit (by decide) (there ▸ Multiset.singleton_ne_zero _)).2 _ entered
    have leaves : Leaves strands 1 10 [] (.success .unit) := by
      refine follows.leaves (by decide) there fun n low high => ?_
      interval_cases n <;> exact ⟨_, rfl, nofun⟩
    exact ⟨strands, follows, (restored _ leaves).mpr (.inl rfl)⟩

/-- A region that asks for the interruption of its own fiber, and then looks at the environment. -/
def leaking : Effect Unit .int :=
  (interruptSelf.provide (R := .int) 2).foldCauseEffect
    (fun _ => .done Effect.environment) fun _ => .done Effect.environment

/-- The interruption takes effect where the inner environment is about to be dropped, so a handler
outside the inner region sees it. In the same way an uninterruptible region is left interruptible if
the interruption takes effect at the end of an interruptible one inside. -/
theorem scope_leaked :
    (let run := trial () (launched (leaking.provide (R := .int) 1))
     Run run ∧
      (run 3).heap.environments ⟨1⟩ = [⟨.int, 1⟩] ∧
      (run 14).places ⟨1⟩ = {.active (.node (Effect.environment : Effect Unit .int).node)
        [.fold (.finalizer .leaveScope)]} ∧
      (run 14).heap.environments ⟨1⟩ = [⟨.int, 2⟩, ⟨.int, 1⟩] ∧
      (run 26).heap.poll ⟨1⟩ = some (.success ⟨.int, 2⟩)) ∧
    let run := trial () (launched interruptSelf.interruptible.uninterruptible)
    Run run ∧
      (run 2).places ⟨1⟩ = {.active (.node interruptSelf.interruptible.node)
        [.fold (.finalizer (.restoreStatus .interruptible))]} ∧
      (run 2).heap.status ⟨1⟩ = .uninterruptible ∧
      (run 12).places ⟨1⟩ = {.active (.building (.done
        ((Node.restoreStatus .interruptible).andThen (.failNow .interrupt)))) []} ∧
      (run 12).heap.status ⟨1⟩ = .interruptible := by
  exact ⟨⟨run_trial _ _, rfl, rfl, rfl, rfl⟩, run_trial _ _, rfl, rfl, rfl, rfl⟩

end World

end Fibers
