import Fibers.Effect.Basic
import Fibers.Proofs.World.Reach

/-!
# Trials

A trial runs one program on a machine that has one executor, which runs every task at once.
-/

namespace Fibers.World

variable {σ : Type}

/-- A machine with nothing but an executor that runs every task at once. -/
def bare (state : σ) : World σ :=
  initial state #[{ name := "immediate", discipline := .inline }] .off #[]

/-- A program on a bare machine, after a number of steps. -/
def trial (state : σ) (program : Code σ Unit) : Nat → World σ
  | 0 => { bare state with main := (bare state).main.push (.program program) }
  | n + 1 => (trial state program n).stepMain

theorem fresh_bare (state : σ) : (bare state).Fresh := by
  refine fresh_initial state .off ?_ ?_
  · intro executor mem
    obtain rfl : executor = { name := "immediate", discipline := .inline } := by simpa using mem
    rfl
  · intro thread mem
    simp at mem

theorem reachable_trial_zero (state : σ) (program : Code σ Unit) :
    (trial state program 0).Reachable := by
  have idle : (bare state).main.control = [] := rfl
  exact ⟨bare state, fresh_bare state,
    .single (.begin idle [program] rfl (replaces_main _ _ _ _ _))⟩

theorem run_trial (state : σ) (program : Code σ Unit) : Run (trial state program) :=
  ⟨reachable_trial_zero state program, fun _ => step_stepMain _⟩

theorem others_trial (state : σ) (program : Code σ Unit) (n : Nat) :
    (trial state program n).others = #[] := by
  induction n with
  | zero => rfl
  | succ n ih => exact ih

/-- A trial, with the bare machine before it. -/
def staged (state : σ) (program : Code σ Unit) : Nat → World σ
  | 0 => bare state
  | n + 1 => trial state program n

theorem run_staged (state : σ) (program : Code σ Unit) : Run (staged state program) where
  origin := ⟨bare state, fresh_bare state, .refl⟩
  step n := by
    cases n with
    | zero => exact .begin rfl [program] rfl (replaces_main _ _ _ _ _)
    | succ n => exact step_stepMain _

theorem stepMain_of_idle {world : World σ} (idle : world.main.control = [])
    (calm : world.main.panicking = none) : world.stepMain = world := by
  obtain ⟨heap, ⟨id, name, role, pending, control, panicking⟩, others⟩ := world
  cases idle
  cases calm
  rfl

/-- A trial that has come to rest stays as it is. -/
theorem trial_of_idle {state : σ} {program : Code σ Unit} {last n : Nat}
    (idle : (trial state program last).main.control = [])
    (calm : (trial state program last).main.panicking = none) (later : last ≤ n) :
    trial state program n = trial state program last := by
  induction n, later using Nat.le_induction with
  | base => rfl
  | succ n _ ih =>
    rw [trial, ih]
    exact stepMain_of_idle idle calm

/-- A program that runs one effect on a fiber of its own. -/
def launched {A : Ty} (effect : Effect σ A) : Code σ Unit :=
  .launch ⟨0⟩ effect.node fun _ => .done ()

/-- The effect asks for the interruption of the first fiber of a trial, which runs it. -/
def interruptSelf : Effect σ .unit := .interrupt (⟨⟨1⟩⟩ : Fiber .unit)

end Fibers.World
