import Fibers.Effect.Basic

/-!
# Running effects

A `Runner` turns effects into root fibers on an execution context. `fork` and `runAsync` return
without waiting; `runSync` and `runSyncTimeout` block the calling thread on the latch of a mailbox
until the root fiber has ended.
-/

namespace Fibers

/-- The boundary between ordinary code and effects. -/
structure Runner where
  /-- The execution context on which root fibers start. -/
  executor : ExecutorId
  deriving DecidableEq, Repr

namespace Runner

variable {σ : Type} {A : Ty}

/-- Start an effect on a new root fiber. -/
def fork (runner : Runner) (effect : Effect σ A) : Code σ (Fiber A) :=
  .launch runner.executor effect.node fun id => .done ⟨id⟩

/-- Start an effect on a new root fiber and call a callback with its exit. -/
def runAsync (runner : Runner) (effect : Effect σ A) (callback : Exit A.Carrier → Code σ Unit) :
    Code σ (Fiber A) :=
  .launchWith runner.executor effect.node (.ofCode fun exit => callback (exit.recover A))
    fun id => .done ⟨id⟩

/-- The exit reported if a mailbox opens without one. -/
def missingExit : Exit A.Carrier := .failure (.die "root fiber finished without an exit")

/-- Run an effect and block until it exits. -/
def runSync (runner : Runner) (effect : Effect σ A) : Code σ (Exit A.Carrier) :=
  .submit runner.executor effect.node A fun mailbox =>
    .wait mailbox none fun
      | .opened (some exit) => .done (exit.recover A)
      | _ => .done missingExit

/-- Run an effect and block until it exits or the time, in milliseconds, is over. The fiber of a
caller that gave up keeps running. -/
def runSyncTimeout (runner : Runner) (effect : Effect σ A) (timeout : Nat) :
    Code σ (Option (Exit A.Carrier)) :=
  .submit runner.executor effect.node A fun mailbox =>
    .clock fun now => .wait mailbox (some (now + timeout)) fun
      | .opened slot => .done (slot.map (Exit.recover A))
      | .timedOut => .report (.waitAbandoned timeout) fun _ => .done none

end Runner

end Fibers
