import Fibers.Effect.Node

/-!
# Effects

`Effect σ A` is a lazy, reusable description of a computation that produces an `A` or fails with a
cause. Building an effect runs nothing. Every combinator below is a small arrangement of nodes;
which ones it uses is part of its meaning, because a fiber may be interrupted between any two of
its steps.

Functions given to combinators are user code: they return in `Code σ`, so they may change the shared
world or panic.
-/

namespace Fibers

/-- A description of a computation that produces an `A`, over a shared world `σ`. -/
structure Effect (σ : Type) (A : Ty) where
  node : Node σ

/-- A handle on a fiber that produces an `A`. -/
structure Fiber (A : Ty) where
  id : FiberId
  deriving DecidableEq

variable {σ : Type} {A B C R : Ty}

namespace Effect

/-- The text shown for an effect: the variant of its outermost node. -/
def describe (effect : Effect σ A) : String := "Effect(" ++ effect.node.kind ++ ")"

/-- Recover a value at its type, then let `f` build the next effect. A value of another type is a
defect. -/
def typed (f : A.Carrier → Code σ (Effect σ B)) (value : Erased) : Code σ (Node σ) :=
  match value.recover A with
  | .ok value => (f value).bind fun effect => .done effect.node
  | .error cause => .done (.failNow cause)

theorem typed_mk (f : A.Carrier → Code σ (Effect σ B)) (value : A.Carrier) :
    typed f ⟨A, value⟩ = (f value).bind fun effect => .done effect.node := by
  rw [typed, Erased.recover_mk]

/-! ## Constructors -/

/-- Succeed with a known value. -/
def succeedNow (value : A.Carrier) : Effect σ A := ⟨.succeed ⟨A, value⟩⟩

/-- Succeed with nothing. -/
def unit : Effect σ .unit := ⟨Node.unit⟩

/-- Call the code each time the effect is run. -/
def succeed (thunk : Code σ A.Carrier) : Effect σ A :=
  ⟨.sync (thunk.bind fun value => .done ⟨A, value⟩)⟩

/-- Build the effect only when it is run. -/
def defer (build : Code σ (Effect σ A)) : Effect σ A :=
  ⟨.flatMap Node.unit (.call fun _ => build.bind fun effect => .done effect.node)⟩

/-- Wait for a value supplied through a callback. -/
def async (register : CallbackId → Code σ Unit) : Effect σ A := ⟨.async register⟩

/-- The code by which user code completes the callback of an async effect. -/
def complete (callback : CallbackId) (value : A.Carrier) : Code σ Unit :=
  .complete callback ⟨A, value⟩ .done

/-- Fail with the cause that the code computes. -/
def failCause (thunk : Code σ Cause) : Effect σ A := ⟨.fail thunk⟩

/-- Fail with a known cause. -/
def failCauseNow (cause : Cause) : Effect σ A := ⟨.failNow cause⟩

/-- Fail with the expected error that the code computes. -/
def fail (thunk : Code σ String) : Effect σ A :=
  failCause (thunk.bind fun error => .done (.fail error))

/-- Fail with a defect. -/
def die (message : String) : Effect σ A := failCauseNow (.die message)

/-- Succeed or fail as an exit says. -/
def fromExit : Exit A.Carrier → Effect σ A
  | .success value => succeedNow value
  | .failure cause => failCauseNow cause

/-- Continue with what `f` builds from the innermost environment. -/
def accessEffect (f : R.Carrier → Code σ (Effect σ A)) : Effect σ A :=
  ⟨.access (.call (typed f))⟩

/-- Map the innermost environment. -/
def access (f : R.Carrier → Code σ A.Carrier) : Effect σ A :=
  accessEffect fun environment => (f environment).bind fun value => .done (succeedNow value)

/-- The innermost environment. -/
def environment : Effect σ A := accessEffect fun value => .done (succeedNow value)

/-- Move the rest of the fiber, and the fibers it forks, to another execution context. -/
def shift (executor : ExecutorId) : Effect σ .unit := ⟨.shift executor⟩

/-! ## Sequencing -/

/-- Run this effect, then the one that `f` builds from its value. -/
def flatMap (effect : Effect σ A) (f : A.Carrier → Code σ (Effect σ B)) : Effect σ B :=
  ⟨.flatMap effect.node (.call (typed f))⟩

/-- Transform the value. -/
def map (effect : Effect σ A) (f : A.Carrier → Code σ B.Carrier) : Effect σ B :=
  effect.flatMap fun a => (f a).bind fun b => .done (succeedNow b)

/-- Replace the value. -/
def asValue (effect : Effect σ A) (value : B.Carrier) : Effect σ B :=
  effect.map fun _ => .done value

/-- Forget the value. -/
def asUnit (effect : Effect σ A) : Effect σ .unit := effect.asValue ()

/-- Run both effects in sequence and combine their values. -/
def zipWith (effect : Effect σ A) (that : Effect σ B)
    (f : A.Carrier → B.Carrier → Code σ C.Carrier) : Effect σ C :=
  effect.flatMap fun a => .done (that.map fun b => f a b)

/-- Run both effects in sequence and pair their values. -/
def zip (effect : Effect σ A) (that : Effect σ B) : Effect σ (.pair A B) :=
  effect.zipWith that fun a b => .done (a, b)

/-- Run both effects in sequence and keep the left value. -/
def zipLeft (effect : Effect σ A) (that : Effect σ B) : Effect σ A :=
  effect.zipWith that fun a _ => .done a

/-- Run both effects in sequence and keep the right value. -/
def zipRight (effect : Effect σ A) (that : Effect σ B) : Effect σ B :=
  effect.flatMap fun _ => .done that

/-- Run this effect a number of times in sequence. The description unfolds one run at a time. -/
def repeated (effect : Effect σ A) : Nat → Effect σ .unit
  | 0 => unit
  | n + 1 => effect.flatMap fun _ => .done (repeated effect n)

/-- Run this effect again and again, until it fails or is interrupted. -/
def forever (effect : Effect σ A) : Effect σ A := ⟨Continuation.repeated effect.node⟩

/-! ## Failure handling -/

/-- Handle every outcome, defects and interruption included. -/
def foldCauseEffect (effect : Effect σ A) (onFailure : Cause → Code σ (Effect σ B))
    (onSuccess : A.Carrier → Code σ (Effect σ B)) : Effect σ B :=
  ⟨.fold effect.node
    (.branches (fun cause => (onFailure cause).bind fun next => .done next.node)
      (.call (typed onSuccess)))⟩

/-- Handle expected errors and values with effects; defects and interruption pass. -/
def foldEffect (effect : Effect σ A) (onError : String → Code σ (Effect σ B))
    (onSuccess : A.Carrier → Code σ (Effect σ B)) : Effect σ B :=
  effect.foldCauseEffect
    (fun cause =>
      match cause with
      | .fail error => onError error
      | other => .done (failCauseNow other))
    onSuccess

/-- Map expected errors and values to a value; defects and interruption pass. -/
def fold (effect : Effect σ A) (onError : String → Code σ B.Carrier)
    (onSuccess : A.Carrier → Code σ B.Carrier) : Effect σ B :=
  effect.foldEffect (fun error => (onError error).bind fun b => .done (succeedNow b))
    fun a => (onSuccess a).bind fun b => .done (succeedNow b)

/-- Recover from expected errors. -/
def catchAll (effect : Effect σ A) (handler : String → Code σ (Effect σ A)) : Effect σ A :=
  effect.foldEffect handler fun a => .done (succeedNow a)

/-- Run a finalizer after this effect, however it exits. A failing finalizer replaces the
outcome. -/
def ensuring (effect : Effect σ A) (finalizer : Effect σ B) : Effect σ A :=
  ⟨.fold effect.node (.finalizer finalizer.node)⟩

/-! ## Interruption and environments -/

/-- Run this effect with the given interrupt status and put back the previous one afterwards. -/
def withInterruptStatus (effect : Effect σ A) (status : InterruptStatus) : Effect σ A :=
  ⟨.withStatus effect.node status⟩

/-- Let an interruption wait until this effect has exited. -/
def uninterruptible (effect : Effect σ A) : Effect σ A :=
  effect.withInterruptStatus .uninterruptible

/-- Let an interruption take effect inside this effect. -/
def interruptible (effect : Effect σ A) : Effect σ A := effect.withInterruptStatus .interruptible

/-- Run this effect with one more environment. -/
def provide (effect : Effect σ A) (environment : R.Carrier) : Effect σ A :=
  ⟨.provide effect.node ⟨R, environment⟩⟩

/-! ## Fibers -/

/-- Start this effect on a new fiber and go on with its handle. -/
def fork (effect : Effect σ A) : Effect σ (.fiber A) :=
  (⟨.fork effect.node⟩ : Effect σ .context).map fun id => .done id

/-- Wait for a fiber and produce its exit, whatever it is. -/
def awaitExit (fiber : Fiber A) : Effect σ (.exit A) :=
  async fun callback => .observe fiber.id A callback .done

/-- Wait for a fiber and go on with its value, or fail with its cause. -/
def join (fiber : Fiber A) : Effect σ A :=
  (awaitExit fiber).flatMap fun exit => .done (fromExit exit)

/-- Request the interruption of a fiber, without waiting for it to stop. -/
def interrupt (fiber : Fiber A) : Effect σ .unit := succeed (.interrupt fiber.id .done)

/-- Run this effect on a new fiber while `that` runs on the current one, then pair their values. -/
def zipPar (effect : Effect σ A) (that : Effect σ B) : Effect σ (.pair A B) :=
  effect.fork.flatMap fun id => .done <|
    that.flatMap fun b => .done <|
      (join (⟨id⟩ : Fiber A)).map fun a => .done (a, b)

end Effect

/-- The exit of a fiber, if it is done. -/
def Fiber.poll (fiber : Fiber A) : Code σ (Option (Exit A.Carrier)) :=
  .poll fiber.id fun exit => .done (exit.map (Exit.recover A))

end Fibers
