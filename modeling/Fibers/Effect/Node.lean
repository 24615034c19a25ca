import Fibers.Effect.Action
import Fibers.Interrupt

/-!
# Effect descriptions without their types

A `Node` describes a computation; building one runs nothing, and one description may be run any
number of times. Nodes, continuations and handlers contain user code, which in turn may start new
fibers from nodes, so the four types are defined together.
-/

namespace Fibers

mutual

/-- A description of a computation. -/
inductive Node (σ : Type) where
  /-- A value already known. -/
  | succeed (value : Erased)
  /-- A deferred computation. -/
  | sync (thunk : Action (Node σ) (RunCallback σ) σ Erased)
  /-- Run an effect and feed its value to a continuation. -/
  | flatMap (effect : Node σ) (continuation : Continuation σ)
  /-- Suspend until the callback given to the registration supplies a value. -/
  | async (register : CallbackId → Action (Node σ) (RunCallback σ) σ Unit)
  /-- Start an effect on a new fiber. -/
  | fork (effect : Node σ)
  /-- Fail with the cause that the code computes. -/
  | fail (thunk : Action (Node σ) (RunCallback σ) σ Cause)
  /-- Run an effect under a handler of both outcomes. -/
  | fold (effect : Node σ) (handler : Handler σ)
  /-- Continue on another execution context. -/
  | shift (executor : ExecutorId)
  /-- Run an effect with the given interrupt status. -/
  | withStatus (effect : Node σ) (status : InterruptStatus)
  /-- Run an effect with one more environment. -/
  | provide (effect : Node σ) (environment : Erased)
  /-- Feed the innermost environment to a continuation. -/
  | access (continuation : Continuation σ)
  /-- Put back the interrupt status at the end of a region. Only the interpreter makes this node. -/
  | restoreStatus (status : InterruptStatus)
  /-- Drop the innermost environment at the end of its scope. Only the interpreter makes this
  node. -/
  | leaveScope

/-- What to do with a value. -/
inductive Continuation (σ : Type) where
  /-- Build the next effect from the value. -/
  | call (build : Erased → Action (Node σ) (RunCallback σ) σ (Node σ))
  /-- Forget the value and run an effect over and over. -/
  | again (effect : Node σ)
  /-- Forget the value and go on with a known effect. -/
  | constant (effect : Node σ)

/-- Both branches of a fold. -/
inductive Handler (σ : Type) where
  /-- One branch for causes, one for values. -/
  | branches (onFailure : Cause → Action (Node σ) (RunCallback σ) σ (Node σ))
      (onSuccess : Continuation σ)
  /-- Run an effect, then pass the outcome on. -/
  | finalizer (effect : Node σ)

/-- A callback that receives the exit of a root fiber. -/
inductive RunCallback (σ : Type) where
  | ofCode (run : Exit Erased → Action (Node σ) (RunCallback σ) σ Unit)

end

/-- User code over effects that share a world `σ`. -/
abbrev Code (σ α : Type) : Type := Action (Node σ) (RunCallback σ) σ α

/-- What a fiber keeps for later while it runs a nested effect. -/
inductive Frame (σ : Type) where
  /-- A continuation, which applies to values only. -/
  | apply (continuation : Continuation σ)
  /-- A handler of both outcomes. -/
  | fold (handler : Handler σ)

variable {σ : Type}

namespace Node

/-- Succeed with nothing. -/
def unit : Node σ := .succeed .unit

/-- Fail with a known cause. -/
def failNow (cause : Cause) : Node σ := .fail (.done cause)

/-- Run one effect, forget its value, and run another. -/
def andThen (first next : Node σ) : Node σ := .flatMap first (.constant next)

/-- The name of the variant. The nodes that end a region count as deferred computations. -/
def kind : Node σ → String
  | .succeed _ => "succeed"
  | .sync _ => "sync"
  | .flatMap .. => "flat_map"
  | .async _ => "async"
  | .fork _ => "fork"
  | .fail _ => "fail"
  | .fold .. => "fold"
  | .shift _ => "shift"
  | .withStatus .. => "set_interrupt_status"
  | .provide .. => "provide"
  | .access _ => "access"
  | .restoreStatus _ => "sync"
  | .leaveScope => "sync"

end Node

/-- Run an effect again and again, until it fails. -/
def Continuation.repeated (effect : Node σ) : Node σ := .flatMap effect (.again effect)

/-- The code that turns a value into the next effect. -/
def Continuation.applyTo (value : Erased) : Continuation σ → Code σ (Node σ)
  | .call build => build value
  | .again effect => .done (Continuation.repeated effect)
  | .constant effect => .done effect

/-- The code that turns a value into the next effect, on the success branch. -/
def Handler.resume (value : Erased) : Handler σ → Code σ (Node σ)
  | .branches _ onSuccess => onSuccess.applyTo value
  | .finalizer effect => .done (effect.andThen (.succeed value))

/-- The code that turns a cause into the next effect, on the failure branch. -/
def Handler.recover (cause : Cause) : Handler σ → Code σ (Node σ)
  | .branches onFailure _ => onFailure cause
  | .finalizer effect => .done (effect.andThen (.failNow cause))

/-- The code that a frame runs for a value. -/
def Frame.resume (value : Erased) : Frame σ → Code σ (Node σ)
  | .apply continuation => continuation.applyTo value
  | .fold handler => handler.resume value

/-- Drop plain continuations up to the innermost handler. -/
def unwind : List (Frame σ) → Option (Handler σ × List (Frame σ))
  | [] => none
  | .apply _ :: rest => unwind rest
  | .fold handler :: rest => some (handler, rest)

theorem unwind_eq_some_iff {stack rest : List (Frame σ)} {handler : Handler σ} :
    unwind stack = some (handler, rest) ↔
      ∃ dropped : List (Continuation σ), stack = dropped.map .apply ++ .fold handler :: rest := by
  induction stack with
  | nil => simp [unwind]
  | cons frame stack ih =>
    cases frame with
    | apply continuation =>
      rw [unwind, ih]
      constructor
      · rintro ⟨dropped, rfl⟩
        exact ⟨continuation :: dropped, rfl⟩
      · rintro ⟨dropped, h⟩
        cases dropped with
        | nil => simp at h
        | cons first others =>
          simp only [List.map_cons, List.cons_append, List.cons.injEq] at h
          exact ⟨others, h.2⟩
    | fold other =>
      rw [unwind]
      constructor
      · intro h
        obtain ⟨rfl, rfl⟩ := Prod.mk.inj (Option.some.inj h)
        exact ⟨[], rfl⟩
      · rintro ⟨dropped, h⟩
        cases dropped with
        | nil => simp at h; simp [h]
        | cons first others => simp at h

end Fibers
