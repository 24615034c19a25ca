import Fibers.Proofs.Machine.Request
import Fibers.Proofs.Strand.Step

/-!
# What a loop does in one step

A loop does one of a few things, by where its fiber is. Whatever phase its user code is in, the code
hands on what it has ended with, panics, or makes a request.

## Main result

`Machine.turns_stepLoop`: a step of a loop is one of the turns that `Machine.LoopTurn` lists.
-/

namespace Fibers.Machine

variable {σ : Type}

/-- What a step of a loop may be. -/
inductive LoopTurn (heap : Heap σ) (thread : Thread σ) (id : FiberId) :
    List (Frame σ) → Focus σ → Heap σ × Thread σ → Prop where
  /-- The interruption that is due takes the place of the next effect. -/
  | interrupts {current : Node σ} {stack : List (Frame σ)}
      (due : heap.shouldInterrupt id = true) :
      LoopTurn heap thread id stack (.node current) (beginInterruption heap thread id stack current)
  | interprets {current : Node σ} {stack : List (Frame σ)}
      (undue : heap.shouldInterrupt id = false) :
      LoopTurn heap thread id stack (.node current) (interpret heap thread id stack current)
  /-- The topmost frame takes a value. -/
  | delivers {value : Erased} {frame : Frame σ} {rest : List (Frame σ)} :
      LoopTurn heap thread id (frame :: rest) (.value value)
        (heap.report thread.id .trace fun _ => .continuationPopped id rest.length,
          refocus thread id (.building (frame.resume value)) rest)
  /-- No frame is left for a value. -/
  | succeeds {value : Erased} :
      LoopTurn heap thread id [] (.value value) (completeFiber heap thread id (.success value))
  /-- The innermost handler takes a cause. -/
  | handles {cause : Cause} {handler : Handler σ} {stack rest : List (Frame σ)}
      (found : unwind stack = some (handler, rest)) :
      LoopTurn heap thread id stack (.cause cause)
        (heap, refocus thread id (.building (handler.recover cause)) rest)
  /-- No handler is left for a cause. -/
  | fails {cause : Cause} {stack : List (Frame σ)} (missing : unwind stack = none) :
      LoopTurn heap thread id stack (.cause cause) (completeFiber heap thread id (.failure cause))
  /-- User code hands on what it has ended with. -/
  | hands {focus next : Focus σ} {stack : List (Frame σ)} (ended : focus.Ended next) :
      LoopTurn heap thread id stack focus (heap, refocus thread id next stack)
  /-- A registration has returned. -/
  | parks {callback : CallbackId} {stack : List (Frame σ)} :
      LoopTurn heap thread id stack (.registering callback (.done ()))
        (park heap thread id callback stack)
  | panics {focus : Focus σ} {payload : Payload} {stack : List (Frame σ)}
      (panics : focus.Panics payload) :
      LoopTurn heap thread id stack focus (unwindLoop heap thread payload id stack focus)
  /-- User code makes a request. -/
  | requests {focus : Focus σ} {stack : List (Frame σ)} {α : Type} {keep : Code σ α → Activation σ}
      {code : Code σ α} (holds : (Activation.loop id focus stack).Holds keep code)
      (going : code.isOver = false) :
      LoopTurn heap thread id stack focus (perform heap thread keep code)

/-- What a loop does in one step. -/
theorem turns_stepLoop (heap : Heap σ) (thread : Thread σ) (id : FiberId) (stack : List (Frame σ))
    (focus : Focus σ) :
    LoopTurn heap thread id stack focus (stepLoop heap thread id stack focus) := by
  have requests {α : Type} {keep : Code σ α → Activation σ} {code : Code σ α}
      (holds : (Activation.loop id focus stack).Holds keep code) (going : code.isOver = false) :
      LoopTurn heap thread id stack focus (stepLoop heap thread id stack focus) := by
    have performed : stepLoop heap thread id stack focus = perform heap thread keep code :=
      advance_of_holds holds going heap thread
    rw [performed]
    exact .requests holds going
  cases focus with
  | node current =>
    simp only [stepLoop]
    split
    next due => exact .interrupts due
    next undue => exact .interprets (Bool.eq_false_iff.mpr undue)
  | value value =>
    cases stack with
    | nil => exact .succeeds
    | cons frame rest => exact .delivers
  | cause cause =>
    simp only [stepLoop, fail]
    cases found : unwind stack with
    | some handled => exact .handles found
    | none => exact .fails found
  | thunk code =>
    rcases code.done_or_panics_or_goes with ⟨value, rfl⟩ | ⟨payload, rfl⟩ | going
    · exact .hands (.thunk value)
    · exact .panics (.thunk payload)
    · exact requests (.thunk id code stack) going
  | raising code =>
    rcases code.done_or_panics_or_goes with ⟨cause, rfl⟩ | ⟨payload, rfl⟩ | going
    · exact .hands (.raising cause)
    · exact .panics (.raising payload)
    · exact requests (.raising id code stack) going
  | building code =>
    rcases code.done_or_panics_or_goes with ⟨next, rfl⟩ | ⟨payload, rfl⟩ | going
    · exact .hands (.building next)
    · exact .panics (.building payload)
    · exact requests (.building id code stack) going
  | registering callback code =>
    rcases code.done_or_panics_or_goes with ⟨⟨⟩, rfl⟩ | ⟨payload, rfl⟩ | going
    · exact .parks
    · exact .panics (.registering callback payload)
    · exact requests (.registering id callback code stack) going

end Fibers.Machine
