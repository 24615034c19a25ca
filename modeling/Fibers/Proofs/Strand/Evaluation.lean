import Fibers.Proofs.Effect.Authored
import Fibers.Proofs.Strand.Step

/-!
# The recursive meaning of effects

`Evaluates` says what an effect comes to, by recursion on effects and not by steps of a machine: no
frames, no batches, and no state but the environments, which are passed down. What user code is
told, and what a callback is given, are the inputs of an evaluation, in their order.
-/

namespace Fibers

variable {σ α : Type}

/-- User code takes some inputs and ends with a result, or panics. While the last request is still
being carried out (`calling`), it may end in a panic. -/
inductive Computes : Bool → Code σ α → List (Input σ) → Except Payload α → Prop where
  | done {calling : Bool} (result : α) : Computes calling (.done result) [] (.ok result)
  | panic {calling : Bool} (payload : Payload) :
      Computes calling (.panic payload) [] (.error payload)
  | answered {calling : Bool} {code rest : Code σ α} {answer : Answer σ} {inputs : List (Input σ)}
      {result : Except Payload α} (next : code.answered answer = some rest)
      (computes : Computes true rest inputs result) :
      Computes calling code (.answer answer :: inputs) result
  | refused (code : Code σ α) (payload : Payload) :
      Computes true code [.refused payload] (.error payload)

/-- The effect that code has built; a panic of the code is a defect. -/
def Node.ofBuilt : Except Payload (Node σ) → Node σ
  | .ok next => next
  | .error payload => .failNow (.ofPayload payload)

/-- The outcome of code that computes a value. -/
def Exit.ofValue : Except Payload Erased → Exit Erased
  | .ok value => .success value
  | .error payload => .failure (.ofPayload payload)

/-- The outcome of code that computes a cause. -/
def Exit.ofCause : Except Payload Cause → Exit Erased
  | .ok cause => .failure cause
  | .error payload => .failure (.ofPayload payload)

/-- An effect takes some inputs under some environments and comes to an outcome. -/
inductive Evaluates : List Erased → Node σ → List (Input σ) → Exit Erased → Prop where
  | succeed (environments : List Erased) (value : Erased) :
      Evaluates environments (.succeed value) [] (.success value)
  | sync {environments : List Erased} {thunk : Code σ Erased} {inputs : List (Input σ)}
      {result : Except Payload Erased} (computes : Computes false thunk inputs result) :
      Evaluates environments (.sync thunk) inputs (.ofValue result)
  | fail {environments : List Erased} {thunk : Code σ Cause} {inputs : List (Input σ)}
      {result : Except Payload Cause} (computes : Computes false thunk inputs result) :
      Evaluates environments (.fail thunk) inputs (.ofCause result)
  /-- The value of an effect goes to its continuation. -/
  | flatMap {environments : List Erased} {effect : Node σ} {continuation : Continuation σ}
      {value : Erased} {built : Except Payload (Node σ)} {inputs inputs' inputs'' : List (Input σ)}
      {exit : Exit Erased} (evaluates : Evaluates environments effect inputs (.success value))
      (computes : Computes false (continuation.applyTo value) inputs' built)
      (evaluates' : Evaluates environments (.ofBuilt built) inputs'' exit) :
      Evaluates environments (.flatMap effect continuation) (inputs ++ (inputs' ++ inputs'')) exit
  /-- A cause skips the continuation. -/
  | flatMapSkipped {environments : List Erased} {effect : Node σ} {continuation : Continuation σ}
      {cause : Cause} {inputs : List (Input σ)}
      (evaluates : Evaluates environments effect inputs (.failure cause)) :
      Evaluates environments (.flatMap effect continuation) inputs (.failure cause)
  /-- An outcome goes to one branch, whose own outcome goes outward. -/
  | fold {environments : List Erased} {effect : Node σ} {handler : Handler σ}
      {outcome exit : Exit Erased} {built : Except Payload (Node σ)}
      {inputs inputs' inputs'' : List (Input σ)}
      (evaluates : Evaluates environments effect inputs outcome)
      (computes : Computes false (handler.receive outcome) inputs' built)
      (evaluates' : Evaluates environments (.ofBuilt built) inputs'' exit) :
      Evaluates environments (.fold effect handler) (inputs ++ (inputs' ++ inputs'')) exit
  /-- The value is what the callback is given. -/
  | async {environments : List Erased} {register : CallbackId → Code σ Unit}
      {callback : CallbackId} {value : Erased} {inputs : List (Input σ)}
      (computes : Computes false (register callback) inputs (.ok ())) :
      Evaluates environments (.async register) (.callback callback :: (inputs ++ [.value value]))
        (.success value)
  /-- A registration that panics is a defect, whatever it has done with its callback. -/
  | asyncPanicked {environments : List Erased} {register : CallbackId → Code σ Unit}
      {callback : CallbackId} {payload : Payload} {inputs : List (Input σ)}
      (computes : Computes false (register callback) inputs (.error payload)) :
      Evaluates environments (.async register) (.callback callback :: inputs)
        (.failure (.ofPayload payload))
  | fork (environments : List Erased) (effect : Node σ) (child : FiberId) :
      Evaluates environments (.fork effect) [.child child] (.success ⟨.context, child⟩)
  | shift (environments : List Erased) (executor : ExecutorId) :
      Evaluates environments (.shift executor) [] (.success .unit)
  | withStatus {environments : List Erased} {effect : Node σ} {status : InterruptStatus}
      {inputs : List (Input σ)} {exit : Exit Erased}
      (evaluates : Evaluates environments effect inputs exit) :
      Evaluates environments (.withStatus effect status) inputs exit
  | provide {environments : List Erased} {effect : Node σ} {environment : Erased}
      {inputs : List (Input σ)} {exit : Exit Erased}
      (evaluates : Evaluates (environment :: environments) effect inputs exit) :
      Evaluates environments (.provide effect environment) inputs exit
  | access {environment : Erased} {outer : List Erased} {continuation : Continuation σ}
      {built : Except Payload (Node σ)} {inputs inputs' : List (Input σ)} {exit : Exit Erased}
      (computes : Computes false (continuation.applyTo environment) inputs built)
      (evaluates : Evaluates (environment :: outer) (.ofBuilt built) inputs' exit) :
      Evaluates (environment :: outer) (.access continuation) (inputs ++ inputs') exit
  | accessNothing (continuation : Continuation σ) :
      Evaluates [] (.access continuation) [] (.failure .missingEnvironment)

/-! ### Code -/

theorem Computes.returns {calling : Bool} {code : Code σ α} {inputs : List (Input σ)}
    {whole : Except Payload α} {result : α} (h : Computes calling code inputs whole)
    (ended : whole = .ok result) : code.Returns result := by
  induction h with
  | done => cases ended; exact .done _
  | answered next _ ih => exact .answered next (ih ended)
  | panic | refused => cases ended

/-- Authored code builds authored effects, and a defect is one. -/
theorem Computes.authored {calling : Bool} {code : Code σ (Node σ)} {inputs : List (Input σ)}
    {built : Except Payload (Node σ)} (h : Computes calling code inputs built)
    (authored : code.Yields Node.Authored) : (Node.ofBuilt built).Authored := by
  cases built with
  | ok next => exact authored next (h.returns rfl)
  | error payload => exact Node.authored_failNow _

end Fibers
