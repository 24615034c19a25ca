import Fibers.Proofs.Machine.Answer
import Fibers.Proofs.Machine.Place

/-!
# One fiber by itself

A `Strand` is what one fiber is at one moment: its place and what the heap keeps for it.
`Strand.Step` is what a fiber does on its own, whatever runs its loop and wherever; the only things
that reach it from outside are the inputs on its steps and requests for interruption.
-/

namespace Fibers

variable {σ : Type}

/-- What the heap keeps for a fiber while it runs. -/
structure Holding where
  flags : InterruptFlags
  environments : List Erased
  executor : ExecutorId

/-- What the heap keeps for a fiber while it runs. -/
def FiberState.holding (fiber : FiberState σ) : Holding :=
  ⟨fiber.flags, fiber.environments, fiber.executor⟩

namespace Holding

/-- Ask for interruption. -/
def request (holding : Holding) : Holding := { holding with flags := holding.flags.request }

/-- Let the interruption take effect. -/
def beginFinalizing (holding : Holding) : Holding :=
  { holding with flags := holding.flags.beginFinalizing }

def setStatus (holding : Holding) (status : InterruptStatus) : Holding :=
  { holding with flags := holding.flags.setStatus status }

end Holding

/-- One fiber at one moment. -/
structure Strand (σ : Type) where
  place : Place σ
  holding : Holding
  /-- Its last step was a request, which may still end in a panic. -/
  calling : Bool

/-- What reaches a fiber from outside in one of its steps. -/
inductive Input (σ : Type) where
  /-- A request of its user code is answered. -/
  | answer (answer : Answer σ)
  /-- The last request of its user code ends in a panic, as that of an executor. -/
  | refused (payload : Payload)
  /-- A new suspension gets its callback. -/
  | callback (id : CallbackId)
  /-- A callback supplies its value. -/
  | value (value : Erased)
  /-- A new fiber gets its identity. -/
  | child (id : FiberId)

/-! ## User code -/

namespace Focus

/-- User code goes on with the answer to its request. -/
inductive Answered : Focus σ → Answer σ → Focus σ → Prop where
  | thunk {code rest : Code σ Erased} {answer : Answer σ}
      (next : code.answered answer = some rest) : Answered (.thunk code) answer (.thunk rest)
  | raising {code rest : Code σ Cause} {answer : Answer σ}
      (next : code.answered answer = some rest) : Answered (.raising code) answer (.raising rest)
  | building {code rest : Code σ (Node σ)} {answer : Answer σ}
      (next : code.answered answer = some rest) : Answered (.building code) answer (.building rest)
  | registering {callback : CallbackId} {code rest : Code σ Unit} {answer : Answer σ}
      (next : code.answered answer = some rest) :
      Answered (.registering callback code) answer (.registering callback rest)

/-- User code has ended with a result that the fiber goes on with. -/
inductive Ended : Focus σ → Focus σ → Prop where
  | thunk (value : Erased) : Ended (.thunk (.done value)) (.value value)
  | raising (cause : Cause) : Ended (.raising (.done cause)) (.cause cause)
  | building (next : Node σ) : Ended (.building (.done next)) (.node next)

/-- User code panics by itself. -/
inductive Panics : Focus σ → Payload → Prop where
  | thunk (payload : Payload) : Panics (.thunk (.panic payload)) payload
  | raising (payload : Payload) : Panics (.raising (.panic payload)) payload
  | building (payload : Payload) : Panics (.building (.panic payload)) payload
  | registering (callback : CallbackId) (payload : Payload) :
      Panics (.registering callback (.panic payload)) payload

/-- Where a fiber goes on after a panic of its user code. A defect that stands in for the next
effect is polled for first. -/
def caught (payload : Payload) : Focus σ → Option (Focus σ)
  | .thunk _ | .raising _ | .registering .. => some (.cause (.ofPayload payload))
  | .building _ => some (.node (.failNow (.ofPayload payload)))
  | .node _ | .value _ | .cause _ => none

end Focus

/-! ## Steps -/

/-- What a node does, if no interruption takes its place. -/
inductive Node.Interprets (stack : List (Frame σ)) (holding : Holding) :
    Node σ → Option (Input σ) → Strand σ → Prop where
  | succeed (value : Erased) :
      Interprets stack holding (.succeed value) none ⟨.active (.value value) stack, holding, false⟩
  | sync (code : Code σ Erased) :
      Interprets stack holding (.sync code) none ⟨.active (.thunk code) stack, holding, false⟩
  | flatMap (effect : Node σ) (continuation : Continuation σ) :
      Interprets stack holding (.flatMap effect continuation) none
        ⟨.active (.node effect) (.apply continuation :: stack), holding, false⟩
  | async (register : CallbackId → Code σ Unit) (callback : CallbackId) :
      Interprets stack holding (.async register) (some (.callback callback))
        ⟨.active (.registering callback (register callback)) stack, holding, false⟩
  | fork (effect : Node σ) (child : FiberId) :
      Interprets stack holding (.fork effect) (some (.child child))
        ⟨.active (.value ⟨.context, child⟩) stack, holding, true⟩
  | fail (code : Code σ Cause) :
      Interprets stack holding (.fail code) none ⟨.active (.raising code) stack, holding, false⟩
  | fold (effect : Node σ) (handler : Handler σ) :
      Interprets stack holding (.fold effect handler) none
        ⟨.active (.node effect) (.fold handler :: stack), holding, false⟩
  | shift (executor : ExecutorId) :
      Interprets stack holding (.shift executor) none
        ⟨.active (.node .unit) stack, { holding with executor := executor }, false⟩
  | withStatus (effect : Node σ) (status : InterruptStatus) :
      Interprets stack holding (.withStatus effect status) none
        ⟨.active (.node effect)
          (.fold (.finalizer (.restoreStatus holding.flags.status)) :: stack),
          holding.setStatus status, false⟩
  | provide (effect : Node σ) (environment : Erased) :
      Interprets stack holding (.provide effect environment) none
        ⟨.active (.node effect) (.fold (.finalizer .leaveScope) :: stack),
          { holding with environments := environment :: holding.environments }, false⟩
  | access (continuation : Continuation σ) {environment : Erased} {outer : List Erased}
      (provided : holding.environments = environment :: outer) :
      Interprets stack holding (.access continuation) none
        ⟨.active (.building (continuation.applyTo environment)) stack, holding, false⟩
  | accessNothing (continuation : Continuation σ) (missing : holding.environments = []) :
      Interprets stack holding (.access continuation) none
        ⟨.active (.cause .missingEnvironment) stack, holding, false⟩
  | restoreStatus (status : InterruptStatus) :
      Interprets stack holding (.restoreStatus status) none
        ⟨.active (.value .unit) stack, holding.setStatus status, false⟩
  | leaveScope :
      Interprets stack holding .leaveScope none
        ⟨.active (.value .unit) stack,
          { holding with environments := holding.environments.tail }, false⟩

namespace Strand

/-- What a fiber does next, with what reaches it from outside. -/
inductive Step : Strand σ → Option (Input σ) → Strand σ → Prop where
  /-- An interruption takes effect instead of the next node. -/
  | interrupted {current : Node σ} {stack : List (Frame σ)} {holding : Holding} {calling : Bool}
      (due : holding.flags.shouldInterrupt = true) :
      Step ⟨.active (.node current) stack, holding, calling⟩ none
        ⟨.active (.node (.failNow .interrupt)) (.apply (.constant current) :: stack),
          holding.beginFinalizing, false⟩
  | interpreted {current : Node σ} {stack : List (Frame σ)} {holding : Holding} {calling : Bool}
      {input : Option (Input σ)} {next : Strand σ}
      (undue : holding.flags.shouldInterrupt = false)
      (meaning : current.Interprets stack holding input next) :
      Step ⟨.active (.node current) stack, holding, calling⟩ input next
  | delivered {value : Erased} {frame : Frame σ} {stack : List (Frame σ)} {holding : Holding}
      {calling : Bool} :
      Step ⟨.active (.value value) (frame :: stack), holding, calling⟩ none
        ⟨.active (.building (frame.resume value)) stack, holding, false⟩
  | handled {cause : Cause} {stack rest : List (Frame σ)} {handler : Handler σ}
      {holding : Holding} {calling : Bool} (found : unwind stack = some (handler, rest)) :
      Step ⟨.active (.cause cause) stack, holding, calling⟩ none
        ⟨.active (.building (handler.recover cause)) rest, holding, false⟩
  | ended {focus next : Focus σ} {stack : List (Frame σ)} {holding : Holding} {calling : Bool}
      (ended : focus.Ended next) :
      Step ⟨.active focus stack, holding, calling⟩ none ⟨.active next stack, holding, false⟩
  | answered {focus next : Focus σ} {answer : Answer σ} {stack : List (Frame σ)}
      {holding : Holding} {calling : Bool} (answered : focus.Answered answer next) :
      Step ⟨.active focus stack, holding, calling⟩ (some (.answer answer))
        ⟨.active next stack, holding, true⟩
  | panicked {focus next : Focus σ} {payload : Payload} {stack : List (Frame σ)}
      {holding : Holding} {calling : Bool} (panics : focus.Panics payload)
      (caught : focus.caught payload = some next) :
      Step ⟨.active focus stack, holding, calling⟩ none ⟨.active next stack, holding, false⟩
  /-- The last request ends in a panic after all. -/
  | refused {focus next : Focus σ} {payload : Payload} {stack : List (Frame σ)}
      {holding : Holding} (caught : focus.caught payload = some next) :
      Step ⟨.active focus stack, holding, true⟩ (some (.refused payload))
        ⟨.active next stack, holding, false⟩
  /-- The callback was completed inside the registration. -/
  | met {callback : CallbackId} {value : Erased} {stack : List (Frame σ)} {holding : Holding}
      {calling : Bool} :
      Step ⟨.active (.registering callback (.done ())) stack, holding, calling⟩
        (some (.value value)) ⟨.active (.value value) stack, holding, false⟩
  | parked {callback : CallbackId} {stack : List (Frame σ)} {holding : Holding}
      {calling : Bool} :
      Step ⟨.active (.registering callback (.done ())) stack, holding, calling⟩ none
        ⟨.suspended callback stack, holding, false⟩
  | resumed {callback : CallbackId} {value : Erased} {stack : List (Frame σ)} {holding : Holding}
      {calling : Bool} :
      Step ⟨.suspended callback stack, holding, calling⟩ (some (.value value))
        ⟨.active (.node (.succeed value)) stack, holding, false⟩

/-- Ask a fiber for interruption. -/
def request (strand : Strand σ) : Strand σ := { strand with holding := strand.holding.request }

/-- What may become of a fiber in one step of a machine: it may be asked for interruption, and it
may take one step. -/
def Moves (before after : Strand σ) : Prop :=
  ∃ asked, (asked = before ∨ asked = before.request) ∧
    (after = asked ∨ ∃ input, asked.Step input after)

theorem Moves.refl (strand : Strand σ) : strand.Moves strand := ⟨strand, .inl rfl, .inl rfl⟩

theorem Moves.of_step {before after : Strand σ} {input : Option (Input σ)}
    (step : before.Step input after) : before.Moves after := ⟨before, .inl rfl, .inr ⟨input, step⟩⟩

end Strand

theorem unwind_eq_none_iff {stack : List (Frame σ)} :
    unwind stack = none ↔ ∃ dropped : List (Continuation σ), stack = dropped.map .apply := by
  induction stack with
  | nil => exact ⟨fun _ => ⟨[], rfl⟩, fun _ => rfl⟩
  | cons frame stack ih =>
    cases frame with
    | apply continuation =>
      rw [unwind, ih]
      constructor
      · rintro ⟨dropped, rfl⟩
        exact ⟨continuation :: dropped, rfl⟩
      · rintro ⟨dropped, same⟩
        cases dropped with
        | nil => cases same
        | cons first others => exact ⟨others, (List.cons.inj same).2⟩
    | fold handler =>
      constructor
      · intro missing
        cases missing
      · rintro ⟨dropped, same⟩
        cases dropped <;> cases same

/-- A fiber leaves the frames above a stack with an outcome: a value for the stack, or a cause that
no handler above the stack takes. -/
inductive Place.Reaches (stack : List (Frame σ)) : Place σ → Exit Erased → Prop where
  | value (value : Erased) : Reaches stack (.active (.value value) stack) (.success value)
  | cause (cause : Cause) (dropped : List (Continuation σ)) :
      Reaches stack (.active (.cause cause) (dropped.map .apply ++ stack)) (.failure cause)

end Fibers
