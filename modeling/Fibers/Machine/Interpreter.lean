import Fibers.Machine.Perform

/-!
# The interpreter

A loop runs one fiber. It polls for interruption, interprets one node, and hands the value or the
cause to the frames of the fiber; it never recurses, so sequencing of any length needs no more than
the explicit stack. It ends when the fiber completes, suspends, or moves to another executor.
-/

namespace Fibers.Machine

variable {σ : Type}

/-- Keep a loop on its thread with a new focus. -/
def refocus (thread : Thread σ) (id : FiberId) (focus : Focus σ) (stack : List (Frame σ)) :
    Thread σ :=
  thread.push (.loop id focus stack)

/-- Start an effect on a new fiber, which inherits the environments and the executor. -/
def fork (heap : Heap σ) (thread : Thread σ) (parent : FiberId) (effect : Node σ)
    (stack : List (Frame σ)) : Heap σ × Thread σ :=
  let child := heap.nextFiber
  let heap := heap.addFiber
    { environments := heap.environments parent
      executor := heap.executorOf parent
      seed := some effect }
  let heap := heap.report thread.id .debug fun _ => .fiberForked parent child
  -- The parent is put back first, so that a panic of the executor ends its loop.
  start heap (refocus thread parent (.value ⟨.context, child⟩) stack) child false

/-- Interpret one node. -/
def interpret (heap : Heap σ) (thread : Thread σ) (id : FiberId) (stack : List (Frame σ)) :
    Node σ → Heap σ × Thread σ
  | .succeed value => (heap, refocus thread id (.value value) stack)
  | .sync code => (heap, refocus thread id (.thunk code) stack)
  | .flatMap effect continuation =>
    let stack := .apply continuation :: stack
    (heap.report thread.id .trace fun _ => .continuationPushed id stack.length,
      refocus thread id (.node effect) stack)
  | .async register =>
    let callback := heap.nextCallback
    (heap.addSuspension id, refocus thread id (.registering callback (register callback)) stack)
  | .fork effect => fork heap thread id effect stack
  | .fail code => (heap, refocus thread id (.raising code) stack)
  | .fold effect handler =>
    let stack := .fold handler :: stack
    (heap.report thread.id .trace fun _ => .handlerPushed id stack.length,
      refocus thread id (.node effect) stack)
  | .shift executor =>
    let name := heap.executorName executor
    let heap := heap.setExecutor id executor
    let heap := heap.report thread.id .trace fun _ => .executorShifted id name
    -- The loop ends here; the rest of the fiber is a task of the new executor.
    execute heap thread executor ⟨⟨id, Node.unit, stack⟩, false⟩
  -- A region restores what it changed in a finalizer, so every exit passes it.
  | .withStatus effect status =>
    let restore := Node.restoreStatus (heap.status id)
    (heap.updateFlags id (·.setStatus status),
      refocus thread id (.node effect) (.fold (.finalizer restore) :: stack))
  | .provide effect environment =>
    (heap.enterScope id environment,
      refocus thread id (.node effect) (.fold (.finalizer .leaveScope) :: stack))
  | .access continuation =>
    match heap.environments id with
    | environment :: _ =>
      (heap, refocus thread id (.building (continuation.applyTo environment)) stack)
    | [] => (heap, refocus thread id (.cause Cause.missingEnvironment) stack)
  | .restoreStatus status =>
    (heap.updateFlags id (·.setStatus status), refocus thread id (.value .unit) stack)
  | .leaveScope => (heap.leaveScope id, refocus thread id (.value .unit) stack)

/-- Interrupt a fiber: its next effect becomes a frame that no cause will run, and an interruption
takes its place. -/
def beginInterruption (heap : Heap σ) (thread : Thread σ) (id : FiberId)
    (stack : List (Frame σ)) (current : Node σ) : Heap σ × Thread σ :=
  let heap := heap.updateFlags id InterruptFlags.beginFinalizing
  (heap.report thread.id .debug fun _ => .interruptionTakingEffect id current.kind,
    refocus thread id (.node (.failNow .interrupt)) (.apply (.constant current) :: stack))

/-- Hand a value to the topmost frame, or end the fiber with it. -/
def deliver (heap : Heap σ) (thread : Thread σ) (id : FiberId) (value : Erased) :
    List (Frame σ) → Heap σ × Thread σ
  | [] => completeFiber heap thread id (.success value)
  | frame :: stack =>
    (heap.report thread.id .trace fun _ => .continuationPopped id stack.length,
      refocus thread id (.building (frame.resume value)) stack)

/-- Hand a cause to the innermost handler, or end the fiber with it. -/
def fail (heap : Heap σ) (thread : Thread σ) (id : FiberId) (cause : Cause)
    (stack : List (Frame σ)) : Heap σ × Thread σ :=
  match unwind stack with
  | some (handler, stack) => (heap, refocus thread id (.building (handler.recover cause)) stack)
  | none => completeFiber heap thread id (.failure cause)

/-- The registration of an async effect has returned: go on with a value that is already there, or
leave the frames with the suspension and end the loop. -/
def park (heap : Heap σ) (thread : Thread σ) (id : FiberId) (callback : CallbackId)
    (stack : List (Frame σ)) : Heap σ × Thread σ :=
  match heap.suspension? callback with
  | some { state := .completed value, .. } =>
    (heap.setRendezvous callback .resumed, refocus thread id (.value value) stack)
  | _ =>
    let heap := heap.setRendezvous callback (.parked stack)
    -- No activation is put back: whoever completes the callback begins the next loop.
    (heap.report thread.id .trace fun _ => .fiberSuspended id, thread)

/-- A panic reaches a loop. In user code it becomes a defect of the fiber; a panic of the
interpreter itself, raised by an executor, goes through. -/
def unwindLoop (heap : Heap σ) (thread : Thread σ) (payload : Payload) (id : FiberId)
    (stack : List (Frame σ)) : Focus σ → Heap σ × Thread σ
  | .node _ | .value _ | .cause _ => (heap, thread)
  | .thunk _ | .raising _ =>
    (heap.noteDefect thread.id payload,
      refocus { thread with panicking := none } id (.cause (.ofPayload payload)) stack)
  -- The defect stands where the next effect would have, so it is polled for first.
  | .building _ =>
    (heap.noteDefect thread.id payload,
      refocus { thread with panicking := none } id (.node (.failNow (.ofPayload payload))) stack)
  -- A callback that outlives its registration finds nobody to resume.
  | .registering callback _ =>
    ((heap.noteDefect thread.id payload).setRendezvous callback .abandoned,
      refocus { thread with panicking := none } id (.cause (.ofPayload payload)) stack)

/-- One step of a loop, which has been taken off its thread. -/
def stepLoop (heap : Heap σ) (thread : Thread σ) (id : FiberId) (stack : List (Frame σ))
    (focus : Focus σ) : Heap σ × Thread σ :=
  match focus with
  -- The only poll: a value on its way to a frame is not interrupted.
  | .node current =>
    if heap.shouldInterrupt id then beginInterruption heap thread id stack current
    else interpret heap thread id stack current
  | .value value => deliver heap thread id value stack
  | .cause cause => fail heap thread id cause stack
  | .thunk (.done value) => (heap, refocus thread id (.value value) stack)
  | .raising (.done cause) => (heap, refocus thread id (.cause cause) stack)
  | .building (.done next) => (heap, refocus thread id (.node next) stack)
  | .registering callback (.done _) => park heap thread id callback stack
  | .thunk (.panic payload) | .raising (.panic payload) | .building (.panic payload)
  | .registering _ (.panic payload) => unwindLoop heap thread payload id stack focus
  | .thunk code => perform heap thread (fun code => .loop id (.thunk code) stack) code
  | .raising code => perform heap thread (fun code => .loop id (.raising code) stack) code
  | .building code => perform heap thread (fun code => .loop id (.building code) stack) code
  | .registering callback code =>
    perform heap thread (fun code => .loop id (.registering callback code) stack) code

end Fibers.Machine
