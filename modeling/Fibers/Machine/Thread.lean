import Fibers.Machine.Heap

/-!
# Threads

A thread is a stack of activations: interpreter loops, the user code they run, drains of the batches
queued on the thread, and completions that still have observers to notify. Everything that would be
a nested call is one more activation, so the depth of a thread is visible, and a panic is a value
that travels down the stack until an activation guards against it.
-/

namespace Fibers

/-- Where an interpreter loop is in its cycle. -/
inductive Focus (σ : Type) where
  /-- About to poll for interruption and interpret an effect. -/
  | node (current : Node σ)
  /-- A value was produced; the topmost frame is next. -/
  | value (value : Erased)
  /-- A cause was raised; the innermost handler is next. -/
  | cause (cause : Cause)
  /-- Running a deferred computation. -/
  | thunk (code : Code σ Erased)
  /-- Running the code that computes a cause. -/
  | raising (code : Code σ Cause)
  /-- Running the code that builds the next effect. -/
  | building (code : Code σ (Node σ))
  /-- Running the registration of an async effect. -/
  | registering (callback : CallbackId) (code : Code σ Unit)

/-- Something that is under way on a thread. -/
inductive Activation (σ : Type) where
  /-- Code with nothing to guard it: a panic goes through. -/
  | program (code : Code σ Unit)
  /-- The callback of a root fiber: a panic in it is swallowed. -/
  | callback (code : Code σ Unit)
  /-- The callback of a blocked caller, about to put an exit into a mailbox. -/
  | posting (mailbox : MailboxId) (exit : Exit Erased)
  /-- The callback of a blocked caller, about to open the mailbox. -/
  | opening (mailbox : MailboxId)
  /-- An interpreter loop. -/
  | loop (fiber : FiberId) (focus : Focus σ) (stack : List (Frame σ))
  /-- A completed fiber whose remaining observers are to be notified. -/
  | notifying (exit : Exit Erased) (observers : List (Observer σ))
  /-- A drain of the batches queued on the thread; `outer` is the queue that it set aside. -/
  | draining (outer : Option (Queue (Batch σ)))

/-- What a thread is for. -/
inductive Role where
  /-- The caller's own thread. -/
  | main
  /-- A worker that takes the tasks of an executor. -/
  | worker (executor : ExecutorId) (index : Nat)
  /-- A thread made for one completion. -/
  | helper
  deriving DecidableEq, Repr

/-- A thread of control. -/
structure Thread (σ : Type) where
  id : ThreadId
  name : String
  role : Role
  /-- The batches that wait behind the running loop; nothing if no loop is running. -/
  pending : Option (Queue (Batch σ)) := none
  /-- What is under way, innermost first. -/
  control : List (Activation σ) := []
  /-- The panic on its way down the control stack. -/
  panicking : Option Payload := none

namespace Thread

variable {σ : Type}

/-- Begin an activation on top of the others. -/
def push (thread : Thread σ) (activation : Activation σ) : Thread σ :=
  { thread with control := activation :: thread.control }

/-- Begin to panic. -/
def raise (thread : Thread σ) (payload : Payload) : Thread σ :=
  { thread with panicking := some payload }

/-- Run a task: behind the loop that is running on this thread, if there is one and the task is not
isolated; otherwise at once, draining on a fresh queue. -/
def run (thread : Thread σ) (task : Task σ) : Thread σ :=
  match task.isolated, thread.pending with
  | false, some queue => { thread with pending := some (queue.push task.batch) }
  | _, outer =>
    { thread with
      pending := some {}
      control := .loop task.batch.fiber (.node task.batch.current) task.batch.stack
        :: .draining outer :: thread.control }

end Thread

namespace Machine

variable {σ : Type}

/-- Hand a task to an executor. -/
def execute (heap : Heap σ) (thread : Thread σ) (executor : ExecutorId) (task : Task σ) :
    Heap σ × Thread σ :=
  match heap.executor? executor with
  | none => (heap, thread)
  | some { discipline := .inline, .. } => (heap, thread.run task)
  | some { discipline := .hold, .. } => (heap.enqueue executor task, thread)
  | some { discipline := .discard, .. } => (heap, thread)
  | some { discipline := .refuse payload, .. } => (heap, thread.raise payload)

/-- Start a fiber: hand the first batch to its executor. A fiber that has started is left alone. -/
def start (heap : Heap σ) (thread : Thread σ) (id : FiberId) (root : Bool) :
    Heap σ × Thread σ :=
  match heap.fiber? id with
  | some { seed := some effect, executor, .. } =>
    let name := heap.executorName executor
    let heap := heap.updateFiber id fun fiber => { fiber with seed := none }
    let heap := heap.report thread.id .debug fun _ => .fiberStarted id name
    execute heap thread executor ⟨⟨id, effect, []⟩, root⟩
  | _ => (heap, thread)

/-- Make a root fiber. -/
def newRoot (heap : Heap σ) (executor : ExecutorId) (effect : Node σ)
    (observers : List (Observer σ)) : Heap σ :=
  heap.addFiber
    { progress := .running observers, environments := [], executor := executor,
      seed := some effect }

/-- Go on with a fiber after a suspension: at once, or through its executor if a loop is already
running on this thread. -/
def resume (heap : Heap σ) (thread : Thread σ) (id : FiberId) (value : Erased)
    (stack : List (Frame σ)) : Heap σ × Thread σ :=
  let heap := heap.report thread.id .trace fun _ => .fiberResumed id stack.length
  let task : Task σ := ⟨⟨id, .succeed value, stack⟩, false⟩
  match thread.pending with
  -- A loop is running here already, so the fiber waits its turn at its executor.
  | some _ => execute heap thread (heap.executorOf id) task
  | none => (heap, thread.run task)

/-- Complete an async callback. Inside the registration the value waits for the loop; afterwards
the fiber goes on; a second completion, or one after a panicking registration, does nothing. -/
def completeCallback (heap : Heap σ) (thread : Thread σ) (callback : CallbackId) (value : Erased) :
    Heap σ × Thread σ :=
  match heap.suspension? callback with
  | some { state := .registering, .. } =>
    (heap.setRendezvous callback (.completed value), thread)
  | some { fiber, state := .parked stack } =>
    resume (heap.setRendezvous callback .resumed) thread fiber value stack
  | _ => (heap, thread)

/-- Move a fiber to its end and notify its observers. A fiber ends once. -/
def completeFiber (heap : Heap σ) (thread : Thread σ) (id : FiberId) (exit : Exit Erased) :
    Heap σ × Thread σ :=
  match heap.fiber? id with
  | some { progress := .running observers, .. } =>
    let heap := heap.updateFiber id fun fiber => { fiber with progress := .done exit }
    let heap := heap.report thread.id .debug fun _ =>
      .fiberCompleted id exit.isSuccess observers.length
    (heap, thread.push (.notifying exit observers))
  | _ => (heap, thread.raise (.message (id.render ++ " completed more than once")))

/-- Register an observer; if the fiber is done, the observer is notified at once. -/
def observe (heap : Heap σ) (thread : Thread σ) (id : FiberId) (observer : Observer σ) :
    Heap σ × Thread σ :=
  match heap.fiber? id with
  | some { progress := .running _, .. } =>
    (heap.updateFiber id fun fiber =>
      match fiber.progress with
      | .running observers => { fiber with progress := .running (observers ++ [observer]) }
      | .done _ => fiber, thread)
  | some { progress := .done exit, .. } => (heap, thread.push (.notifying exit [observer]))
  | none => (heap, thread)

/-- Notify one observer. -/
def notify (heap : Heap σ) (thread : Thread σ) (exit : Exit Erased) : Observer σ →
    Heap σ × Thread σ
  | .resume type callback =>
    completeCallback heap thread callback ⟨.exit type, exit.recover type⟩
  | .call (.ofCode run) => (heap, thread.push (.callback (run exit)))
  | .answer type mailbox => (heap, thread.push (.posting mailbox (exit.recover type).erase))

/-- Request the interruption of a fiber; only the first request is reported. -/
def requestInterrupt (heap : Heap σ) (thread : Thread σ) (id : FiberId) : Heap σ :=
  match heap.fiber? id with
  | some fiber =>
    let heap := heap.updateFlags id InterruptFlags.request
    if fiber.flags.requested then heap
    else heap.report thread.id .debug fun _ => .interruptionRequested id
  | none => heap

end Machine

end Fibers
