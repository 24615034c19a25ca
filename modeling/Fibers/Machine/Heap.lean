import Fibers.Effect.Node
import Fibers.Latch
import Fibers.Queue

/-!
# The heap

Everything that the threads of a machine share: the fibers, the suspensions and mailboxes by which
they wait for each other, the executors with their waiting tasks, the world of user code, the clock,
and what has been reported. A fiber's own control state is not here: it is in the batch that will
run next, in the suspension that waits for a value, or in a loop on some thread.
-/

namespace Fibers

/-- The identity of a thread. -/
structure ThreadId where
  index : Nat
  deriving DecidableEq, Repr

/-- A slice of a fiber's run: the effect to interpret and the frames under it. -/
structure Batch (σ : Type) where
  fiber : FiberId
  current : Node σ
  stack : List (Frame σ)

/-- A unit of work handed to an executor: a batch, which drains on a queue of its own if it is the
first one of a root fiber. -/
structure Task (σ : Type) where
  batch : Batch σ
  isolated : Bool

/-- Someone who waits for the exit of a fiber. -/
inductive Observer (σ : Type) where
  /-- A suspended fiber, which receives the exit as a value of the given type. -/
  | resume (type : Ty) (callback : CallbackId)
  /-- The callback of the caller of a root fiber. -/
  | call (callback : RunCallback σ)
  /-- A mailbox for an exit with a value of the given type. -/
  | answer (type : Ty) (mailbox : MailboxId)

/-- Whether a fiber has ended. -/
inductive Progress (σ : Type) where
  /-- Still running; the observers wait in the order of their registration. -/
  | running (observers : List (Observer σ))
  /-- Ended. -/
  | done (exit : Exit Erased)

/-- What is shared about one fiber. -/
structure FiberState (σ : Type) where
  progress : Progress σ := .running []
  flags : InterruptFlags := {}
  /-- The environments provided around the current step, innermost first. -/
  environments : List Erased
  /-- The execution context of the fiber. -/
  executor : ExecutorId
  /-- The effect of the fiber, until it is started. -/
  seed : Option (Node σ)

/-- The meeting of a fiber that suspends and the callback that resumes it. -/
inductive Rendezvous (σ : Type) where
  /-- The registration is still running. -/
  | registering
  /-- The callback came first: the value waits for the registration to return. -/
  | completed (value : Erased)
  /-- The registration returned first: the frames wait for the value. -/
  | parked (stack : List (Frame σ))
  /-- The fiber has gone on. -/
  | resumed
  /-- The registration panicked; the callback has lost its meaning. -/
  | abandoned

/-- One async boundary of one fiber. -/
structure Suspension (σ : Type) where
  fiber : FiberId
  state : Rendezvous σ := .registering

/-- Where a blocked caller finds the exit of its fiber. The slot is filled before the latch
opens. -/
structure Mailbox where
  latch : Latch := ⟨1⟩
  slot : Option (Exit Erased) := none

/-- What an executor does with a task. -/
inductive Discipline where
  /-- Run it at once, on the submitting thread. -/
  | inline
  /-- Keep it until a worker or somebody else takes it. -/
  | hold
  /-- Drop it. -/
  | discard
  /-- Panic. -/
  | refuse (payload : Payload)
  deriving DecidableEq, Repr

/-- An execution context. -/
structure Executor (σ : Type) where
  name : String
  discipline : Discipline
  waiting : Queue (Task σ) := {}

/-- A callback to be completed by a helper thread once the clock has reached a time. -/
structure Timer where
  due : Nat
  callback : CallbackId
  value : Erased

/-- What the threads of a machine share. -/
structure Heap (σ : Type) where
  /-- The world of user code. -/
  world : σ
  executors : Array (Executor σ)
  fibers : Array (FiberState σ) := #[]
  suspensions : Array (Suspension σ) := #[]
  mailboxes : Array Mailbox := #[]
  timers : List Timer := []
  /-- The time in milliseconds. -/
  now : Nat := 0
  /-- The number of panics that became defects. -/
  defects : Nat := 0
  /-- Which events are kept. -/
  level : LogLevel := .off
  /-- The events kept, oldest first, each with the thread that reported it. -/
  events : Array (ThreadId × Event) := #[]

namespace Heap

variable {σ : Type}

/-! ## Fibers -/

def fiber? (heap : Heap σ) (id : FiberId) : Option (FiberState σ) := heap.fibers[id.index]?

def updateFiber (heap : Heap σ) (id : FiberId) (f : FiberState σ → FiberState σ) : Heap σ :=
  { heap with fibers := heap.fibers.modify id.index f }

/-- The identity of the next fiber. -/
def nextFiber (heap : Heap σ) : FiberId := .ofIndex heap.fibers.size

/-- Add a fiber that has not started. -/
def addFiber (heap : Heap σ) (fiber : FiberState σ) : Heap σ :=
  { heap with fibers := heap.fibers.push fiber }

/-- The exit of a fiber, if it is done. -/
def poll (heap : Heap σ) (id : FiberId) : Option (Exit Erased) :=
  match heap.fiber? id with
  | some { progress := .done exit, .. } => some exit
  | _ => none

/-- Whether the next step of a fiber must give way to an interruption. -/
def shouldInterrupt (heap : Heap σ) (id : FiberId) : Bool :=
  match heap.fiber? id with
  | some fiber => fiber.flags.shouldInterrupt
  | none => false

def updateFlags (heap : Heap σ) (id : FiberId) (f : InterruptFlags → InterruptFlags) : Heap σ :=
  heap.updateFiber id fun fiber => { fiber with flags := f fiber.flags }

/-- The interrupt status of a fiber. -/
def status (heap : Heap σ) (id : FiberId) : InterruptStatus :=
  match heap.fiber? id with
  | some fiber => fiber.flags.status
  | none => .interruptible

/-- The environments provided around the current step of a fiber, innermost first. -/
def environments (heap : Heap σ) (id : FiberId) : List Erased :=
  match heap.fiber? id with
  | some fiber => fiber.environments
  | none => []

/-- Provide one more environment. -/
def enterScope (heap : Heap σ) (id : FiberId) (environment : Erased) : Heap σ :=
  heap.updateFiber id fun fiber =>
    { fiber with environments := environment :: fiber.environments }

/-- Drop the innermost environment. -/
def leaveScope (heap : Heap σ) (id : FiberId) : Heap σ :=
  heap.updateFiber id fun fiber => { fiber with environments := fiber.environments.tail }

/-- The execution context of a fiber. -/
def executorOf (heap : Heap σ) (id : FiberId) : ExecutorId :=
  match heap.fiber? id with
  | some fiber => fiber.executor
  | none => ⟨0⟩

def setExecutor (heap : Heap σ) (id : FiberId) (executor : ExecutorId) : Heap σ :=
  heap.updateFiber id fun fiber => { fiber with executor := executor }

/-! ## Suspensions and mailboxes -/

/-- The callback of the next suspension. -/
def nextCallback (heap : Heap σ) : CallbackId := ⟨heap.suspensions.size⟩

def addSuspension (heap : Heap σ) (fiber : FiberId) : Heap σ :=
  { heap with suspensions := heap.suspensions.push { fiber := fiber } }

def suspension? (heap : Heap σ) (callback : CallbackId) : Option (Suspension σ) :=
  heap.suspensions[callback.index]?

def setRendezvous (heap : Heap σ) (callback : CallbackId) (state : Rendezvous σ) : Heap σ :=
  { heap with
    suspensions := heap.suspensions.modify callback.index fun suspension =>
      { suspension with state := state } }

def nextMailbox (heap : Heap σ) : MailboxId := ⟨heap.mailboxes.size⟩

def addMailbox (heap : Heap σ) : Heap σ := { heap with mailboxes := heap.mailboxes.push {} }

def updateMailbox (heap : Heap σ) (mailbox : MailboxId) (f : Mailbox → Mailbox) : Heap σ :=
  { heap with mailboxes := heap.mailboxes.modify mailbox.index f }

/-- Whether the latch of a mailbox is open. -/
def isOpen (heap : Heap σ) (mailbox : MailboxId) : Bool :=
  match heap.mailboxes[mailbox.index]? with
  | some box => box.latch.isOpen
  | none => false

/-- The exit in a mailbox. -/
def slot (heap : Heap σ) (mailbox : MailboxId) : Option (Exit Erased) :=
  match heap.mailboxes[mailbox.index]? with
  | some box => box.slot
  | none => none

/-! ## Executors -/

def executor? (heap : Heap σ) (id : ExecutorId) : Option (Executor σ) := heap.executors[id.index]?

/-- The name of an executor. -/
def executorName (heap : Heap σ) (id : ExecutorId) : String :=
  match heap.executor? id with
  | some executor => executor.name
  | none => ""

/-- The tasks waiting at an executor. -/
def waiting (heap : Heap σ) (id : ExecutorId) : Queue (Task σ) :=
  match heap.executor? id with
  | some executor => executor.waiting
  | none => {}

def setWaiting (heap : Heap σ) (id : ExecutorId) (waiting : Queue (Task σ)) : Heap σ :=
  { heap with
    executors := heap.executors.modify id.index fun executor =>
      { executor with waiting := waiting } }

/-- Add a task behind the others of an executor. -/
def enqueue (heap : Heap σ) (id : ExecutorId) (task : Task σ) : Heap σ :=
  { heap with
    executors := heap.executors.modify id.index fun executor =>
      { executor with waiting := executor.waiting.push task } }

/-! ## Reports -/

/-- Keep an event, if its severity is wanted; otherwise it is not even computed. -/
def report (heap : Heap σ) (thread : ThreadId) (severity : Severity) (event : Unit → Event) :
    Heap σ :=
  if heap.level.admits severity then { heap with events := heap.events.push (thread, event ()) }
  else heap

/-- Count and report a panic that becomes a defect. -/
def noteDefect (heap : Heap σ) (thread : ThreadId) (payload : Payload) : Heap σ :=
  { heap with defects := heap.defects + 1 }.report thread .warn fun _ => .defectCaught payload.text

end Heap

end Fibers
