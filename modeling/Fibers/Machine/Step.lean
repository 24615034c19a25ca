import Fibers.Machine.Interpreter

/-!
# Steps of a thread

`Machine.step` is one step of one thread against the heap: the innermost activation advances, or, if
the thread is panicking, takes the panic. A thread is runnable unless it has nothing under way or
waits for a mailbox.
-/

namespace Fibers.Machine

variable {σ : Type}

/-- Advance the innermost activation, which has been taken off its thread. -/
def advance (heap : Heap σ) (thread : Thread σ) : Activation σ → Heap σ × Thread σ
  | .program (.done _) => (heap, thread)
  | .program code => perform heap thread .program code
  | .callback (.done _) => (heap, thread)
  | .callback code => perform heap thread .callback code
  | .posting mailbox exit =>
    (heap.updateMailbox mailbox fun box => { box with slot := some exit },
      thread.push (.opening mailbox))
  | .opening mailbox =>
    (heap.updateMailbox mailbox fun box => { box with latch := box.latch.countDown }, thread)
  | .loop id focus stack => stepLoop heap thread id stack focus
  | .notifying _ [] => (heap, thread)
  | .notifying exit (observer :: rest) =>
    notify heap (thread.push (.notifying exit rest)) exit observer
  | .draining outer =>
    match thread.pending.bind Queue.popFront? with
    | some (batch, rest) =>
      (heap, ({ thread with pending := some rest }.push (.draining outer)).push
        (.loop batch.fiber (.node batch.current) batch.stack))
    -- The queue is empty: the drain ends, and the loop it was called from goes on.
    | none => (heap, { thread with pending := outer })

/-- A panic reaches the innermost activation, which has been taken off its thread. A drain puts back
the queue that it set aside; the guards of the interpreter turn the panic into a defect. -/
def takePanic (heap : Heap σ) (thread : Thread σ) (payload : Payload) : Activation σ →
    Heap σ × Thread σ
  | .program _ => (heap, thread)
  -- An observer's panic is its own: the other observers are still notified.
  | .callback _ | .posting _ _ | .opening _ =>
    (heap.noteDefect thread.id payload, { thread with panicking := none })
  | .loop id focus stack => unwindLoop heap thread payload id stack focus
  | .notifying _ _ => (heap, thread)
  | .draining outer => (heap, { thread with pending := outer })

/-- A panic reaches the bottom of a thread: a worker reports it and lives on. -/
def crash (heap : Heap σ) (thread : Thread σ) (payload : Payload) : Heap σ × Thread σ :=
  match thread.role with
  | .worker _ index =>
    (heap.report thread.id .error fun _ => .taskPanicked index payload.text,
      { thread with panicking := none })
  | _ => (heap, thread)

/-- One step of a thread. -/
def step (heap : Heap σ) (thread : Thread σ) : Heap σ × Thread σ :=
  match thread.control, thread.panicking with
  | [], none => (heap, thread)
  | [], some payload => crash heap thread payload
  | activation :: rest, none => advance heap { thread with control := rest } activation
  | activation :: rest, some payload =>
    takePanic heap { thread with control := rest } payload activation

/-- What an activation waits for, if user code in it waits. -/
def awaited? : Activation σ → Option (MailboxId × Option Nat)
  | .program code => code.awaited?
  | .callback code => code.awaited?
  | .loop _ (.thunk code) _ => code.awaited?
  | .loop _ (.raising code) _ => code.awaited?
  | .loop _ (.building code) _ => code.awaited?
  | .loop _ (.registering _ code) _ => code.awaited?
  | _ => none

/-- Whether a step of a thread would change anything. -/
def isRunnable (heap : Heap σ) (thread : Thread σ) : Bool :=
  match thread.control, thread.panicking with
  | [], none => false
  | [], some _ => match thread.role with
    | .worker .. => true
    | _ => false
  | _ :: _, some _ => true
  | activation :: _, none =>
    match awaited? activation with
    | some (mailbox, deadline) => heap.canProceed mailbox deadline
    | none => true

/-- The time at which a waiting thread gives up, if it will. -/
def deadline? (thread : Thread σ) : Option Nat :=
  match thread.control with
  | activation :: _ => (awaited? activation).bind Prod.snd
  | [] => none

end Fibers.Machine
