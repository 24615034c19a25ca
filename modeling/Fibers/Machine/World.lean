import Fibers.Machine.Step

/-!
# Machines and their schedule

A `World` is a heap with all its threads, and a `Move` is one thing that it can do next.
`World.next?` is one schedule among those that are possible: the caller's thread goes first, then
the other threads in the order of their making, then idle workers take tasks, and only when nothing
can move does the clock go on to the next timer or deadline. `World.run` follows it until the
caller's thread has finished or nothing can move.
-/

namespace Fibers

/-- A heap and its threads. The first thread is the caller's own. -/
structure World (σ : Type) where
  heap : Heap σ
  main : Thread σ
  others : Array (Thread σ) := #[]

namespace World

variable {σ : Type}

/-- Whether the caller's thread has nothing left to do. -/
def isFinished (world : World σ) : Bool := world.main.control.isEmpty

/-! ## Moves -/

/-- Step the caller's thread. -/
def stepMain : World σ → World σ
  | ⟨heap, main, others⟩ =>
    let (heap, main) := Machine.step heap main
    ⟨heap, main, others⟩

/-- Step one of the other threads. -/
def stepOther (index : Nat) : World σ → World σ
  | ⟨heap, main, others⟩ =>
    match others[index]? with
    | some thread =>
      let (heap, thread) := Machine.step heap thread
      ⟨heap, main, others.setIfInBounds index thread⟩
    | none => ⟨heap, main, others⟩

/-- The executor whose tasks an idle worker may take now. -/
def taskFor? (heap : Heap σ) (thread : Thread σ) : Option ExecutorId :=
  match thread.role, thread.control, thread.panicking with
  | .worker executor _, [], none =>
    if (heap.waiting executor).isEmpty then none else some executor
  | _, _, _ => none

/-- Let an idle worker take the oldest task of its executor. -/
def takeTask (index : Nat) : World σ → World σ
  | ⟨heap, main, others⟩ =>
    match others[index]? with
    | some thread =>
      match taskFor? heap thread with
      | some executor =>
        match (heap.waiting executor).popFront? with
        | some (task, rest) =>
          ⟨heap.setWaiting executor rest, main, others.setIfInBounds index (thread.run task)⟩
        | none => ⟨heap, main, others⟩
      | none => ⟨heap, main, others⟩
    | none => ⟨heap, main, others⟩

/-- The earliest of two times, either of which may be missing. -/
def earlier? (a b : Option Nat) : Option Nat :=
  match a, b with
  | some a, some b => some (min a b)
  | some a, none => some a
  | none, b => b

/-- The next time at which something happens on its own. -/
def nextTime? (world : World σ) : Option Nat :=
  let timers := world.heap.timers.foldl (fun time timer => earlier? time (some timer.due)) none
  let waits := world.others.foldl (fun time thread => earlier? time (Machine.deadline? thread))
    (Machine.deadline? world.main)
  earlier? timers waits

/-- A thread that completes one callback. -/
def helper (id : ThreadId) (timer : Timer) : Thread σ :=
  { id := id
    name := "<unnamed>"
    role := .helper
    control := [.program (.complete timer.callback timer.value .done)] }

/-- Move the clock and start a helper thread for every timer that is due, the earliest first. -/
def advanceTo (time : Nat) : World σ → World σ
  | ⟨heap, main, others⟩ =>
    let due := (heap.timers.filter (·.due ≤ time)).reverse.mergeSort (·.due ≤ ·.due)
    let start (others : Array (Thread σ)) (timer : Timer) :=
      others.push (helper ⟨others.size + 1⟩ timer)
    { heap := { heap with now := time, timers := heap.timers.filter (time < ·.due) }
      main := main
      others := due.foldl start others }

/-! ## The schedule -/

/-- One thing that a machine can do next. -/
inductive Move where
  /-- The caller's thread takes a step. -/
  | main
  /-- Another thread takes a step. -/
  | other (index : Nat)
  /-- An idle worker takes a task. -/
  | task (index : Nat)
  /-- The clock reaches the given time. -/
  | time (now : Nat)
  deriving DecidableEq, Repr

/-- The move that the schedule makes next: none once the caller's thread has finished, or if nothing
can move. -/
def next? (world : World σ) : Option Move :=
  if world.isFinished then none
  else if Machine.isRunnable world.heap world.main then some .main
  else
    match world.others.findIdx? (Machine.isRunnable world.heap) with
    | some index => some (.other index)
    | none =>
      match world.others.findIdx? (fun thread => (taskFor? world.heap thread).isSome) with
      | some index => some (.task index)
      | none => world.nextTime?.map .time

/-- Make a move. -/
def make (world : World σ) : Move → World σ
  | .main => world.stepMain
  | .other index => world.stepOther index
  | .task index => world.takeTask index
  | .time now => world.advanceTo now

/-- Follow the schedule for a number of moves at most. -/
def run : Nat → World σ → World σ
  | 0, world => world
  | fuel + 1, world =>
    match world.next? with
    | some move => run fuel (world.make move)
    | none => world

/-- More moves than any run can make in practice. -/
def patience : Nat := 4611686018427387904

/-- Run a program on the caller's thread until it has ended or nothing can move. -/
def perform (world : World σ) (program : Code σ Unit) : World σ :=
  run patience { world with main := world.main.push (.program program) }

/-- The panic that ended the program of the caller's thread, if one did. -/
def crashed? (world : World σ) : Option Payload :=
  if world.isFinished then world.main.panicking else none

/-- Forget a panic that the caller has seen. -/
def clearCrash (world : World σ) : World σ :=
  { world with main := { world.main with panicking := none } }

/-- A world before anything has run. -/
def initial (state : σ) (executors : Array (Executor σ)) (level : LogLevel)
    (workers : Array (Thread σ)) : World σ :=
  { heap := { world := state, executors := executors, level := level }
    main := { id := ⟨0⟩, name := "main", role := .main }
    others := workers }

end World

end Fibers
