import Fibers.Cause
import Fibers.Config.Basic
import Fibers.Text.Quoted

/-!
# Thread pools

A pool as its owner sees it: how it starts, what it is called, and which of the tasks handed to it
are run. Which worker runs a task is not visible; that every accepted task is run, and none after
shutdown, is.
-/

namespace Fibers

/-- The size of a stack, in bytes, from which on no machine can provide it. -/
def unobtainableStackSize : Nat := 1099511627776

/-- The number of workers for which no table can be made. -/
def unobtainableWorkers : Nat := 288230376151711744

/-- A running thread pool. -/
structure Pool where
  name : String
  workers : Nat
  shuttingDown : Bool := false
  deriving DecidableEq, Repr

namespace Pool

/-- The name of a worker thread. -/
def threadName (name : String) (index : Nat) : String := name ++ "-" ++ toString index

/-- The panic of giving a thread a name with a null byte in it: the position of the first one and
the bytes of the name. -/
def interiorNull? (name : String) : Option Payload :=
  let bytes := name.toUTF8.toList
  let position := bytes.idxOf 0
  if position < bytes.length then
    some (.message ("thread name may not contain interior null bytes: NulError(" ++
      toString position ++ ", [" ++ ", ".intercalate (bytes.map toString) ++ "])"))
  else none

/-- Start a pool. Wrong settings and threads that cannot be had are errors; a table of workers that
cannot be made and a name that no thread can bear are panics. -/
def start (config : PoolConfig) : Except Payload (Except ConfigError Pool) :=
  match config.validate with
  | .error error => .ok (.error error)
  | .ok () =>
    if unobtainableWorkers ≤ config.workers then .error (.message "capacity overflow")
    else
      match interiorNull? (threadName config.threadName 0) with
      | some payload => .error payload
      | none =>
        if unobtainableStackSize ≤ config.stackSize then
          .ok (.error (.spawn "Cannot allocate memory (os error 12)"))
        else .ok (.ok { name := config.threadName, workers := config.workers })

/-- The number of workers that are running, once all have started or stopped. -/
def activeWorkers (pool : Pool) : Nat := if pool.shuttingDown then 0 else pool.workers

def shutdown (pool : Pool) : Pool := { pool with shuttingDown := true }

/-- How many of a number of tasks are accepted, and hence run. -/
def accepted (pool : Pool) (tasks : Nat) : Nat := if pool.shuttingDown then 0 else tasks

/-- The pool as a reader sees it. -/
def describe (pool : Pool) : String :=
  "ThreadPool \x7b name: " ++ Text.quote pool.name ++ ", num_workers: " ++
    toString pool.workers ++ ", shutting_down: " ++
    (if pool.shuttingDown then "true" else "false") ++ " \x7d"

/-! ## Exercising a pool -/

/-- Something done with a pool. -/
inductive Exercise where
  | workers
  | name
  | describe
  | isShuttingDown
  /-- Wait for the number of running workers to settle. -/
  | active
  | shutdown
  /-- Submit a task that panics. -/
  | panic
  /-- Submit tasks that count, and wait for them. -/
  | execute (tasks : Nat)
  /-- Submit tasks each of which submits others to a second pool of the same kind. -/
  | fanOut (outer inner : Nat)
  /-- Ask for the name of a worker thread. -/
  | threadName
  /-- Shut down while every worker is busy and one counting task waits. -/
  | queuedAtShutdown
  /-- Submit a counting task without waiting for it. -/
  | executeAfterShutdown
  deriving DecidableEq, Repr

/-- What an exercise shows. -/
inductive Finding where
  | nothing
  | count (value : Nat)
  | text (value : String)
  | flag (value : Bool)
  /-- Whether all counting tasks ended, and how many have run so far. -/
  | executed (allDone : Bool) (total : Nat)
  /-- Whether the outer and the inner tasks ended, and how many inner ones ran. -/
  | fannedOut (outerDone innerDone : Bool) (count : Nat)
  /-- The number of workers left, and of counting tasks run so far. -/
  | stopped (active total : Nat)
  deriving DecidableEq, Repr

/-- Do one exercise; `total` counts the counting tasks that have run so far. -/
def exercise (pool : Pool) (total : Nat) : Exercise → Pool × Nat × Finding
  | .workers => (pool, total, .count pool.workers)
  | .name => (pool, total, .text pool.name)
  | .describe => (pool, total, .text pool.describe)
  | .isShuttingDown => (pool, total, .flag pool.shuttingDown)
  | .active => (pool, total, .count pool.activeWorkers)
  | .shutdown => (pool.shutdown, total, .nothing)
  | .panic => (pool, total, .nothing)
  | .execute tasks =>
    let run := pool.accepted tasks
    (pool, total + run, .executed (run == tasks) (total + run))
  | .fanOut outer inner =>
    let run := pool.accepted outer
    (pool, total, .fannedOut (run == outer) (run * inner == outer * inner) (run * inner))
  | .threadName =>
    (pool, total, if pool.shuttingDown then .nothing else .text (Pool.threadName pool.name 0))
  | .queuedAtShutdown => (pool.shutdown, total, .stopped 0 total)
  | .executeAfterShutdown =>
    let run := pool.accepted 1
    (pool, total + run, .executed (run == 0) total)

/-- Do exercises one after another. -/
def exerciseAll (pool : Pool) (total : Nat) : List Exercise → List Finding
  | [] => []
  | first :: rest =>
    let (pool, total, finding) := pool.exercise total first
    finding :: exerciseAll pool total rest

end Pool

end Fibers
