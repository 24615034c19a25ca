import Fibers.Config.Environment
import Fibers.Machine.World
import Fibers.Pool
import Fibers.Report.Filter
import Fibers.Runner

/-!
# Process-wide state

What exists once in a process: the environment, the logger, the configuration that was recorded
first, and the runner that is made on first use. Each of the last three is set once and then stays.
-/

namespace Fibers

/-- The version of the library. -/
def version : String := "0.1.0"

/-- An installed logger. -/
structure Logger where
  filter : Filter
  timestamps : Bool

/-- The runner that a process shares, with the name of its executor. -/
structure SharedRunner where
  name : String
  runner : Runner

/-- The text shown for a runner whose executor has the given name. -/
def Runner.describe (executor : String) : String :=
  "Runtime \x7b executor: " ++ Text.quote executor ++ " \x7d"

/-- The state of a process over a machine. -/
structure Process (σ : Type) where
  vars : Config.Variables
  /-- The number of workers that the machine has by default. -/
  workers : Nat
  /-- The executor that runs everything at once. -/
  immediate : ExecutorId
  world : World σ
  logger : Option Logger := none
  recorded : Option Config := none
  shared : Option SharedRunner := none

namespace Process

variable {σ : Type}

/-- The highest level at which events are looked at. -/
def level (process : Process σ) : LogLevel := process.world.heap.level

/-- Look at the events up to a level. -/
def watch (process : Process σ) (level : LogLevel) : Process σ :=
  { process with
    world := { process.world with heap := { process.world.heap with level := level } } }

/-- The filter that the environment asks for, or the one of a configuration if the environment asks
for none that can be read. To cut a directive inside a character is a panic. -/
def filterFor (process : Process σ) (config : LogConfig) : Except Payload Filter :=
  match (process.vars "RUST_LOG").map Filter.parse with
  | some (.ok filter) => .ok filter
  | some (.error (.inner offset)) => .error (.message offset.message)
  | some (.error .malformed) | none => .ok (.ofLevel config.level)

/-- Install a logger, unless there is one. One that comes too late writes nothing, but the events
that it asked for are looked at besides those of the first. -/
def installLogger (process : Process σ) (config : LogConfig) :
    Except Payload (Process σ × Except ConfigError Unit) := do
  let filter ← process.filterFor config
  match process.logger with
  | some logger =>
    return (process.watch (Filter.higher logger.filter.maxLevel filter.maxLevel),
      .error (.logger "a global default trace dispatcher has already been set"))
  | none =>
    let process := { process with logger := some ⟨filter, config.timestamps⟩ }
    return (process.watch filter.maxLevel, .ok ())

/-- Install a logger; if there is one, it stays. -/
def initLogger (process : Process σ) (config : LogConfig) : Except Payload (Process σ) := do
  let (process, _) ← process.installLogger config
  return process

/-- Report an event on the caller's thread. -/
def report (process : Process σ) (event : Event) : Process σ :=
  { process with
    world := { process.world with
      heap := process.world.heap.report process.world.main.id event.severity fun _ => event } }

/-- Start a pool and report it. -/
def startPool (process : Process σ) (config : PoolConfig) :
    Except Payload (Process σ × Except ConfigError Pool) := do
  match ← Pool.start config with
  | .ok pool => return (process.report (.poolStarted pool.name pool.workers), .ok pool)
  | .error error => return (process, .error error)

/-- Set up logging and a pool, and record the configuration if it is the first. The name of the
pool comes back. -/
def init (process : Process σ) (config : Config) :
    Except Payload (Process σ × Except ConfigError String) := do
  match config.validate with
  | .error error => return (process, .error error)
  | .ok () =>
    let (process, result) ← (← process.initLogger config.log).startPool config.pool
    match result with
    | .error error => return (process, .error error)
    | .ok pool =>
      return ({ process with recorded := process.recorded.or (some config) }, .ok pool.name)

/-- The configuration that the environment asks for. -/
def environmentConfig (process : Process σ) : Config :=
  .fromEnvironment process.workers process.vars

/-- Add the executor and the workers of a pool to the machine. -/
def addPool (process : Process σ) (pool : Pool) : Process σ × ExecutorId :=
  let world := process.world
  let executor : ExecutorId := ⟨world.heap.executors.size⟩
  let threads := (List.range pool.workers).map fun index =>
    { id := ⟨world.others.size + 1 + index⟩
      name := Pool.threadName pool.name index
      role := .worker executor index : Thread σ }
  ({ process with
      world := { world with
        heap := { world.heap with
          executors := world.heap.executors.push { name := pool.name, discipline := .hold } }
        others := world.others ++ threads.toArray } },
    executor)

/-- The runner that the process shares. On first use it is made from the environment; if its pool
does not start, it runs everything at once. -/
def sharedRunner (process : Process σ) : Except Payload (Process σ × SharedRunner) := do
  match process.shared with
  | some shared => return (process, shared)
  | none =>
    let (process, result) ← process.startPool process.environmentConfig.pool
    let (process, shared) := match result with
      | .ok pool =>
        let (process, executor) := process.addPool pool
        (process, SharedRunner.mk pool.name ⟨executor⟩)
      | .error error =>
        (process.report (.immediateFallback error.message),
          SharedRunner.mk "immediate" ⟨process.immediate⟩)
    return ({ process with shared := some shared }, shared)

/-- The events that were written by the logger. -/
def written (process : Process σ) : List Event :=
  match process.logger with
  | some logger => (process.world.heap.events.toList.map Prod.snd).filter logger.filter.admits
  | none => []

/-- Whether some line was written with a timestamp. -/
def hasTimestamps (process : Process σ) : Bool :=
  match process.logger with
  | some logger => logger.timestamps && !process.written.isEmpty
  | none => false

end Process

end Fibers
