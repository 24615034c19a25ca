import Fibers.Process
import Fibers.Script.Session

/-!
# Applications

An application is a process of its own: it sets up logging and runners, asks what is set, and runs
effects. Its requests are answered one after another on one process.
-/

namespace Fibers.Script

/-- Something that an application asks of its process. -/
inductive Request where
  | init (setters : List Config.Setter)
  | initFromEnvironment
  | recordedConfig
  | initLogger (config : LogConfig)
  | installLogger (config : LogConfig)
  | level
  | sharedRunner
  | sharedRunnerName
  | run (effect : Expr)
  | runImmediately (effect : Expr)

/-- The answer to a request. -/
inductive Reply where
  | nothing
  | accepted
  | refused (error : ConfigError)
  /-- A text: the description of a runner, or the name of its executor. -/
  | text (value : String)
  | config (value : Option Config)
  | level (value : LogLevel)
  | outcome (value : Outcome)

/-- The process of an application that has done nothing yet. -/
def newProcess (vars : Config.Variables) (workers : Nat) : Process Store :=
  { vars := vars
    workers := workers
    immediate := immediately.executor
    world := ({} : Setting).world }

/-- The reply to an initialization. -/
def Reply.ofInit : Except ConfigError String → Reply
  | .ok name => .text (Runner.describe name)
  | .error error => .refused error

/-- Run an effect on the machine of a process. A panic that leaves the runner ends the
application. -/
def runOn (process : Process Store) (runner : Runner) (effect : Expr) :
    Except Payload (Process Store × Reply) :=
  let setting : Setting := {}
  let world := perform process.world
    ((runner.runSync (setting.effect effect)).bind fun exit => .done (.exit exit))
  match world.heap.world.outcome with
  | .panicked message => .error (.message message)
  | outcome => .ok ({ process with world := world }, .outcome outcome)

/-- Answer one request. -/
def answer (process : Process Store) : Request → Except Payload (Process Store × Reply)
  | .init setters => do
    let (process, result) ← process.init (.build process.workers setters)
    return (process, .ofInit result)
  | .initFromEnvironment => do
    let (process, result) ← process.init process.environmentConfig
    return (process, .ofInit result)
  | .recordedConfig => return (process, .config process.recorded)
  | .initLogger config => return (← process.initLogger config, .nothing)
  | .installLogger config => do
    match ← process.installLogger config with
    | (process, .ok ()) => return (process, .accepted)
    | (process, .error error) => return (process, .refused error)
  | .level => return (process, .level process.level)
  | .sharedRunner => do
    let (process, shared) ← process.sharedRunner
    return (process, .text (Runner.describe shared.name))
  | .sharedRunnerName => do
    let (process, shared) ← process.sharedRunner
    return (process, .text shared.name)
  | .run effect => do
    let (process, shared) ← process.sharedRunner
    runOn process shared.runner effect
  | .runImmediately effect => runOn process immediately effect

/-- Answer requests one after another. -/
def answerAll (process : Process Store) : List Request → Except Payload (Process Store × List Reply)
  | [] => return (process, [])
  | request :: rest => do
    let (process, reply) ← answer process request
    let (process, replies) ← answerAll process rest
    return (process, reply :: replies)

/-- What an application leaves behind. -/
structure ApplicationReport where
  replies : List Reply
  /-- The number of lines written at each severity that has some. -/
  lines : List (Severity × Nat)
  timestamps : Bool

/-- The number of events at each severity that has some. -/
def countLines (events : List Event) : List (Severity × Nat) :=
  [Severity.error, .warn, .info, .debug, .trace].filterMap fun severity =>
    let count := events.countP (·.severity = severity)
    if count = 0 then none else some (severity, count)

/-- Run an application in a process of its own. -/
def runApplication (vars : Config.Variables) (workers : Nat) (requests : List Request) :
    Except Payload ApplicationReport := do
  let (process, replies) ← answerAll (newProcess vars workers) requests
  return { replies := replies
           lines := countLines process.written
           timestamps := process.hasTimestamps }

end Fibers.Script
