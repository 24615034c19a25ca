import Fibers.Report.Level
import Fibers.Text.Blank

/-!
# Configuration

The settings of a thread pool and of logging, their defaults, and the rules that a configuration has
to meet. The default number of workers is that of the machine, so it is a parameter.
-/

namespace Fibers

/-- Why a configuration, a pool or a logger is refused. -/
inductive ConfigError where
  /-- A field has a value that is not allowed. -/
  | invalidValue (field detail : String)
  /-- A worker thread could not be started. -/
  | spawn (reason : String)
  /-- The logger of the process could not be installed. -/
  | logger (reason : String)
  deriving DecidableEq, Repr

/-- The error as a reader sees it. -/
def ConfigError.message : ConfigError → String
  | .invalidValue field detail => "invalid configuration for '" ++ field ++ "': " ++ detail
  | .spawn reason => "failed to spawn worker thread: " ++ reason
  | .logger reason => "failed to install logger: " ++ reason

/-- The smallest stack, in bytes, that a worker thread may have. -/
def minStackSize : Nat := 65536

/-- The settings of a thread pool. -/
structure PoolConfig where
  workers : Nat
  /-- What the names of the threads begin with. -/
  threadName : String := "strand-worker"
  /-- The stack of each thread in bytes. -/
  stackSize : Nat := 2097152
  deriving DecidableEq, Repr

namespace PoolConfig

/-- Accept the settings, or name the first field that is wrong. -/
def validate (config : PoolConfig) : Except ConfigError Unit :=
  if config.workers = 0 then .error (.invalidValue "executor.num_workers" "must be at least 1")
  else if Text.allBlank config.threadName then
    .error (.invalidValue "executor.thread_name" "must not be empty")
  else if config.stackSize < minStackSize then
    .error (.invalidValue "executor.thread_stack_size"
      ("must be at least " ++ toString minStackSize ++ " bytes"))
  else .ok ()

theorem validate_eq_ok_iff (config : PoolConfig) :
    config.validate = .ok () ↔
      config.workers ≠ 0 ∧ Text.allBlank config.threadName = false ∧
        minStackSize ≤ config.stackSize := by
  unfold validate
  split
  · simp_all
  · split
    · simp_all
    · split
      · simp_all
      · simp_all

end PoolConfig

/-- The settings of logging. -/
structure LogConfig where
  level : LogLevel := .info
  timestamps : Bool := true
  deriving DecidableEq, Repr

/-- A complete configuration. -/
structure Config where
  pool : PoolConfig
  log : LogConfig := {}
  deriving DecidableEq, Repr

namespace Config

/-- The configuration in which nothing was set, on a machine with the given number of workers. -/
def default (workers : Nat) : Config := { pool := { workers := workers } }

/-- Accept the configuration, or name the first field that is wrong. -/
def validate (config : Config) : Except ConfigError Unit := config.pool.validate

/-- One setting that a program makes. -/
inductive Setter where
  | workers (count : Nat)
  | threadName (name : String)
  | stackSize (bytes : Nat)
  | level (level : LogLevel)
  | timestamps (shown : Bool)
  deriving DecidableEq, Repr

/-- Make one setting. -/
def set (config : Config) : Setter → Config
  | .workers count => { config with pool := { config.pool with workers := count } }
  | .threadName name => { config with pool := { config.pool with threadName := name } }
  | .stackSize bytes => { config with pool := { config.pool with stackSize := bytes } }
  | .level level => { config with log := { config.log with level := level } }
  | .timestamps shown => { config with log := { config.log with timestamps := shown } }

/-- Make settings one after another, on top of the defaults; a later one wins. -/
def build (workers : Nat) (setters : List Setter) : Config :=
  setters.foldl set (default workers)

end Config

end Fibers
