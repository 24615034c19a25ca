import Fibers.Config.Basic
import Fibers.Text.Numeral

/-!
# Configuration from the environment

Each of five variables sets one field. A variable that is not set, is not text, cannot be read, or
holds a value that validation would refuse leaves the default of its field; so what comes out is
valid whenever the default is.
-/

namespace Fibers.Config

/-- The text of every environment variable that is set to text. -/
abbrev Variables : Type := String → Option String

/-- Read a switch in any case; only ASCII letters occur in the words that are accepted. -/
def switch? (text : String) : Option Bool :=
  match text.toLower with
  | "true" | "1" | "yes" | "on" => some true
  | "false" | "0" | "no" | "off" => some false
  | _ => none

/-- The number of workers that a text asks for, if it is allowed. -/
def workers? (text : String) : Option Nat := (Text.word? text).filter (0 < ·)

/-- The prefix of thread names that a text asks for, if it is allowed. -/
def threadName? (text : String) : Option String :=
  if Text.allBlank text then none else some text

/-- The size of a stack that a text asks for, if it is allowed. -/
def stackSize? (text : String) : Option Nat := (Text.word? text).filter (minStackSize ≤ ·)

/-- The configuration that the environment asks for, on a machine with the given number of
workers. -/
def fromEnvironment (workers : Nat) (vars : Variables) : Config :=
  let base := default workers
  { pool :=
      { workers := ((vars "STRAND_NUM_WORKERS").bind workers?).getD base.pool.workers
        threadName :=
          ((vars "STRAND_THREAD_NAME").bind threadName?).getD base.pool.threadName
        stackSize :=
          ((vars "STRAND_THREAD_STACK_SIZE").bind stackSize?).getD base.pool.stackSize }
    log :=
      { level := ((vars "STRAND_LOG_LEVEL").bind LogLevel.parse?).getD base.log.level
        timestamps :=
          ((vars "STRAND_LOG_TIMESTAMPS").bind switch?).getD base.log.timestamps } }

end Fibers.Config
