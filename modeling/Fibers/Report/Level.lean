/-!
# Levels of reporting

Every event has a `Severity`; a `LogLevel` says which severities are kept. `LogLevel.parse?` reads
the spellings that users may write, in any case.
-/

namespace Fibers

/-- How much an event matters; earlier constructors matter more. -/
inductive Severity where
  | error
  | warn
  | info
  | debug
  | trace
  deriving DecidableEq, Repr

namespace Severity

/-- The number of severities that matter at least as much. -/
def rank : Severity → Nat
  | .error => 1
  | .warn => 2
  | .info => 3
  | .debug => 4
  | .trace => 5

/-- The label of an event in a log. -/
def label : Severity → String
  | .error => "ERROR"
  | .warn => "WARN"
  | .info => "INFO"
  | .debug => "DEBUG"
  | .trace => "TRACE"

end Severity

/-- Which events are kept. -/
inductive LogLevel where
  | off
  | error
  | warn
  | info
  | debug
  | trace
  deriving DecidableEq, Repr

namespace LogLevel

instance : Inhabited LogLevel := ⟨.info⟩

/-- The number of severities that are kept. -/
def rank : LogLevel → Nat
  | .off => 0
  | .error => 1
  | .warn => 2
  | .info => 3
  | .debug => 4
  | .trace => 5

/-- Whether an event of the given severity is kept. -/
def admits (level : LogLevel) (severity : Severity) : Bool := severity.rank ≤ level.rank

/-- The canonical name, which is also the filter directive of the level. -/
def name : LogLevel → String
  | .off => "off"
  | .error => "error"
  | .warn => "warn"
  | .info => "info"
  | .debug => "debug"
  | .trace => "trace"

/-- The level that a lower-case word stands for. -/
def ofWord? : String → Option LogLevel
  | "off" | "none" | "0" => some .off
  | "error" | "err" | "1" => some .error
  | "warn" | "warning" | "2" => some .warn
  | "info" | "3" => some .info
  | "debug" | "4" => some .debug
  | "trace" | "5" => some .trace
  | _ => none

/-- Read a level in any case. Every accepted word is made of ASCII characters, and no other
character has one of their letters as its lower-case form, apart from the Kelvin sign, whose lower
case does not occur in them; so folding ASCII letters alone decides. -/
def parse? (text : String) : Option LogLevel := ofWord? text.toLower

theorem parse?_name (level : LogLevel) : parse? level.name = some level := by
  cases level <;> decide +kernel

end LogLevel

end Fibers
