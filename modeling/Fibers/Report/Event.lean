import Fibers.Ident
import Fibers.Report.Level

/-!
# Events

What the interpreter reports about its work. An `Event` holds the facts; its severity, its message
and the fields shown beside the message are functions of it.
-/

namespace Fibers

/-- The text of a span of time given in milliseconds: seconds from a thousand on, with the
fraction that is needed, milliseconds below, and nanoseconds for nothing at all. -/
def Duration.render (milliseconds : Nat) : String :=
  if milliseconds = 0 then "0ns"
  else if milliseconds < 1000 then toString milliseconds ++ "ms"
  else
    let seconds := milliseconds / 1000
    let rest := milliseconds % 1000
    let fraction :=
      if rest = 0 then ""
      else if rest % 100 = 0 then "." ++ toString (rest / 100)
      else if rest % 10 = 0 then
        "." ++ (if rest < 100 then "0" else "") ++ toString (rest / 10)
      else "." ++ (if rest < 10 then "00" else if rest < 100 then "0" else "") ++ toString rest
    toString seconds ++ fraction ++ "s"

/-- Something that happened while effects were run. -/
inductive Event where
  | fiberStarted (fiber : FiberId) (executor : String)
  | fiberForked (parent child : FiberId)
  | interruptionRequested (fiber : FiberId)
  | interruptionTakingEffect (fiber : FiberId) (pending : String)
  | fiberCompleted (fiber : FiberId) (success : Bool) (observers : Nat)
  | continuationPushed (fiber : FiberId) (depth : Nat)
  | handlerPushed (fiber : FiberId) (depth : Nat)
  | continuationPopped (fiber : FiberId) (depth : Nat)
  | executorShifted (fiber : FiberId) (executor : String)
  | fiberSuspended (fiber : FiberId)
  | fiberResumed (fiber : FiberId) (depth : Nat)
  | waitAbandoned (timeout : Nat)
  | defectCaught (message : String)
  | poolStarted (name : String) (workers : Nat)
  | taskDropped (pool : String)
  | taskPanicked (worker : Nat) (panic : String)
  | immediateFallback (error : String)
  deriving DecidableEq, Repr

/-- The value of a field shown beside a message. -/
inductive Field where
  | text (value : String)
  | count (value : Nat)
  | flag (value : Bool)
  deriving DecidableEq, Repr

namespace Event

def severity : Event → Severity
  | .fiberStarted .. | .fiberForked .. | .interruptionRequested .. | .interruptionTakingEffect ..
  | .fiberCompleted .. | .waitAbandoned .. | .poolStarted .. => .debug
  | .continuationPushed .. | .handlerPushed .. | .continuationPopped .. | .executorShifted ..
  | .fiberSuspended .. | .fiberResumed .. => .trace
  | .defectCaught .. | .taskDropped .. => .warn
  | .taskPanicked .. | .immediateFallback .. => .error

def message : Event → String
  | .fiberStarted .. => "fiber started"
  | .fiberForked .. => "fiber forked"
  | .interruptionRequested .. => "interruption requested"
  | .interruptionTakingEffect .. => "interruption taking effect"
  | .fiberCompleted .. => "fiber completed"
  | .continuationPushed .. => "push continuation"
  | .handlerPushed .. => "push fold handler"
  | .continuationPopped .. => "pop continuation"
  | .executorShifted .. => "shifted execution context"
  | .fiberSuspended .. => "suspended at async boundary"
  | .fiberResumed .. => "resumed"
  | .waitAbandoned .. => "gave up waiting for root fiber"
  | .defectCaught .. => "defect caught while interpreting effect"
  | .poolStarted .. => "thread pool started"
  | .taskDropped .. => "task submitted after shutdown was dropped"
  | .taskPanicked .. => "task panicked on worker thread"
  | .immediateFallback .. => "falling back to the immediate executor"

def fields : Event → List (String × Field)
  | .fiberStarted fiber executor => [("fiber", .text fiber.render), ("executor", .text executor)]
  | .fiberForked parent child => [("parent", .text parent.render), ("child", .text child.render)]
  | .interruptionRequested fiber => [("fiber", .text fiber.render)]
  | .interruptionTakingEffect fiber pending =>
    [("fiber", .text fiber.render), ("pending", .text pending)]
  | .fiberCompleted fiber success observers =>
    [("fiber", .text fiber.render), ("success", .flag success), ("observers", .count observers)]
  | .continuationPushed fiber depth | .handlerPushed fiber depth
  | .continuationPopped fiber depth | .fiberResumed fiber depth =>
    [("fiber", .text fiber.render), ("depth", .count depth)]
  | .executorShifted fiber executor => [("fiber", .text fiber.render), ("executor", .text executor)]
  | .fiberSuspended fiber => [("fiber", .text fiber.render)]
  | .waitAbandoned timeout => [("timeout", .text (Duration.render timeout))]
  | .defectCaught message => [("defect", .text message)]
  | .poolStarted name workers => [("name", .text name), ("workers", .count workers)]
  | .taskDropped pool => [("pool", .text pool)]
  | .taskPanicked worker panic => [("worker", .count worker), ("panic", .text panic)]
  | .immediateFallback error => [("error", .text error)]

end Event

end Fibers
