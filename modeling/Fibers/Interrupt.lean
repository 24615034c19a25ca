/-!
# Cooperative interruption

A request for interruption only raises a flag, which the interpreter polls between steps. Three
independent flags decide whether a request takes effect: it was made, the region is interruptible,
and no earlier interruption is already unwinding the fiber.
-/

namespace Fibers

/-- Whether a region of an effect may be interrupted. -/
inductive InterruptStatus where
  /-- An interruption takes effect at the next step. -/
  | interruptible
  /-- An interruption waits until the region is left. -/
  | uninterruptible
  deriving DecidableEq, Repr, Inhabited

namespace InterruptStatus

def isInterruptible : InterruptStatus → Bool
  | .interruptible => true
  | .uninterruptible => false

def ofBool : Bool → InterruptStatus
  | true => .interruptible
  | false => .uninterruptible

def render : InterruptStatus → String
  | .interruptible => "interruptible"
  | .uninterruptible => "uninterruptible"

@[simp] theorem isInterruptible_ofBool (b : Bool) : (ofBool b).isInterruptible = b := by
  cases b <;> rfl

end InterruptStatus

/-- The interruption state of one fiber. -/
structure InterruptFlags where
  /-- Interruption has been asked for. -/
  requested : Bool := false
  /-- An interruption has taken effect; it never takes effect again. -/
  finalizing : Bool := false
  /-- The status of the region being run. -/
  status : InterruptStatus := .interruptible
  deriving DecidableEq, Repr

namespace InterruptFlags

/-- Whether the next step must give way to an interruption. -/
def shouldInterrupt (flags : InterruptFlags) : Bool :=
  flags.requested && flags.status.isInterruptible && !flags.finalizing

def request (flags : InterruptFlags) : InterruptFlags := { flags with requested := true }

def beginFinalizing (flags : InterruptFlags) : InterruptFlags := { flags with finalizing := true }

def setStatus (flags : InterruptFlags) (status : InterruptStatus) : InterruptFlags :=
  { flags with status := status }

@[simp] theorem shouldInterrupt_beginFinalizing (flags : InterruptFlags) :
    flags.beginFinalizing.shouldInterrupt = false := by
  simp [shouldInterrupt, beginFinalizing]

@[simp] theorem shouldInterrupt_uninterruptible (flags : InterruptFlags) :
    (flags.setStatus .uninterruptible).shouldInterrupt = false := by
  simp [shouldInterrupt, setStatus, InterruptStatus.isInterruptible]

theorem shouldInterrupt_iff {flags : InterruptFlags} :
    flags.shouldInterrupt = true ↔
      flags.requested = true ∧ flags.status = .interruptible ∧ flags.finalizing = false := by
  obtain ⟨requested, finalizing, status⟩ := flags
  cases status <;> simp [shouldInterrupt, InterruptStatus.isInterruptible]

end InterruptFlags

end Fibers
