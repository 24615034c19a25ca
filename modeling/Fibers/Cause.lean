/-!
# Causes and exits

A fiber ends with an `Exit`: a value, or the `Cause` for which there is none. A cause is an
expected error, a defect (a panic that escaped user code, or a broken expectation of the
interpreter), or an interruption. `Payload` is what a panic carries on its way to the guard that
turns it into a defect.
-/

namespace Fibers

/-- What a panic carries: a text, or something that is no text. -/
inductive Payload where
  /-- A panic raised with a text. -/
  | message (text : String)
  /-- A panic raised with a value that is no text. -/
  | other
  deriving DecidableEq, Repr

/-- The text reported for a panic; a payload that is no text has a fixed description. -/
def Payload.text : Payload → String
  | .message text => text
  | .other => "panic with a non-string payload"

/-- Run guarded code: what it returned, or the text of the panic that ended it. -/
def guarded {α : Type} : Except Payload α → Except String α
  | .ok value => .ok value
  | .error payload => .error payload.text

/-- Why a fiber did not produce a value. -/
inductive Cause where
  /-- An expected error, recoverable by ordinary error handlers. -/
  | fail (error : String)
  /-- A defect, visible only to handlers of causes. -/
  | die (message : String)
  /-- Cooperative cancellation, visible only to handlers of causes. -/
  | interrupt
  deriving DecidableEq, Repr

namespace Cause

/-- The defect that a caught panic becomes. -/
def ofPayload (payload : Payload) : Cause := .die payload.text

def isFail : Cause → Bool
  | .fail _ => true
  | _ => false

def isDie : Cause → Bool
  | .die _ => true
  | _ => false

def isInterrupt : Cause → Bool
  | .interrupt => true
  | _ => false

/-- The expected error, if the cause is one. -/
def failure? : Cause → Option String
  | .fail error => some error
  | _ => none

/-- The message of the defect, if the cause is one. -/
def defect? : Cause → Option String
  | .die message => some message
  | _ => none

/-- The cause as a reader sees it. -/
def render : Cause → String
  | .fail error => "fail: " ++ error
  | .die message => "die: " ++ message
  | .interrupt => "interrupted"

/-- The defect raised by an environment read outside every `provide`. -/
def missingEnvironment : Cause := .die "no environment has been provided"

end Cause

/-- How a fiber ended. -/
inductive Exit (α : Type) where
  /-- The fiber produced a value. -/
  | success (value : α)
  /-- The fiber failed. -/
  | failure (cause : Cause)
  deriving Repr

namespace Exit

variable {α β : Type}

def isSuccess : Exit α → Bool
  | .success _ => true
  | .failure _ => false

def isFailure : Exit α → Bool
  | .success _ => false
  | .failure _ => true

def value? : Exit α → Option α
  | .success value => some value
  | .failure _ => none

def cause? : Exit α → Option Cause
  | .success _ => none
  | .failure cause => some cause

/-- Transform the value of a success. -/
def map (f : α → β) : Exit α → Exit β
  | .success value => .success (f value)
  | .failure cause => .failure cause

/-- Feed the value of a success to a computation that may fail. -/
def bind (f : α → Exit β) : Exit α → Exit β
  | .success value => f value
  | .failure cause => .failure cause

def toExcept : Exit α → Except Cause α
  | .success value => .ok value
  | .failure cause => .error cause

def ofExcept : Except Cause α → Exit α
  | .ok value => .success value
  | .error cause => .failure cause

@[simp] theorem ofExcept_toExcept (exit : Exit α) : ofExcept exit.toExcept = exit := by
  cases exit <;> rfl

@[simp] theorem toExcept_ofExcept (result : Except Cause α) :
    (ofExcept result).toExcept = result := by
  cases result <;> rfl

@[simp] theorem map_id (exit : Exit α) : exit.map id = exit := by
  cases exit <;> rfl

end Exit

end Fibers
