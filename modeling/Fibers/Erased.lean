import Fibers.Datum

/-!
# Erased values

Effects of many value types run on one interpreter, so values travel with their type beside them.
`Ty` is the universe of value types, `Erased` a value together with its type, and
`Erased.recover` the only way back: it succeeds exactly at the type that was erased.
-/

namespace Fibers

/-- The types of the values that flow through effects. -/
inductive Ty where
  | unit
  | bool
  | int
  | word
  | text
  | ints
  | datum
  | pair (left right : Ty)
  | exit (value : Ty)
  /-- A handle on a fiber producing the given type. -/
  | fiber (value : Ty)
  /-- A fiber as the interpreter sees it, without the type of its value. -/
  | context
  deriving DecidableEq, Repr

namespace Ty

/-- The values of a type. -/
@[reducible] def Carrier : Ty → Type
  | .unit => Unit
  | .bool => Bool
  | .int => Int64
  | .word => UInt32
  | .text => String
  | .ints => List Int64
  | .datum => Datum
  | .pair left right => left.Carrier × right.Carrier
  | .exit value => Exit value.Carrier
  | .fiber _ => FiberId
  | .context => FiberId

/-- The name of a type in the message of a mismatch. -/
def name : Ty → String
  | .unit => "()"
  | .bool => "bool"
  | .int => "i64"
  | .word => "u32"
  | .text => "alloc::string::String"
  | .ints => "alloc::vec::Vec<i64>"
  | .datum => "datum"
  | .pair left right => "(" ++ left.name ++ ", " ++ right.name ++ ")"
  | .exit value => "exit of " ++ value.name
  | .fiber value => "fiber of " ++ value.name
  | .context => "fiber"

end Ty

/-- The defect of reading a value at a type that is not its own. -/
def Cause.typeMismatch (expected : Ty) : Cause :=
  .die ("expected a value of type \x60" ++ expected.name ++ "\x60")

/-- A value with its type beside it. -/
structure Erased where
  type : Ty
  value : type.Carrier

namespace Erased

/-- The value without content. -/
def unit : Erased := ⟨.unit, ()⟩

instance : Inhabited Erased := ⟨unit⟩

/-- Recover the value at an expected type; another type is a defect. -/
def recover (expected : Ty) (erased : Erased) : Except Cause expected.Carrier :=
  if h : erased.type = expected then .ok (h ▸ erased.value)
  else .error (Cause.typeMismatch expected)

@[simp] theorem recover_mk (type : Ty) (value : type.Carrier) :
    recover type ⟨type, value⟩ = .ok value := by
  simp [recover]

theorem recover_eq_error (expected : Ty) (erased : Erased) (h : erased.type ≠ expected) :
    erased.recover expected = .error (Cause.typeMismatch expected) := by
  simp [recover, h]

theorem recover_eq_ok_iff (expected : Ty) (erased : Erased) (value : expected.Carrier) :
    erased.recover expected = .ok value ↔ erased = ⟨expected, value⟩ := by
  obtain ⟨type, content⟩ := erased
  constructor
  · intro h
    by_cases same : type = expected
    · subst same
      rw [recover_mk] at h
      rw [Except.ok.inj h]
    · rw [recover_eq_error _ _ same] at h
      cases h
  · intro h
    rw [h, recover_mk]

end Erased

namespace Exit

/-- Forget the type of the value. -/
def erase {type : Ty} (exit : Exit type.Carrier) : Exit Erased :=
  exit.map fun value => ⟨type, value⟩

/-- Recover the value of an erased exit; another type makes the exit a defect. -/
def recover (expected : Ty) (exit : Exit Erased) : Exit expected.Carrier :=
  exit.bind fun erased => .ofExcept (erased.recover expected)

@[simp] theorem recover_erase {type : Ty} (exit : Exit type.Carrier) :
    exit.erase.recover type = exit := by
  cases exit with
  | success value => simp [erase, recover, map, bind, ofExcept]
  | failure cause => rfl

end Exit

end Fibers
