import Fibers.Script.Store

/-!
# Functions of a script

`Fn` and `Fn2` are the functions that a script may apply to one value or two. A function applied to
a value that it does not fit panics; so does a function that nobody knows.
-/

namespace Fibers.Script

/-- A function of one value. -/
inductive Fn where
  | identity
  | negate
  | complement
  | add (n : Int64)
  | multiply (n : Int64)
  | lessThan (n : Int64)
  /-- Compare with a value; without one, nothing is equal. -/
  | equals (value : Option Datum)
  | always (value : Datum)
  | render
  | length
  | append (suffix : String)
  | push (item : Datum)
  | nth (index : Nat)
  | log (line : String)
  | logValue (label : String)
  | panic (payload : Payload)
  | sequence (functions : List Fn)
  | mapExit (function : Fn)
  | exitReport
  | causeReport
  | fiberReport
  | unknown

/-- A function of two values. -/
inductive Fn2 where
  | pair
  | first
  | second
  | add
  | multiply
  | concat
  | push
  | panic (payload : Payload)
  | unknown

instance : Inhabited Fn := ⟨.unknown⟩

/-- The panic of a function applied to a value that it does not fit. -/
def badOperand {α : Type} : Routine α := Action.panicWith "bad operand"

/-- What can be asked of a fiber, as a list of answers. -/
def reportFiber (id : FiberId) : Routine Datum :=
  .poll id fun exit =>
    let exit := exit.map (Exit.recover .datum)
    .done <| .list
      [.int (Int64.ofNat id.number), .bool exit.isSome, Datum.ofOption .exit exit]

mutual

/-- Apply a function to a value. -/
def Fn.apply : Fn → Datum → Routine Datum
  | .identity, value => .done value
  | .negate, .int n => .done (.int (-n))
  | .complement, .bool b => .done (.bool !b)
  | .add n, .int m => .done (.int (m + n))
  | .multiply n, .int m => .done (.int (m * n))
  | .lessThan n, .int m => .done (.bool (m < n))
  | .equals (some other), value => .done (.bool (value.same other))
  | .equals none, _ => .done (.bool false)
  | .always value, _ => .done value
  | .render, value => .done (.text value.render)
  | .length, .text s => .done (.int (Int64.ofNat s.length))
  | .length, .list items => .done (.int (Int64.ofNat items.length))
  | .append suffix, .text s => .done (.text (s ++ suffix))
  | .push item, .list items => .done (.list (items ++ [item]))
  | .nth index, .list items =>
    match items[index]? with
    | some value => .done value
    | none => badOperand
  | .log line, value => (Routine.log line).bind fun _ => .done value
  | .logValue label, value => (Routine.log (label ++ value.render)).bind fun _ => .done value
  | .panic payload, _ => .panic payload
  | .sequence functions, value => Fn.applyAll functions value
  | .mapExit function, .exit (.success value) =>
    (Fn.apply function value).bind fun result => .done (.exit (.success result))
  | .mapExit _, .exit (.failure reason) => .done (.exit (.failure reason))
  | .exitReport, .exit exit => .done (Datum.exitReport exit)
  | .causeReport, .cause reason => .done (Datum.causeReport reason)
  | .fiberReport, .fiber id => reportFiber id
  | _, _ => badOperand

/-- Apply functions one after another. -/
def Fn.applyAll : List Fn → Datum → Routine Datum
  | [], value => .done value
  | function :: rest, value => (Fn.apply function value).bind fun result => Fn.applyAll rest result

end

/-- Apply a function to two values. -/
def Fn2.apply : Fn2 → Datum → Datum → Routine Datum
  | .pair, a, b => .done (.pair a b)
  | .first, a, _ => .done a
  | .second, _, b => .done b
  | .add, .int a, .int b => .done (.int (a + b))
  | .multiply, .int a, .int b => .done (.int (a * b))
  | .concat, .text a, .text b => .done (.text (a ++ b))
  | .concat, .list a, .list b => .done (.list (a ++ b))
  | .push, .list items, item => .done (.list (items ++ [item]))
  | .panic payload, _, _ => .panic payload
  | _, _, _ => badOperand

end Fibers.Script
