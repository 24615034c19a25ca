import Fibers.Cause
import Fibers.Ident

/-!
# Data

`Datum` is the one value type of effects written down as data: every effect that a script builds
produces a datum, and its functions map data to data. `Datum.render` is the text of a datum in logs.
-/

namespace Fibers

/-- A dynamically typed value. Pairs are lists of two. -/
inductive Datum where
  | unit
  | bool (value : Bool)
  | int (value : Int64)
  | text (value : String)
  | list (items : List Datum)
  | fiber (id : FiberId)
  | exit (outcome : Exit Datum)
  | cause (value : Cause)

namespace Datum

instance : Inhabited Datum := ⟨.unit⟩

mutual

/-- Structural equality. -/
def same : Datum → Datum → Bool
  | .unit, .unit => true
  | .bool a, .bool b => a == b
  | .int a, .int b => a == b
  | .text a, .text b => a == b
  | .list a, .list b => sameItems a b
  | .fiber a, .fiber b => decide (a = b)
  | .exit (.success a), .exit (.success b) => same a b
  | .exit (.failure a), .exit (.failure b) => decide (a = b)
  | .cause a, .cause b => decide (a = b)
  | _, _ => false

/-- Structural equality, item by item. -/
def sameItems : List Datum → List Datum → Bool
  | [], [] => true
  | a :: as, b :: bs => same a b && sameItems as bs
  | _, _ => false

end

mutual

/-- The text of a datum: a string is its own text, a list is bracketed, and a cause or the cause of
an exit is shown as its reader sees it. -/
def render : Datum → String
  | .unit => "()"
  | .bool value => if value then "true" else "false"
  | .int value => toString value.toInt
  | .text value => value
  | .list items => "[" ++ renderItems items ++ "]"
  | .fiber _ => "fiber"
  | .exit (.success value) => "ok: " ++ render value
  | .exit (.failure reason) => reason.render
  | .cause reason => reason.render

/-- The texts of the items of a list, separated by commas. -/
def renderItems : List Datum → String
  | [] => ""
  | [item] => render item
  | item :: rest => render item ++ ", " ++ renderItems rest

end

/-- A pair is a list of two. -/
def pair (a b : Datum) : Datum := .list [a, b]

/-- Something, or unit where there is nothing. -/
def ofOption {α : Type} (f : α → Datum) : Option α → Datum
  | some a => f a
  | none => .unit

/-- What can be asked of an exit, as a list of answers. -/
def exitReport (exit : Exit Datum) : Datum :=
  .list [.bool exit.isSuccess, .bool exit.isFailure, exit.value?.getD .unit,
    ofOption .cause exit.cause?]

/-- What can be asked of a cause, as a list of answers. -/
def causeReport (cause : Cause) : Datum :=
  .list [.bool cause.isFail, .bool cause.isDie, .bool cause.isInterrupt,
    ofOption .text cause.failure?, ofOption .text cause.defect?, .text cause.render]

end Datum

end Fibers
