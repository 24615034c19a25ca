import Fibers.Effect.Basic
import Fibers.Runner
import Fibers.Script.Function

/-!
# Effects written down

An `Expr` is an effect as data, and `Expr.build` makes the effect from the combinators of the
library. Direct children are built with their parent; the body of a continuation is built when the
continuation runs, in the scope of its variables. How many nodes a form has is part of its meaning,
because interruption is polled between steps.
-/

namespace Fibers.Script

/-- The types of environments. -/
inductive EnvType where
  | int
  | word
  | bool
  | text
  | unit
  | ints
  deriving DecidableEq, Repr

namespace EnvType

/-- The type of value that the environment has. -/
@[reducible] def type : EnvType → Ty
  | .int => .int
  | .word => .word
  | .bool => .bool
  | .text => .text
  | .unit => .unit
  | .ints => .ints

/-- An environment as a value of the script. -/
def toDatum : (kind : EnvType) → kind.type.Carrier → Datum
  | .int, n => .int n
  | .word, n => .int (Int64.ofNat n.toNat)
  | .bool, b => .bool b
  | .text, s => .text s
  | .unit, _ => .unit
  | .ints, ns => .list (ns.map .int)

/-- The integers of a list, if it holds nothing else. -/
def ints? : List Datum → Option (List Int64)
  | [] => some []
  | .int n :: rest => (ints? rest).map (n :: ·)
  | _ => none

/-- A value of the script as an environment. -/
def ofDatum? : EnvType → Datum → Option Erased
  | .int, .int n => some ⟨.int, n⟩
  | .word, .int n =>
    if 0 ≤ n ∧ n < 4294967296 then some ⟨.word, UInt32.ofNat n.toNatClampNeg⟩ else none
  | .bool, .bool b => some ⟨.bool, b⟩
  | .text, .text s => some ⟨.text, s⟩
  | .unit, .unit => some ⟨.unit, ()⟩
  | .ints, .list items => (ints? items).map fun ns => ⟨.ints, ns⟩
  | _, _ => none

end EnvType

/-- What the registration of an async effect does, one deed after another. -/
inductive Deed where
  /-- Keep the callback under a name. -/
  | keep (name : String)
  /-- Complete the callback. -/
  | complete (value : Datum)
  /-- Have a helper thread complete the callback after some milliseconds. -/
  | completeLater (value : Datum) (delay : Nat)
  /-- Drop the callback. -/
  | drop
  | log (line : String)
  /-- Complete the oldest callback kept under a name. -/
  | completeKept (name : String) (value : Datum)
  | panic (payload : Payload)
  /-- Log the text of the callback. -/
  | describe
  deriving Inhabited

/-- Do the deeds of a registration. The callback is used up by the first deed that needs it; such
deeds do nothing afterwards. -/
def Deed.perform : List Deed → Option CallbackId → Routine Unit
  | [], _ => .done ()
  | .keep name :: rest, some callback =>
    (Routine.keep name callback).bind fun _ => perform rest none
  | .complete value :: rest, some callback =>
    .complete callback ⟨.datum, value⟩ fun _ => perform rest none
  | .completeLater value delay :: rest, some callback =>
    .completeLater delay callback ⟨.datum, value⟩ fun _ => perform rest none
  | .drop :: rest, _ => perform rest none
  | .log line :: rest, callback => (Routine.log line).bind fun _ => perform rest callback
  | .completeKept name value :: rest, callback =>
    (Routine.completeKept name value).bind fun _ => perform rest callback
  | .panic payload :: _, _ => .panic payload
  | .describe :: rest, some callback =>
    (Routine.log "Callback").bind fun _ => perform rest (some callback)
  | _ :: rest, none => perform rest none

/-- An effect as data. -/
inductive Expr where
  | now (value : Datum)
  | unit
  | sync (value : Datum) (function : Fn)
  | log (line : String) (value : Datum)
  | tick (name : String)
  | defer (line : Option String) (body : Expr)
  | fail (error : String)
  | failTick (name : String)
  | failPanic (payload : Payload)
  | failCause (cause : Cause)
  | failCauseNow (cause : Cause)
  | die (message : String)
  | fromExit (exit : Exit Datum)
  | environment (kind : EnvType)
  | access (kind : EnvType) (function : Fn)
  | accessEffect (kind : EnvType) (name : String) (body : Expr)
  | async (deeds : List Deed)
  | shift (executor : String)
  | variable (name : String)
  | nest (count : Nat) (template inner : Expr)
  /-- The effect that a template is wrapped around. -/
  | hole
  | branch (condition onTrue onFalse : Expr)
  | call (procedure : String) (argument : Expr)
  | store (slot : String) (effect : Expr)
  | load (slot : String)
  | completeKept (name : String) (value : Datum)
  | drain (executor : String) (limit : Nat)
  | kill (slot : String)
  | runSync (executor : String) (effect : Expr)
  | start (slot : String) (executor : String) (effect : Expr)
  | threadName
  | map (effect : Expr) (function : Fn)
  | asValue (effect : Expr) (value : Datum)
  | asUnit (effect : Expr)
  | flatMap (effect : Expr) (name : String) (body : Expr)
  | zip (left right : Expr)
  | zipLeft (left right : Expr)
  | zipRight (left right : Expr)
  | zipWith (left right : Expr) (function : Fn2)
  | zipPar (left right : Expr)
  | repeated (effect : Expr) (count : Nat)
  | forever (effect : Expr)
  | fold (effect : Expr) (onError onSuccess : Fn)
  | foldEffect (effect : Expr) (errorName : String) (onError : Expr) (valueName : String)
      (onSuccess : Expr)
  | catchAll (effect : Expr) (errorName : String) (onError : Expr)
  | foldCause (effect : Expr) (causeName : String) (onFailure : Expr) (valueName : String)
      (onSuccess : Expr)
  | raise (effect : Expr)
  | ensuring (effect finalizer : Expr)
  | withStatus (effect : Expr) (status : InterruptStatus)
  | provide (effect : Expr) (kind : EnvType) (value : Datum)
  | fork (effect : Expr)
  | join (effect : Expr)
  | awaitExit (effect : Expr)
  | interrupt (effect : Expr)
  | poll (effect : Expr)
  deriving Inhabited

/-- The effects that expressions describe: all of them produce data. -/
abbrev DataEffect : Type := Effect Store .datum

/-- What is bound where an expression is built. -/
structure Scope where
  vars : List (String × Datum) := []
  /-- The effect that a template is being wrapped around. -/
  hole : Option DataEffect := none

/-- Bind one more variable. -/
def Scope.bind (scope : Scope) (name : String) (value : Datum) : Scope :=
  { scope with vars := (name, value) :: scope.vars }

/-- What expressions refer to by name. -/
structure Names where
  executor : String → ExecutorId
  procedure : String → Datum → Routine DataEffect

/-- The panic of code that expects a fiber. -/
def notAFiber {α : Type} : Routine α := Action.panicWith "not a fiber"

/-- The effect that a value asks for, if it is a fiber. -/
def withFiber {α : Type} (value : Datum) (f : Fiber .datum → Routine α) : Routine α :=
  match value with
  | .fiber id => f ⟨id⟩
  | _ => notAFiber

/-- The executor on which scripts interrupt fibers and wait for them: a runner that runs everything
at once. -/
def immediately : Runner := ⟨⟨0⟩⟩

open Effect in
/-- The effect that an expression describes. -/
def Expr.build (names : Names) : Expr → Scope → DataEffect
  | .now value, _ => succeedNow value
  | .unit, _ => Effect.unit.map fun _ => .done .unit
  | .sync value function, _ => succeed (function.apply value)
  | .log line value, _ => succeed ((Routine.log line).bind fun _ => .done value)
  | .tick name, _ => succeed ((Routine.tick name).bind fun n => .done (.int (Int64.ofNat n)))
  | .defer line body, scope =>
    Effect.defer (A := .datum) <|
      match line with
      | some line => (Routine.log line).bind fun _ => .done (body.build names scope)
      | none => .done (body.build names scope)
  | .fail error, _ => Effect.fail (.done error)
  | .failTick name, _ =>
    Effect.fail ((Routine.tick name).bind fun n => .done (name ++ "#" ++ toString n))
  | .failPanic payload, _ => Effect.failCause (.panic payload)
  | .failCause cause, _ => Effect.failCause (.done cause)
  | .failCauseNow cause, _ => Effect.failCauseNow cause
  | .die message, _ => Effect.die message
  | .fromExit exit, _ => Effect.fromExit (A := .datum) exit
  | .environment kind, _ =>
    (Effect.environment (A := kind.type)).map fun value => .done (kind.toDatum value)
  | .access kind function, _ =>
    Effect.access (R := kind.type) fun value => function.apply (kind.toDatum value)
  | .accessEffect kind name body, scope =>
    Effect.accessEffect (R := kind.type) fun value =>
      .done (body.build names (scope.bind name (kind.toDatum value)))
  | .async deeds, _ => Effect.async fun callback => Deed.perform deeds (some callback)
  | .shift executor, _ => (Effect.shift (names.executor executor)).map fun _ => .done .unit
  | .variable name, scope =>
    match scope.vars.lookup name with
    | some value => succeedNow value
    | none => Effect.die ("unbound variable " ++ name)
  | .nest count template inner, scope =>
    count.repeat (fun effect => template.build names { scope with hole := some effect })
      (inner.build names scope)
  | .hole, scope => scope.hole.getD (Effect.die "unbound hole")
  | .branch condition onTrue onFalse, scope =>
    (condition.build names scope).flatMap fun
      | .bool true => .done (onTrue.build names scope)
      | .bool false => .done (onFalse.build names scope)
      | _ => badOperand
  | .call procedure argument, scope =>
    (argument.build names scope).flatMap fun value => names.procedure procedure value
  | .store slot effect, scope =>
    (effect.build names scope).map fun value =>
      (Routine.put slot value).bind fun _ => .done value
  | .load slot, _ =>
    succeed <| .get fun store =>
      match store.slots.lookup slot with
      | some value => .done value
      | none => Action.panicWith ("empty slot " ++ slot)
  | .completeKept name value, _ =>
    succeed ((Routine.completeKept name value).bind fun found => .done (.bool found))
  | .drain executor limit, _ =>
    succeed ((Routine.drain (names.executor executor) false limit 0).bind fun n =>
      .done (.int (Int64.ofNat n)))
  | .kill slot, _ =>
    succeed <| .get fun store =>
      match store.fiberIn? slot with
      | some id =>
        (immediately.runSync (Effect.interrupt (A := .datum) ⟨id⟩)).bind fun _ => .done .unit
      | none => notAFiber
  | .runSync executor effect, scope =>
    let effect := effect.build names scope
    succeed ((Runner.runSync ⟨names.executor executor⟩ effect).bind fun exit => .done (.exit exit))
  | .start slot executor effect, scope =>
    let effect := effect.build names scope
    succeed ((Runner.fork ⟨names.executor executor⟩ effect).bind fun fiber =>
      (Routine.put slot (.fiber fiber.id)).bind fun _ => .done (.fiber fiber.id))
  | .threadName, _ => succeed (.threadName fun name => .done (.text name))
  | .map effect function, scope => (effect.build names scope).map fun value => function.apply value
  | .asValue effect value, scope => (effect.build names scope).asValue (B := .datum) value
  | .asUnit effect, scope => (effect.build names scope).asUnit.map fun _ => .done .unit
  | .flatMap effect name body, scope =>
    (effect.build names scope).flatMap fun value =>
      .done (body.build names (scope.bind name value))
  | .zip left right, scope =>
    ((left.build names scope).zip (right.build names scope)).map fun (a, b) => .done (.pair a b)
  | .zipLeft left right, scope => (left.build names scope).zipLeft (right.build names scope)
  | .zipRight left right, scope => (left.build names scope).zipRight (right.build names scope)
  | .zipWith left right function, scope =>
    (left.build names scope).zipWith (right.build names scope) fun a b => function.apply a b
  | .zipPar left right, scope =>
    ((left.build names scope).zipPar (right.build names scope)).map fun (a, b) =>
      .done (.pair a b)
  | .repeated effect count, scope =>
    ((effect.build names scope).repeated count).map fun _ => .done .unit
  | .forever effect, scope => (effect.build names scope).forever
  | .fold effect onError onSuccess, scope =>
    (effect.build names scope).fold (fun error => onError.apply (.text error)) fun value =>
      onSuccess.apply value
  | .foldEffect effect errorName onError valueName onSuccess, scope =>
    (effect.build names scope).foldEffect
      (fun error => .done (onError.build names (scope.bind errorName (.text error))))
      fun value => .done (onSuccess.build names (scope.bind valueName value))
  | .catchAll effect errorName onError, scope =>
    (effect.build names scope).catchAll fun error =>
      .done (onError.build names (scope.bind errorName (.text error)))
  | .foldCause effect causeName onFailure valueName onSuccess, scope =>
    (effect.build names scope).foldCauseEffect
      (fun cause => .done (onFailure.build names (scope.bind causeName (.cause cause))))
      fun value => .done (onSuccess.build names (scope.bind valueName value))
  | .raise effect, scope =>
    (effect.build names scope).flatMap fun
      | .cause cause => .done (Effect.failCauseNow cause)
      | _ => badOperand
  | .ensuring effect finalizer, scope =>
    (effect.build names scope).ensuring (finalizer.build names scope)
  | .withStatus effect status, scope => (effect.build names scope).withInterruptStatus status
  | .provide effect kind value, scope =>
    match kind.ofDatum? value with
    | some given => (effect.build names scope).provide (R := given.type) given.value
    | none => effect.build names scope
  | .fork effect, scope => (effect.build names scope).fork.map fun id => .done (.fiber id)
  | .join effect, scope =>
    (effect.build names scope).flatMap fun value =>
      withFiber value fun fiber => .done (Effect.join fiber)
  | .awaitExit effect, scope =>
    (effect.build names scope).flatMap fun value =>
      withFiber value fun fiber =>
        .done ((Effect.awaitExit fiber).map fun exit => .done (.exit exit))
  | .interrupt effect, scope =>
    (effect.build names scope).flatMap fun value =>
      withFiber value fun fiber => .done ((Effect.interrupt fiber).map fun _ => .done .unit)
  | .poll effect, scope =>
    (effect.build names scope).map fun value =>
      withFiber value fun fiber => fiber.poll.bind fun exit =>
        .done (Datum.ofOption .exit exit)

end Fibers.Script
