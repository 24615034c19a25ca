import Fibers.Proofs.Effect.Typing
import Fibers.Runner

/-!
# Combinators are well typed

An effect is well typed if what it describes hands on values of its type. Every constructor and
every combinator makes well typed effects out of well typed ones and out of functions that take
values to such effects; a runner that starts a well typed effect gets handles of its type.
-/

namespace Fibers

variable {σ : Type} {custody : Custody σ} {types types' : Typing} {A B C R : Ty}

/-- An effect that hands on values of its type. -/
def Effect.Typed (custody : Custody σ) (types : Typing) (effect : Effect σ A) : Prop :=
  effect.node.Typed custody types (.value A)

/-- What code builds is a well typed effect. -/
def Effect.Built (custody : Custody σ) (A : Ty) (types : Typing) (_ : Unit) (effect : Effect σ A) :
    Prop := effect.Typed custody types

/-- What code computes is a value whose handles are known. -/
def Ty.Computed (A : Ty) (types : Typing) (_ : Unit) (value : A.Carrier) : Prop :=
  types.Holds A value

theorem Ty.Computed.mono {i : Unit} {value : A.Carrier} (h : A.Computed types i value)
    (le : types ≤ types') : A.Computed types' i value := Typing.Holds.mono h le

namespace Effect

/-- A function that takes values to well typed effects. -/
def Prepares (custody : Custody σ) (types : Typing) (f : A.Carrier → Code σ (Effect σ B)) : Prop :=
  ∀ types' a, types ≤ types' → types'.Holds A a → (f a).Typed custody (Built custody B) types' ()

/-- A function that takes values to values. -/
def Transforms (custody : Custody σ) (types : Typing) (f : A.Carrier → Code σ B.Carrier) : Prop :=
  ∀ types' a, types ≤ types' → types'.Holds A a → (f a).Typed custody B.Computed types' ()

theorem Typed.mono {effect : Effect σ A} (h : effect.Typed custody types) (le : types ≤ types') :
    effect.Typed custody types' := Node.Typed.mono h le

theorem typed_node {code : Code σ (Effect σ A)}
    (h : code.Typed custody (Built custody A) types ()) :
    (code.bind fun effect => .done effect.node).Typed custody (Node.Typed custody) types
      (.value A) :=
  Action.Respects.bind h fun _ _ _ typed => .done typed

theorem typed_call {f : A.Carrier → Code σ (Effect σ B)} (h : Prepares custody types f) :
    (Continuation.call (typed f)).Typed custody types (.value A) (.value B) :=
  .call fun types' a le holds => typed_node (h types' a le holds)

/-! ### Constructors -/

theorem typed_succeedNow {value : A.Carrier} (holds : types.Holds A value) :
    (succeedNow value : Effect σ A).Typed custody types := .succeed (.value holds)

theorem typed_unit : (unit : Effect σ .unit).Typed custody types := Node.typed_unit

theorem typed_succeed {thunk : Code σ A.Carrier} (h : thunk.Typed custody A.Computed types ()) :
    (succeed thunk).Typed custody types :=
  .sync fun _ le => (h.later Ty.Computed.mono le).bind fun _ _ _ holds => .done (.value holds)

theorem typed_defer {build : Code σ (Effect σ A)}
    (h : build.Typed custody (Built custody A) types ()) : (defer build).Typed custody types :=
  .flatMap Node.typed_unit <| .ignore fun _ le => typed_node (h.later Typed.mono le)

/-- The registration gets a callback for values of the type. -/
theorem typed_async {register : CallbackId → Code σ Unit}
    (h : ∀ types' callback, types ≤ types' → types'.Callback callback A →
      (register callback).Typed custody Anything types' ()) :
    (async register : Effect σ A).Typed custody types := .async h

/-- User code completes a callback with a value of its type. -/
theorem typed_complete {callback : CallbackId} {value : A.Carrier}
    (own : types.Callback callback A) (holds : types.Holds A value) :
    (complete (σ := σ) callback value).Typed custody Anything types () :=
  .complete own (.value holds) (.done trivial)

theorem typed_failCause {thunk : Code σ Cause} (h : thunk.Typed custody Anything types ()) :
    (failCause thunk : Effect σ A).Typed custody types :=
  .fail fun _ le => h.later (fun _ _ => trivial) le

theorem typed_failCauseNow (cause : Cause) :
    (failCauseNow cause : Effect σ A).Typed custody types := Node.typed_failNow cause

theorem typed_fail {thunk : Code σ String} (h : thunk.Typed custody Anything types ()) :
    (fail thunk : Effect σ A).Typed custody types :=
  typed_failCause (Action.Respects.bind h fun _ _ _ _ => .done trivial)

theorem typed_die (message : String) : (die message : Effect σ A).Typed custody types :=
  typed_failCauseNow _

theorem typed_fromExit {exit : Exit A.Carrier} (holds : types.Holds (.exit A) exit) :
    (fromExit exit : Effect σ A).Typed custody types := by
  cases exit with
  | success value => exact typed_succeedNow holds
  | failure cause => exact typed_failCauseNow cause

theorem typed_accessEffect {f : R.Carrier → Code σ (Effect σ A)} (h : Prepares custody types f) :
    (accessEffect f).Typed custody types := .access (typed_call h)

theorem Transforms.prepares {f : A.Carrier → Code σ B.Carrier} (h : Transforms custody types f) :
    Prepares custody types fun a => (f a).bind fun b => .done (succeedNow b) :=
  fun types' a le holds => (h types' a le holds).bind fun _ _ _ holds =>
    .done (typed_succeedNow holds)

theorem typed_access {f : R.Carrier → Code σ A.Carrier} (h : Transforms custody types f) :
    (access f).Typed custody types := typed_accessEffect h.prepares

theorem typed_environment : (environment : Effect σ A).Typed custody types :=
  typed_accessEffect fun _ _ _ holds => .done (typed_succeedNow holds)

theorem typed_shift (executor : ExecutorId) :
    (shift executor : Effect σ .unit).Typed custody types := .shift executor

/-! ### Sequencing -/

variable {effect : Effect σ A} {that : Effect σ B}

theorem Typed.flatMap (h : effect.Typed custody types) {f : A.Carrier → Code σ (Effect σ B)}
    (h' : Prepares custody types f) : (effect.flatMap f).Typed custody types :=
  Node.Typed.flatMap h (typed_call h')

theorem Typed.map (h : effect.Typed custody types) {f : A.Carrier → Code σ B.Carrier}
    (h' : Transforms custody types f) : (effect.map f).Typed custody types := h.flatMap h'.prepares

theorem Typed.asValue (h : effect.Typed custody types) {value : B.Carrier}
    (holds : types.Holds B value) : (effect.asValue value).Typed custody types :=
  h.map fun _ _ le _ => .done (Typing.Holds.mono holds le)

theorem Typed.asUnit (h : effect.Typed custody types) : effect.asUnit.Typed custody types :=
  h.asValue trivial

theorem Typed.zipWith (h : effect.Typed custody types) (h' : that.Typed custody types)
    {f : A.Carrier → B.Carrier → Code σ C.Carrier}
    (combines : ∀ types' a b, types ≤ types' → types'.Holds A a → types'.Holds B b →
      (f a b).Typed custody C.Computed types' ()) : (effect.zipWith that f).Typed custody types :=
  h.flatMap fun _ a le left => .done <| (h'.mono le).map fun types'' b le' right =>
    combines types'' a b (Typing.le_trans le le') (Typing.Holds.mono left le') right

theorem Typed.zip (h : effect.Typed custody types) (h' : that.Typed custody types) :
    (effect.zip that).Typed custody types :=
  h.zipWith h' fun _ _ _ _ left right => .done ⟨left, right⟩

theorem Typed.zipLeft (h : effect.Typed custody types) (h' : that.Typed custody types) :
    (effect.zipLeft that).Typed custody types :=
  h.zipWith h' fun _ _ _ _ left _ => .done left

theorem Typed.zipRight (h : effect.Typed custody types) (h' : that.Typed custody types) :
    (effect.zipRight that).Typed custody types :=
  h.flatMap fun _ _ le _ => .done (h'.mono le)

theorem Typed.repeated (h : effect.Typed custody types) (n : Nat) :
    (effect.repeated n).Typed custody types := by
  induction n with
  | zero => exact typed_unit
  | succ n ih => exact h.flatMap fun _ _ le _ => .done (ih.mono le)

theorem Typed.forever (h : effect.Typed custody types) : effect.forever.Typed custody types :=
  Node.Typed.flatMap h (.again h)

/-! ### Failure handling, interruption and environments -/

theorem Typed.foldCauseEffect (h : effect.Typed custody types)
    {onFailure : Cause → Code σ (Effect σ B)} {onSuccess : A.Carrier → Code σ (Effect σ B)}
    (failure : ∀ types' cause, types ≤ types' →
      (onFailure cause).Typed custody (Built custody B) types' ())
    (success : Prepares custody types onSuccess) :
    (effect.foldCauseEffect onFailure onSuccess).Typed custody types :=
  Node.Typed.fold h <| .branches
    (fun types' cause le => typed_node (failure types' cause le)) (typed_call success)

theorem Typed.foldEffect (h : effect.Typed custody types)
    {onError : String → Code σ (Effect σ B)} {onSuccess : A.Carrier → Code σ (Effect σ B)}
    (failure : ∀ types' error, types ≤ types' →
      (onError error).Typed custody (Built custody B) types' ())
    (success : Prepares custody types onSuccess) :
    (effect.foldEffect onError onSuccess).Typed custody types := by
  refine h.foldCauseEffect (fun types' cause le => ?_) success
  -- Only expected errors come to the handler; other causes are raised again.
  split
  next error => exact failure types' error le
  next => exact .done (typed_failCauseNow _)

theorem Typed.fold (h : effect.Typed custody types) {onError : String → Code σ B.Carrier}
    {onSuccess : A.Carrier → Code σ B.Carrier}
    (failure : ∀ types' error, types ≤ types' → (onError error).Typed custody B.Computed types' ())
    (success : Transforms custody types onSuccess) :
    (effect.fold onError onSuccess).Typed custody types :=
  h.foldEffect (fun types' error le => (failure types' error le).bind fun _ _ _ holds =>
    .done (typed_succeedNow holds)) success.prepares

theorem Typed.catchAll (h : effect.Typed custody types) {handler : String → Code σ (Effect σ A)}
    (h' : ∀ types' error, types ≤ types' →
      (handler error).Typed custody (Built custody A) types' ()) :
    (effect.catchAll handler).Typed custody types :=
  h.foldEffect h' fun _ _ _ holds => .done (typed_succeedNow holds)

/-- The value of a finalizer may have any type. -/
theorem Typed.ensuring (h : effect.Typed custody types) (h' : that.Typed custody types) :
    (effect.ensuring that).Typed custody types := Node.Typed.fold h (.finalizer h')

theorem Typed.withInterruptStatus (h : effect.Typed custody types) (status : InterruptStatus) :
    (effect.withInterruptStatus status).Typed custody types := Node.Typed.withStatus h status

theorem Typed.uninterruptible (h : effect.Typed custody types) :
    effect.uninterruptible.Typed custody types := h.withInterruptStatus _

theorem Typed.interruptible (h : effect.Typed custody types) :
    effect.interruptible.Typed custody types := h.withInterruptStatus _

theorem Typed.provide (h : effect.Typed custody types) {environment : R.Carrier}
    (holds : types.Holds R environment) : (effect.provide environment).Typed custody types :=
  Node.Typed.provide h holds

/-! ### Fibers -/

/-- The raw identity of the child becomes a handle of the type of its effect. -/
theorem Typed.fork (h : effect.Typed custody types) : effect.fork.Typed custody types :=
  Node.Typed.flatMap (.fork h) <| .handle fun _ _ _ own => .done (typed_succeedNow own)

theorem typed_awaitExit {fiber : Fiber A} (own : types.Fiber fiber.id A) :
    (awaitExit fiber : Effect σ (.exit A)).Typed custody types :=
  typed_async fun _ _ le takes => .observe (own.mono le) takes (.done trivial)

theorem typed_join {fiber : Fiber A} (own : types.Fiber fiber.id A) :
    (join fiber : Effect σ A).Typed custody types :=
  (typed_awaitExit own).flatMap fun _ _ _ holds => .done (typed_fromExit holds)

theorem typed_interrupt (fiber : Fiber A) :
    (interrupt fiber : Effect σ .unit).Typed custody types :=
  typed_succeed (.interrupt (.done trivial))

theorem Typed.zipPar (h : effect.Typed custody types) (h' : that.Typed custody types) :
    (effect.zipPar that).Typed custody types := by
  refine h.fork.flatMap fun types₁ id le₁ own => .done ?_
  refine (h'.mono le₁).flatMap fun types₂ b le₂ right => .done ?_
  have joined : (join (⟨id⟩ : Fiber A) : Effect σ A).Typed custody types₂ :=
    typed_join (Typing.Fiber.mono own le₂)
  exact joined.map fun _ _ le₃ left => .done ⟨left, Typing.Holds.mono right le₃⟩

end Effect

/-- A poll shows an exit of the type of the handle. -/
theorem Fiber.typed_poll {fiber : Fiber A} (own : types.Fiber fiber.id A) :
    (fiber.poll : Code σ (Option (Exit A.Carrier))).Typed custody
      (fun types (_ : Unit) polled => ∀ exit, polled = some exit → types.Holds (.exit A) exit)
      types () := by
  refine .poll own fun types' outcome _ holds => .done ?_
  intro exit same
  obtain ⟨erased, rfl, rfl⟩ := Option.map_eq_some_iff.mp same
  exact (holds erased rfl).recover

/-! ### Runners -/

namespace Runner

variable {effect : Effect σ A} (runner : Runner)

/-- A runner hands out a handle of the type of the effect. -/
theorem starts_fork :
    (runner.fork effect).Starts custody
      (fun types (_ : Unit) (fiber : Fiber A) => types.Fiber fiber.id A) types () A effect.node :=
  .launch fun _ _ _ own => .done own

theorem starts_runAsync {callback : Exit A.Carrier → Code σ Unit}
    (h : ∀ types' exit, types ≤ types' → types'.Holds (.exit A) exit →
      (callback exit).Typed custody Anything types' ()) :
    (runner.runAsync effect callback).Starts custody
      (fun types (_ : Unit) (fiber : Fiber A) => types.Fiber fiber.id A) types () A effect.node :=
  .launchWith (.ofCode h) fun _ _ _ own => .done own

theorem starts_runSync :
    (runner.runSync effect).Starts custody (Ty.exit A).Computed types () A effect.node := by
  refine .submit fun types' mailbox _ own => .wait own fun types'' waited _ holds => ?_
  split
  next exit => exact .done (holds exit rfl).recover
  next => exact .done trivial

theorem starts_runSyncTimeout (timeout : Nat) :
    (runner.runSyncTimeout effect timeout).Starts custody
      (fun types (_ : Unit) result => ∀ exit, result = some exit → types.Holds (.exit A) exit)
      types () A effect.node := by
  refine .submit fun types' mailbox _ own => .clock fun now =>
    .wait own fun types'' waited _ holds => ?_
  cases waited with
  | timedOut => exact .report (.done nofun)
  | opened slot =>
    refine .done fun exit same => ?_
    obtain ⟨erased, rfl, rfl⟩ := Option.map_eq_some_iff.mp same
    exact (holds erased rfl).recover

end Runner

end Fibers
