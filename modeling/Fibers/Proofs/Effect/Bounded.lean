import Fibers.Proofs.Effect.Authored

/-!
# Effects that come to an end

A description is built from smaller ones, and only an effect that is run again and again comes back
to itself. A node is `Bounded` if neither it nor anything that its code may build does that, and if
its code is `Modest`: it may panic, read and change the world, complete callbacks, observe, poll and
interrupt fibers and report, but it asks the interpreter to run nothing, and it waits for nothing.

## Main result

Every combinator but `Effect.forever` makes bounded effects out of bounded effects and of modest
code that builds these. `Effect.repeated` does so for every number of runs.
-/

namespace Fibers

variable {σ : Type}

/-! ### User code -/

/-- User code that starts no fiber, runs no task and waits for nothing. -/
inductive Action.Modest {α : Type} : Code σ α → Prop where
  | done (result : α) : Modest (.done result)
  | panic (payload : Payload) : Modest (.panic payload)
  | get {next : σ → Code σ α} (rest : ∀ state, Modest (next state)) : Modest (.get next)
  | modify {change : σ → σ} {next : PUnit.{1} → Code σ α} (rest : Modest (next ⟨⟩)) :
      Modest (.modify change next)
  | complete {callback : CallbackId} {value : Erased} {next : PUnit.{1} → Code σ α}
      (rest : Modest (next ⟨⟩)) : Modest (.complete callback value next)
  | completeLater {delay : Nat} {callback : CallbackId} {value : Erased}
      {next : PUnit.{1} → Code σ α} (rest : Modest (next ⟨⟩)) :
      Modest (.completeLater delay callback value next)
  | observe {fiber : FiberId} {type : Ty} {callback : CallbackId} {next : PUnit.{1} → Code σ α}
      (rest : Modest (next ⟨⟩)) : Modest (.observe fiber type callback next)
  | poll {fiber : FiberId} {next : Option (Exit Erased) → Code σ α}
      (rest : ∀ exit, Modest (next exit)) : Modest (.poll fiber next)
  | interrupt {fiber : FiberId} {next : PUnit.{1} → Code σ α} (rest : Modest (next ⟨⟩)) :
      Modest (.interrupt fiber next)
  | threadName {next : String → Code σ α} (rest : ∀ name, Modest (next name)) :
      Modest (.threadName next)
  | clock {next : Nat → Code σ α} (rest : ∀ now, Modest (next now)) : Modest (.clock next)
  | report {event : Event} {next : PUnit.{1} → Code σ α} (rest : Modest (next ⟨⟩)) :
      Modest (.report event next)

namespace Action

variable {α β : Type} {code : Code σ α}

theorem Modest.bind {f : α → Code σ β} (h : code.Modest) (next : ∀ a, (f a).Modest) :
    (code.bind f).Modest := by
  induction h with
  | done result => exact next result
  | panic payload => exact .panic payload
  | get _ ih => exact .get ih
  | modify _ ih => exact .modify ih
  | complete _ ih => exact .complete ih
  | completeLater _ ih => exact .completeLater ih
  | observe _ ih => exact .observe ih
  | poll _ ih => exact .poll ih
  | interrupt _ ih => exact .interrupt ih
  | threadName _ ih => exact .threadName ih
  | clock _ ih => exact .clock ih
  | report _ ih => exact .report ih

/-- What modest code does after an answer is modest, too. -/
theorem Modest.answered {rest : Code σ α} {answer : Answer σ} (h : code.Modest)
    (next : code.answered answer = some rest) : rest.Modest := by
  cases h with
  | done | panic => cases next
  | get rest | poll rest | threadName rest | clock rest =>
    cases answer <;> cases next
    exact rest _
  | modify rest | complete rest | completeLater rest | observe rest | interrupt rest
  | report rest =>
    cases answer <;> cases next
    exact rest

/-- Modest code that ends with nothing but what has a property. -/
structure Builds (holds : α → Prop) (code : Code σ α) : Prop where
  modest : code.Modest
  yields : code.Yields holds

theorem builds_done {holds : α → Prop} {result : α} (good : holds result) :
    (Action.done result : Code σ α).Builds holds :=
  ⟨.done result, yields_done_iff.mpr good⟩

theorem Modest.builds (h : code.Modest) : code.Builds fun _ => True := ⟨h, code.yields_true⟩

theorem Builds.bind {holds : α → Prop} {holds' : β → Prop} {f : α → β} (h : code.Builds holds)
    (good : ∀ a, holds a → holds' (f a)) : (code.bind fun a => .done (f a)).Builds holds' where
  modest := h.modest.bind fun _ => .done _
  yields := h.yields.bind fun a own => yields_done_iff.mpr (good a own)

end Action

/-! ### Nodes -/

mutual

/-- A node whose code is modest, and that comes back to itself nowhere: neither in it nor in
anything that its code may build is an effect run again and again. -/
inductive Node.Bounded {σ : Type} : Node σ → Prop where
  | succeed (value : Erased) : Node.Bounded (.succeed value)
  | sync {thunk : Code σ Erased} (code : thunk.Modest) : Node.Bounded (.sync thunk)
  | flatMap {effect : Node σ} {continuation : Continuation σ} (effect_bounded : effect.Bounded)
      (continuation_bounded : continuation.Bounded) : Node.Bounded (.flatMap effect continuation)
  | async {register : CallbackId → Code σ Unit} (code : ∀ callback, (register callback).Modest) :
      Node.Bounded (.async register)
  | fork {effect : Node σ} (effect_bounded : effect.Bounded) : Node.Bounded (.fork effect)
  | fail {thunk : Code σ Cause} (code : thunk.Modest) : Node.Bounded (.fail thunk)
  | fold {effect : Node σ} {handler : Handler σ} (effect_bounded : effect.Bounded)
      (handler_bounded : handler.Bounded) : Node.Bounded (.fold effect handler)
  | shift (executor : ExecutorId) : Node.Bounded (.shift executor)
  | withStatus {effect : Node σ} (effect_bounded : effect.Bounded) (status : InterruptStatus) :
      Node.Bounded (.withStatus effect status)
  | provide {effect : Node σ} (effect_bounded : effect.Bounded) (environment : Erased) :
      Node.Bounded (.provide effect environment)
  | access {continuation : Continuation σ} (continuation_bounded : continuation.Bounded) :
      Node.Bounded (.access continuation)
  | restoreStatus (status : InterruptStatus) : Node.Bounded (.restoreStatus status)
  | leaveScope : Node.Bounded .leaveScope

/-- A continuation that builds bounded nodes out of values. -/
inductive Continuation.Bounded {σ : Type} : Continuation σ → Prop where
  | call {build : Erased → Code σ (Node σ)} (code : ∀ value, (build value).Modest)
      (builds : ∀ value next, (build value).Returns next → next.Bounded) :
      Continuation.Bounded (.call build)
  | constant {effect : Node σ} (effect_bounded : effect.Bounded) :
      Continuation.Bounded (.constant effect)

/-- A handler that builds bounded nodes out of both outcomes. -/
inductive Handler.Bounded {σ : Type} : Handler σ → Prop where
  | branches {onFailure : Cause → Code σ (Node σ)} {onSuccess : Continuation σ}
      (code : ∀ cause, (onFailure cause).Modest)
      (builds : ∀ cause next, (onFailure cause).Returns next → next.Bounded)
      (success_bounded : onSuccess.Bounded) : Handler.Bounded (.branches onFailure onSuccess)
  | finalizer {effect : Node σ} (effect_bounded : effect.Bounded) :
      Handler.Bounded (.finalizer effect)

end

/-- A frame that builds bounded nodes. -/
inductive Frame.Bounded : Frame σ → Prop where
  | apply {continuation : Continuation σ} (h : continuation.Bounded) :
      Bounded (.apply continuation)
  | fold {handler : Handler σ} (h : handler.Bounded) : Bounded (.fold handler)

theorem Node.bounded_failNow (cause : Cause) : (Node.failNow cause : Node σ).Bounded :=
  .fail (.done cause)

theorem Node.Bounded.andThen {first next : Node σ} (h : first.Bounded) (h' : next.Bounded) :
    (first.andThen next).Bounded :=
  .flatMap h (.constant h')

theorem Continuation.Bounded.applyTo {continuation : Continuation σ} (h : continuation.Bounded)
    (value : Erased) : (continuation.applyTo value).Builds Node.Bounded := by
  cases h with
  | call code builds => exact ⟨code value, builds value⟩
  | constant h => exact Action.builds_done h

theorem Handler.Bounded.resume {handler : Handler σ} (h : handler.Bounded) (value : Erased) :
    (handler.resume value).Builds Node.Bounded := by
  cases h with
  | branches _ _ success => exact success.applyTo value
  | finalizer h => exact Action.builds_done (h.andThen (.succeed value))

theorem Handler.Bounded.recover {handler : Handler σ} (h : handler.Bounded) (cause : Cause) :
    (handler.recover cause).Builds Node.Bounded := by
  cases h with
  | branches code builds _ => exact ⟨code cause, builds cause⟩
  | finalizer h => exact Action.builds_done (h.andThen (Node.bounded_failNow cause))

theorem Frame.Bounded.resume {frame : Frame σ} (h : frame.Bounded) (value : Erased) :
    (frame.resume value).Builds Node.Bounded := by
  cases h with
  | apply h => exact h.applyTo value
  | fold h => exact h.resume value

/-! ### Combinators -/

/-- An effect whose node is bounded. -/
def Effect.Bounded {A : Ty} (effect : Effect σ A) : Prop := effect.node.Bounded

namespace Effect

open Action

variable {A B C R : Ty}

theorem builds_node {code : Code σ (Effect σ A)} (h : code.Builds Bounded) :
    (code.bind fun effect => .done effect.node).Builds Node.Bounded :=
  h.bind fun _ bounded => bounded

theorem bounded_call {f : A.Carrier → Code σ (Effect σ B)} (h : ∀ a, (f a).Builds Bounded) :
    (Continuation.call (typed f)).Bounded := by
  have builds (value : Erased) : (typed f value).Builds Node.Bounded := by
    unfold typed
    split
    next a _ => exact builds_node (h a)
    next cause _ => exact builds_done (Node.bounded_failNow cause)
  exact .call (fun value => (builds value).modest) fun value => (builds value).yields

theorem bounded_succeedNow (value : A.Carrier) : (succeedNow value : Effect σ A).Bounded :=
  .succeed _

theorem bounded_unit : (unit : Effect σ .unit).Bounded := .succeed _

/-- Modest code that computes a value, as the code of an effect. -/
theorem builds_succeedNow {code : Code σ A.Carrier} (h : code.Modest) :
    (code.bind fun value => .done (succeedNow value : Effect σ A)).Builds Bounded :=
  h.builds.bind fun value _ => bounded_succeedNow value

theorem bounded_succeed {thunk : Code σ A.Carrier} (h : thunk.Modest) : (succeed thunk).Bounded :=
  .sync (h.bind fun _ => .done _)

theorem bounded_defer {build : Code σ (Effect σ A)} (h : build.Builds Bounded) :
    (defer build).Bounded :=
  .flatMap bounded_unit (.call (fun _ => (builds_node h).modest) fun _ => (builds_node h).yields)

theorem bounded_async {register : CallbackId → Code σ Unit}
    (h : ∀ callback, (register callback).Modest) : (async register : Effect σ A).Bounded :=
  .async h

theorem bounded_failCause {thunk : Code σ Cause} (h : thunk.Modest) :
    (failCause thunk : Effect σ A).Bounded := .fail h

theorem bounded_failCauseNow (cause : Cause) : (failCauseNow cause : Effect σ A).Bounded :=
  Node.bounded_failNow cause

theorem bounded_fail {thunk : Code σ String} (h : thunk.Modest) :
    (fail thunk : Effect σ A).Bounded :=
  .fail (h.bind fun _ => .done _)

theorem bounded_die (message : String) : (die message : Effect σ A).Bounded :=
  bounded_failCauseNow _

theorem bounded_fromExit (exit : Exit A.Carrier) : (fromExit exit : Effect σ A).Bounded := by
  cases exit with
  | success value => exact bounded_succeedNow value
  | failure cause => exact bounded_failCauseNow cause

theorem bounded_accessEffect {f : R.Carrier → Code σ (Effect σ A)}
    (h : ∀ environment, (f environment).Builds Bounded) : (accessEffect f).Bounded :=
  .access (bounded_call h)

theorem bounded_access {f : R.Carrier → Code σ A.Carrier}
    (h : ∀ environment, (f environment).Modest) : (access f).Bounded :=
  bounded_accessEffect fun environment => builds_succeedNow (h environment)

theorem bounded_environment : (environment : Effect σ A).Bounded :=
  bounded_accessEffect fun value => builds_done (bounded_succeedNow value)

theorem bounded_shift (executor : ExecutorId) : (shift executor : Effect σ .unit).Bounded :=
  .shift executor

theorem Bounded.flatMap {effect : Effect σ A} (h : effect.Bounded)
    {f : A.Carrier → Code σ (Effect σ B)} (h' : ∀ a, (f a).Builds Bounded) :
    (effect.flatMap f).Bounded :=
  Node.Bounded.flatMap h (bounded_call h')

theorem Bounded.map {effect : Effect σ A} (h : effect.Bounded) {f : A.Carrier → Code σ B.Carrier}
    (h' : ∀ a, (f a).Modest) : (effect.map f).Bounded :=
  h.flatMap fun a => builds_succeedNow (h' a)

theorem Bounded.asValue {effect : Effect σ A} (h : effect.Bounded) (value : B.Carrier) :
    (effect.asValue value).Bounded := h.map fun _ => .done value

theorem Bounded.asUnit {effect : Effect σ A} (h : effect.Bounded) : effect.asUnit.Bounded :=
  h.asValue _

theorem Bounded.zipWith {effect : Effect σ A} (h : effect.Bounded) {that : Effect σ B}
    (h' : that.Bounded) {f : A.Carrier → B.Carrier → Code σ C.Carrier}
    (modest : ∀ a b, (f a b).Modest) : (effect.zipWith that f).Bounded :=
  h.flatMap fun a => builds_done (h'.map (modest a))

theorem Bounded.zip {effect : Effect σ A} (h : effect.Bounded) {that : Effect σ B}
    (h' : that.Bounded) : (effect.zip that).Bounded := h.zipWith h' fun _ _ => .done _

theorem Bounded.zipLeft {effect : Effect σ A} (h : effect.Bounded) {that : Effect σ B}
    (h' : that.Bounded) : (effect.zipLeft that).Bounded := h.zipWith h' fun _ _ => .done _

theorem Bounded.zipRight {effect : Effect σ A} (h : effect.Bounded) {that : Effect σ B}
    (h' : that.Bounded) : (effect.zipRight that).Bounded :=
  h.flatMap fun _ => builds_done h'

theorem Bounded.repeated {effect : Effect σ A} (h : effect.Bounded) (n : Nat) :
    (effect.repeated n).Bounded := by
  induction n with
  | zero => exact bounded_unit
  | succ n ih => exact h.flatMap fun _ => builds_done ih

theorem Bounded.foldCauseEffect {effect : Effect σ A} (h : effect.Bounded)
    {onFailure : Cause → Code σ (Effect σ B)} {onSuccess : A.Carrier → Code σ (Effect σ B)}
    (failure : ∀ cause, (onFailure cause).Builds Bounded)
    (success : ∀ a, (onSuccess a).Builds Bounded) :
    (effect.foldCauseEffect onFailure onSuccess).Bounded :=
  Node.Bounded.fold h (.branches (fun cause => (builds_node (failure cause)).modest)
    (fun cause => (builds_node (failure cause)).yields) (bounded_call success))

theorem Bounded.foldEffect {effect : Effect σ A} (h : effect.Bounded)
    {onError : String → Code σ (Effect σ B)} {onSuccess : A.Carrier → Code σ (Effect σ B)}
    (failure : ∀ error, (onError error).Builds Bounded)
    (success : ∀ a, (onSuccess a).Builds Bounded) :
    (effect.foldEffect onError onSuccess).Bounded := by
  refine h.foldCauseEffect (fun cause => ?_) success
  split
  next error => exact failure error
  next => exact builds_done (bounded_failCauseNow _)

theorem Bounded.fold {effect : Effect σ A} (h : effect.Bounded)
    {onError : String → Code σ B.Carrier} {onSuccess : A.Carrier → Code σ B.Carrier}
    (failure : ∀ error, (onError error).Modest) (success : ∀ a, (onSuccess a).Modest) :
    (effect.fold onError onSuccess).Bounded :=
  h.foldEffect (fun error => builds_succeedNow (failure error)) fun a =>
    builds_succeedNow (success a)

theorem Bounded.catchAll {effect : Effect σ A} (h : effect.Bounded)
    {handler : String → Code σ (Effect σ A)} (h' : ∀ error, (handler error).Builds Bounded) :
    (effect.catchAll handler).Bounded :=
  h.foldEffect h' fun a => builds_done (bounded_succeedNow a)

theorem Bounded.ensuring {effect : Effect σ A} (h : effect.Bounded) {finalizer : Effect σ B}
    (h' : finalizer.Bounded) : (effect.ensuring finalizer).Bounded :=
  Node.Bounded.fold h (.finalizer h')

theorem Bounded.withInterruptStatus {effect : Effect σ A} (h : effect.Bounded)
    (status : InterruptStatus) : (effect.withInterruptStatus status).Bounded :=
  Node.Bounded.withStatus h status

theorem Bounded.uninterruptible {effect : Effect σ A} (h : effect.Bounded) :
    effect.uninterruptible.Bounded := h.withInterruptStatus _

theorem Bounded.interruptible {effect : Effect σ A} (h : effect.Bounded) :
    effect.interruptible.Bounded := h.withInterruptStatus _

theorem Bounded.provide {effect : Effect σ A} (h : effect.Bounded) (environment : R.Carrier) :
    (effect.provide environment).Bounded :=
  Node.Bounded.provide h _

theorem Bounded.fork {effect : Effect σ A} (h : effect.Bounded) : effect.fork.Bounded := by
  have forked : Effect.Bounded (⟨.fork effect.node⟩ : Effect σ .context) := Node.Bounded.fork h
  exact forked.map fun _ => .done _

theorem bounded_awaitExit (fiber : Fiber A) : (awaitExit fiber : Effect σ (.exit A)).Bounded :=
  bounded_async fun _ => .observe (.done ())

theorem bounded_join (fiber : Fiber A) : (join fiber : Effect σ A).Bounded :=
  (bounded_awaitExit fiber).flatMap fun exit => builds_done (bounded_fromExit exit)

theorem bounded_interrupt (fiber : Fiber A) : (interrupt fiber : Effect σ .unit).Bounded :=
  bounded_succeed (.interrupt (.done ()))

theorem Bounded.zipPar {effect : Effect σ A} (h : effect.Bounded) {that : Effect σ B}
    (h' : that.Bounded) : (effect.zipPar that).Bounded :=
  h.fork.flatMap fun _ => builds_done <| h'.flatMap fun _ => builds_done <|
    (bounded_join _).map fun _ => .done _

end Effect

end Fibers
