import Fibers.Effect.Basic
import Mathlib.Data.Set.Basic

/-!
# Effects that keep to themselves

Handles on fibers spread through values, exits and the closures of user code. Code is `Confined` to
the handles that are known to it if it uses no others than these and those that it is given later
on, if it calls back into the interpreter for nothing but polls, interruptions and reports, and if
its registrations complete their own callback before they return, or panic. An effect is confined if
all of its code is, whatever values it receives and whatever it reads from the shared world; it may
fork, and await the fibers that it knows, but it moves to no other executors than those given.

## Main results

What is confined to some handles is confined to more (`Node.Confined.mono`), confined frames build
confined effects (`Handler.Confined.resume`, `Handler.Confined.recover`), and every combinator makes
confined effects out of confined ones.
-/

namespace Fibers

variable {σ : Type}

/-! ### Handles -/

namespace Datum

mutual

/-- The handles in a datum. -/
def handles : Datum → List FiberId
  | .fiber id => [id]
  | .list items => handlesOfItems items
  | .exit (.success value) => handles value
  | .exit (.failure _) => []
  | .unit | .bool _ | .int _ | .text _ | .cause _ => []

/-- The handles in the items of a list. -/
def handlesOfItems : List Datum → List FiberId
  | [] => []
  | item :: rest => handles item ++ handlesOfItems rest

end

end Datum

/-- The handles in a value. -/
def Ty.handles : (type : Ty) → type.Carrier → List FiberId
  | .datum, value => value.handles
  | .pair left right, (a, b) => left.handles a ++ right.handles b
  | .exit type, .success value => type.handles value
  | .exit _, .failure _ => []
  | .fiber _, id => [id]
  | .context, id => [id]
  | .unit, _ | .bool, _ | .int, _ | .word, _ | .text, _ | .ints, _ => []

/-- All handles in a value are known. -/
def Erased.Within (known : Set FiberId) (value : Erased) : Prop :=
  ∀ id ∈ value.type.handles value.value, id ∈ known

/-- All handles in the value of an exit are known. -/
def Exit.Within (known : Set FiberId) (exit : Exit Erased) : Prop :=
  ∀ value, exit = .success value → value.Within known

variable {known known' : Set FiberId}

theorem Erased.Within.mono {value : Erased} (h : value.Within known) (le : known ⊆ known') :
    value.Within known' := fun id mem => le (h id mem)

theorem Exit.Within.mono {exit : Exit Erased} (h : exit.Within known) (le : known ⊆ known') :
    exit.Within known' := fun value same => (h value same).mono le

theorem Exit.within_success {value : Erased} :
    (Exit.success value).Within known ↔ value.Within known :=
  ⟨fun h => h value rfl, fun h other same => by cases same; exact h⟩

theorem Exit.within_failure (cause : Cause) : (Exit.failure cause).Within known := nofun

theorem Erased.within_of_recover {A : Ty} {value : Erased} {a : A.Carrier}
    (h : value.Within known) (same : value.recover A = .ok a) :
    (⟨A, a⟩ : Erased).Within known :=
  (Erased.recover_eq_ok_iff A value a).mp same ▸ h

/-- An exit that is recovered at some type holds no more handles. -/
theorem Exit.Within.recover {exit : Exit Erased} (h : exit.Within known) (type : Ty) :
    (⟨.exit type, exit.recover type⟩ : Erased).Within known := by
  cases exit with
  | failure cause => exact fun id mem => absurd mem (List.not_mem_nil)
  | success value =>
    cases same : value.recover type with
    | error cause =>
      intro id mem
      simp [Exit.recover, Exit.bind, same, Exit.ofExcept, Ty.handles] at mem
    | ok a =>
      have within := Erased.within_of_recover (within_success.mp h) same
      intro id mem
      simp only [Exit.recover, Exit.bind, same, Exit.ofExcept, Ty.handles] at mem
      exact within id mem

/-! ### Code -/

/-- Code that keeps to the handles it knows and to the callback it owes, which it completes before
it ends; what it ends with has a property. -/
inductive Action.Confined {α : Type} (holds : Set FiberId → α → Prop) :
    Option CallbackId → Set FiberId → Code σ α → Prop where
  | done {known : Set FiberId} {result : α} (good : holds known result) :
      Confined holds none known (.done result)
  | panic {owed : Option CallbackId} {known : Set FiberId} (payload : Payload) :
      Confined holds owed known (.panic payload)
  | get {owed : Option CallbackId} {known : Set FiberId} {next : σ → Code σ α}
      (rest : ∀ state, Confined holds owed known (next state)) :
      Confined holds owed known (.get next)
  | modify {owed : Option CallbackId} {known : Set FiberId} {change : σ → σ}
      {next : PUnit.{1} → Code σ α} (rest : Confined holds owed known (next ⟨⟩)) :
      Confined holds owed known (.modify change next)
  | complete {callback : CallbackId} {known : Set FiberId} {value : Erased}
      {next : PUnit.{1} → Code σ α} (within : value.Within known)
      (rest : Confined holds none known (next ⟨⟩)) :
      Confined holds (some callback) known (.complete callback value next)
  /-- The exit of a fiber brings handles of its own. -/
  | poll {owed : Option CallbackId} {known : Set FiberId} {fiber : FiberId}
      {next : Option (Exit Erased) → Code σ α} (mem : fiber ∈ known)
      (running : Confined holds owed known (next none))
      (ended : ∀ exit known', known ⊆ known' → exit.Within known' →
        Confined holds owed known' (next (some exit))) :
      Confined holds owed known (.poll fiber next)
  | interrupt {owed : Option CallbackId} {known : Set FiberId} {fiber : FiberId}
      {next : PUnit.{1} → Code σ α} (mem : fiber ∈ known)
      (rest : Confined holds owed known (next ⟨⟩)) :
      Confined holds owed known (.interrupt fiber next)
  | threadName {owed : Option CallbackId} {known : Set FiberId} {next : String → Code σ α}
      (rest : ∀ name, Confined holds owed known (next name)) :
      Confined holds owed known (.threadName next)
  | clock {owed : Option CallbackId} {known : Set FiberId} {next : Nat → Code σ α}
      (rest : ∀ now, Confined holds owed known (next now)) :
      Confined holds owed known (.clock next)
  | report {owed : Option CallbackId} {known : Set FiberId} {event : Event}
      {next : PUnit.{1} → Code σ α} (rest : Confined holds owed known (next ⟨⟩)) :
      Confined holds owed known (.report event next)

namespace Action.Confined

variable {α β : Type} {holds : Set FiberId → α → Prop} {holds' : Set FiberId → β → Prop}
  {owed : Option CallbackId} {code : Code σ α}

theorem mono (h : code.Confined holds owed known)
    (grows : ∀ {known known' : Set FiberId} {result : α}, holds known result → known ⊆ known' →
      holds known' result)
    (le : known ⊆ known') : code.Confined holds owed known' := by
  induction h generalizing known' with
  | done good => exact .done (grows good le)
  | panic payload => exact .panic payload
  | get _ ih => exact .get fun state => ih state le
  | modify _ ih => exact .modify (ih le)
  | complete within _ ih => exact .complete (within.mono le) (ih le)
  | poll mem _ ended running _ =>
    exact .poll (le mem) (running le) fun exit known'' le' => ended exit known'' (le.trans le')
  | interrupt mem _ ih => exact .interrupt (le mem) (ih le)
  | threadName _ ih => exact .threadName fun name => ih name le
  | clock _ ih => exact .clock fun now => ih now le
  | report _ ih => exact .report (ih le)

theorem bind {f : α → Code σ β} (h : code.Confined holds owed known)
    (next : ∀ known' result, known ⊆ known' → holds known' result →
      (f result).Confined holds' none known') : (code.bind f).Confined holds' owed known := by
  induction h with
  | done good => exact next _ _ subset_rfl good
  | panic payload => exact .panic payload
  | get _ ih => exact .get fun state => ih state next
  | modify _ ih => exact .modify (ih next)
  | complete within _ ih => exact .complete within (ih next)
  | poll mem _ _ running ended =>
    exact .poll mem (running next) fun exit known' le within =>
      ended exit known' le within fun known'' result le' => next known'' result (le.trans le')
  | interrupt mem _ ih => exact .interrupt mem (ih next)
  | threadName _ ih => exact .threadName fun name => ih name next
  | clock _ ih => exact .clock fun now => ih now next
  | report _ ih => exact .report (ih next)

end Action.Confined

/-! ### Nodes -/

section Nodes

variable (inline : ExecutorId → Prop)

mutual

/-- A node whose code is confined, and that moves to some executors only. -/
inductive Node.Confined {σ : Type} (inline : ExecutorId → Prop) :
    Set FiberId → Node σ → Prop where
  | succeed {known : Set FiberId} {value : Erased} (within : value.Within known) :
      Node.Confined inline known (.succeed value)
  | sync {known : Set FiberId} {thunk : Code σ Erased}
      (code : thunk.Confined Erased.Within none known) : Node.Confined inline known (.sync thunk)
  | flatMap {known : Set FiberId} {effect : Node σ} {continuation : Continuation σ}
      (effect_confined : effect.Confined inline known)
      (continuation_confined : continuation.Confined inline known) :
      Node.Confined inline known (.flatMap effect continuation)
  /-- A registration completes its callback, or panics. -/
  | async {known : Set FiberId} {register : CallbackId → Code σ Unit}
      (code : ∀ callback, (register callback).Confined (fun _ _ => True) (some callback) known) :
      Node.Confined inline known (.async register)
  /-- Waiting for the exit of a fiber that is known. -/
  | await {known : Set FiberId} {target : FiberId} (type : Ty) (mem : target ∈ known) :
      Node.Confined inline known (.async fun callback => .observe target type callback .done)
  | fork {known : Set FiberId} {effect : Node σ} (effect_confined : effect.Confined inline known) :
      Node.Confined inline known (.fork effect)
  | fail {known : Set FiberId} {thunk : Code σ Cause}
      (code : thunk.Confined (fun _ _ => True) none known) :
      Node.Confined inline known (.fail thunk)
  | fold {known : Set FiberId} {effect : Node σ} {handler : Handler σ}
      (effect_confined : effect.Confined inline known)
      (handler_confined : handler.Confined inline known) :
      Node.Confined inline known (.fold effect handler)
  | shift {known : Set FiberId} {executor : ExecutorId} (target : inline executor) :
      Node.Confined inline known (.shift executor)
  | withStatus {known : Set FiberId} {effect : Node σ}
      (effect_confined : effect.Confined inline known) (status : InterruptStatus) :
      Node.Confined inline known (.withStatus effect status)
  | provide {known : Set FiberId} {effect : Node σ} {environment : Erased}
      (effect_confined : effect.Confined inline known) (within : environment.Within known) :
      Node.Confined inline known (.provide effect environment)
  | access {known : Set FiberId} {continuation : Continuation σ}
      (continuation_confined : continuation.Confined inline known) :
      Node.Confined inline known (.access continuation)
  | restoreStatus {known : Set FiberId} (status : InterruptStatus) :
      Node.Confined inline known (.restoreStatus status)
  | leaveScope {known : Set FiberId} : Node.Confined inline known .leaveScope

/-- A continuation that makes confined nodes out of values, whatever has become known by then. -/
inductive Continuation.Confined {σ : Type} (inline : ExecutorId → Prop) :
    Set FiberId → Continuation σ → Prop where
  | call {known : Set FiberId} {build : Erased → Code σ (Node σ)}
      (builds : ∀ known' value, known ⊆ known' → value.Within known' →
        (build value).Confined (Node.Confined inline) none known') :
      Continuation.Confined inline known (.call build)
  | again {known : Set FiberId} {effect : Node σ} (effect_confined : effect.Confined inline known) :
      Continuation.Confined inline known (.again effect)
  | constant {known : Set FiberId} {effect : Node σ}
      (effect_confined : effect.Confined inline known) :
      Continuation.Confined inline known (.constant effect)

/-- A handler that makes confined nodes out of both outcomes. -/
inductive Handler.Confined {σ : Type} (inline : ExecutorId → Prop) :
    Set FiberId → Handler σ → Prop where
  | branches {known : Set FiberId} {onFailure : Cause → Code σ (Node σ)}
      {onSuccess : Continuation σ}
      (builds : ∀ known' cause, known ⊆ known' →
        (onFailure cause).Confined (Node.Confined inline) none known')
      (success_confined : onSuccess.Confined inline known) :
      Handler.Confined inline known (.branches onFailure onSuccess)
  | finalizer {known : Set FiberId} {effect : Node σ}
      (effect_confined : effect.Confined inline known) :
      Handler.Confined inline known (.finalizer effect)

end

/-- A frame that makes confined nodes. -/
inductive Frame.Confined (known : Set FiberId) : Frame σ → Prop where
  | apply {continuation : Continuation σ} (h : continuation.Confined inline known) :
      Frame.Confined known (.apply continuation)
  | fold {handler : Handler σ} (h : handler.Confined inline known) :
      Frame.Confined known (.fold handler)

variable {inline}

mutual

/-- A node that is confined to some handles is confined to more. -/
theorem Node.Confined.mono {known' : Set FiberId} : {known : Set FiberId} → {node : Node σ} →
    node.Confined inline known → known ⊆ known' → node.Confined inline known'
  | _, _, .succeed within, le => .succeed (within.mono le)
  | _, _, .sync code, le => .sync (code.mono (fun h le => h.mono le) le)
  | _, _, .flatMap effect continuation, le => .flatMap (effect.mono le) (continuation.mono le)
  | _, _, .async code, le => .async fun callback => (code callback).mono (fun h _ => h) le
  | _, _, .await type mem, le => .await type (le mem)
  | _, _, .fork effect, le => .fork (effect.mono le)
  | _, _, .fail code, le => .fail (code.mono (fun h _ => h) le)
  | _, _, .fold effect handler, le => .fold (effect.mono le) (handler.mono le)
  | _, _, .shift target, _ => .shift target
  | _, _, .withStatus effect status, le => .withStatus (effect.mono le) status
  | _, _, .provide effect within, le => .provide (effect.mono le) (within.mono le)
  | _, _, .access continuation, le => .access (continuation.mono le)
  | _, _, .restoreStatus status, _ => .restoreStatus status
  | _, _, .leaveScope, _ => .leaveScope

/-- A continuation that is confined to some handles is confined to more. -/
theorem Continuation.Confined.mono {known' : Set FiberId} : {known : Set FiberId} →
    {continuation : Continuation σ} → continuation.Confined inline known → known ⊆ known' →
      continuation.Confined inline known'
  | _, _, .call builds, le => .call fun known'' value le' => builds known'' value (le.trans le')
  | _, _, .again effect, le => .again (effect.mono le)
  | _, _, .constant effect, le => .constant (effect.mono le)

/-- A handler that is confined to some handles is confined to more. -/
theorem Handler.Confined.mono {known' : Set FiberId} : {known : Set FiberId} →
    {handler : Handler σ} → handler.Confined inline known → known ⊆ known' →
      handler.Confined inline known'
  | _, _, .branches builds success, le =>
    .branches (fun known'' cause le' => builds known'' cause (le.trans le')) (success.mono le)
  | _, _, .finalizer effect, le => .finalizer (effect.mono le)

end

theorem Frame.Confined.mono {frame : Frame σ} (h : frame.Confined inline known)
    (le : known ⊆ known') : frame.Confined inline known' := by
  cases h with
  | apply h => exact .apply (h.mono le)
  | fold h => exact .fold (h.mono le)

theorem Node.confined_failNow (cause : Cause) :
    (Node.failNow cause : Node σ).Confined inline known :=
  .fail (.done trivial)

theorem Node.Confined.andThen {first next : Node σ} (h : first.Confined inline known)
    (h' : next.Confined inline known) : (first.andThen next).Confined inline known :=
  .flatMap h (.constant h')

/-- Confined continuations build confined nodes. -/
theorem Continuation.Confined.applyTo {continuation : Continuation σ}
    (h : continuation.Confined inline known) {value : Erased} (within : value.Within known) :
    (continuation.applyTo value).Confined (Node.Confined inline) none known := by
  cases h with
  | call builds => exact builds known value subset_rfl within
  | again h => exact .done (.flatMap h (.again h))
  | constant h => exact .done h

/-- Confined handlers build confined nodes out of values. -/
theorem Handler.Confined.resume {handler : Handler σ} (h : handler.Confined inline known)
    {value : Erased} (within : value.Within known) :
    (handler.resume value).Confined (Node.Confined inline) none known := by
  cases h with
  | branches _ success => exact success.applyTo within
  | finalizer h => exact .done (h.andThen (.succeed within))

/-- Confined handlers build confined nodes out of causes. -/
theorem Handler.Confined.recover {handler : Handler σ} (h : handler.Confined inline known)
    (cause : Cause) : (handler.recover cause).Confined (Node.Confined inline) none known := by
  cases h with
  | branches builds _ => exact builds known cause subset_rfl
  | finalizer h => exact .done (h.andThen (Node.confined_failNow cause))

theorem Frame.Confined.resume {frame : Frame σ} (h : frame.Confined inline known)
    {value : Erased} (within : value.Within known) :
    (frame.resume value).Confined (Node.Confined inline) none known := by
  cases h with
  | apply h => exact h.applyTo within
  | fold h => exact h.resume within

end Nodes

/-! ### Combinators -/

/-- An effect whose node is confined. -/
def Effect.Confined {A : Ty} (inline : ExecutorId → Prop) (known : Set FiberId)
    (effect : Effect σ A) : Prop := effect.node.Confined inline known

/-- A typed value whose handles are known. -/
abbrev Ty.Within (A : Ty) (known : Set FiberId) (a : A.Carrier) : Prop :=
  (⟨A, a⟩ : Erased).Within known

namespace Effect

variable {A B C R : Ty} {inline : ExecutorId → Prop}

/-- A function that makes confined effects, whatever is known by then. -/
def Builds (inline : ExecutorId → Prop) (known : Set FiberId)
    (f : A.Carrier → Code σ (Effect σ B)) : Prop :=
  ∀ known' a, known ⊆ known' → A.Within known' a →
    (f a).Confined (Effect.Confined inline) none known'

/-- A function that computes a value. -/
def Computes (known : Set FiberId) (f : A.Carrier → Code σ B.Carrier) : Prop :=
  ∀ known' a, known ⊆ known' → A.Within known' a → (f a).Confined B.Within none known'

theorem confined_node {code : Code σ (Effect σ A)} {owed : Option CallbackId}
    (h : code.Confined (Effect.Confined inline) owed known) :
    (code.bind fun effect => .done effect.node).Confined (Node.Confined inline) owed known :=
  h.bind fun _ _ _ confined => .done confined

theorem confined_call {f : A.Carrier → Code σ (Effect σ B)} (h : Builds inline known f) :
    (Continuation.call (typed f)).Confined inline known := by
  refine .call fun known' value le within => ?_
  unfold typed
  split
  next a same => exact confined_node (h known' a le (Erased.within_of_recover within same))
  next cause _ => exact .done (Node.confined_failNow cause)

theorem confined_succeedNow {value : A.Carrier} (within : A.Within known value) :
    (succeedNow value : Effect σ A).Confined inline known := .succeed within

theorem confined_unit : (unit : Effect σ .unit).Confined inline known := .succeed nofun

theorem confined_succeed {thunk : Code σ A.Carrier} (h : thunk.Confined A.Within none known) :
    (succeed thunk).Confined inline known :=
  .sync (h.bind fun _ _ _ within => .done within)

theorem confined_async {register : CallbackId → Code σ Unit}
    (h : ∀ callback, (register callback).Confined (fun _ _ => True) (some callback) known) :
    (async register : Effect σ A).Confined inline known := .async h

theorem confined_failCause {thunk : Code σ Cause}
    (h : thunk.Confined (fun _ _ => True) none known) :
    (failCause thunk : Effect σ A).Confined inline known := .fail h

theorem confined_failCauseNow (cause : Cause) :
    (failCauseNow cause : Effect σ A).Confined inline known := Node.confined_failNow cause

theorem confined_fromExit {exit : Exit A.Carrier} (within : (Ty.exit A).Within known exit) :
    (fromExit exit : Effect σ A).Confined inline known := by
  cases exit with
  | success value => exact confined_succeedNow within
  | failure cause => exact confined_failCauseNow cause

theorem confined_shift {executor : ExecutorId} (target : inline executor) :
    (shift executor : Effect σ .unit).Confined inline known := .shift target

theorem confined_accessEffect {f : R.Carrier → Code σ (Effect σ A)} (h : Builds inline known f) :
    (accessEffect f).Confined inline known := .access (confined_call h)

theorem Confined.flatMap {effect : Effect σ A} (h : effect.Confined inline known)
    {f : A.Carrier → Code σ (Effect σ B)} (h' : Builds inline known f) :
    (effect.flatMap f).Confined inline known := Node.Confined.flatMap h (confined_call h')

theorem Computes.builds {f : A.Carrier → Code σ B.Carrier} (h : Computes known f) :
    Builds inline known fun a => (f a).bind fun b => .done (succeedNow b) :=
  fun known' a le within => (h known' a le within).bind fun _ _ _ within =>
    .done (confined_succeedNow within)

theorem Confined.map {effect : Effect σ A} (h : effect.Confined inline known)
    {f : A.Carrier → Code σ B.Carrier} (h' : Computes known f) :
    (effect.map f).Confined inline known := h.flatMap h'.builds

theorem Confined.zipRight {effect : Effect σ A} (h : effect.Confined inline known)
    {that : Effect σ B} (h' : that.Confined inline known) :
    (effect.zipRight that).Confined inline known :=
  h.flatMap fun _ _ le _ => .done (Node.Confined.mono h' le)

theorem Confined.forever {effect : Effect σ A} (h : effect.Confined inline known) :
    effect.forever.Confined inline known := Node.Confined.flatMap h (.again h)

theorem Confined.foldCauseEffect {effect : Effect σ A} (h : effect.Confined inline known)
    {onFailure : Cause → Code σ (Effect σ B)} {onSuccess : A.Carrier → Code σ (Effect σ B)}
    (failure : ∀ known' cause, known ⊆ known' →
      (onFailure cause).Confined (Effect.Confined inline) none known')
    (success : Builds inline known onSuccess) :
    (effect.foldCauseEffect onFailure onSuccess).Confined inline known :=
  Node.Confined.fold h <| .branches
    (fun known' cause le => confined_node (failure known' cause le)) (confined_call success)

theorem Confined.ensuring {effect : Effect σ A} (h : effect.Confined inline known)
    {finalizer : Effect σ B} (h' : finalizer.Confined inline known) :
    (effect.ensuring finalizer).Confined inline known := Node.Confined.fold h (.finalizer h')

theorem Confined.withInterruptStatus {effect : Effect σ A} (h : effect.Confined inline known)
    (status : InterruptStatus) : (effect.withInterruptStatus status).Confined inline known :=
  Node.Confined.withStatus h status

theorem Confined.provide {effect : Effect σ A} (h : effect.Confined inline known)
    {environment : R.Carrier} (within : R.Within known environment) :
    (effect.provide environment).Confined inline known := Node.Confined.provide h within

/-- The handle on a new fiber is known to the one that forks it. -/
theorem Confined.fork {effect : Effect σ A} (h : effect.Confined inline known) :
    effect.fork.Confined inline known :=
  Confined.map (A := .context) (Node.Confined.fork h) fun _ _ _ within => .done within

theorem confined_awaitExit {fiber : Fiber A} (mem : fiber.id ∈ known) :
    (awaitExit fiber : Effect σ (.exit A)).Confined inline known := Node.Confined.await A mem

theorem confined_join {fiber : Fiber A} (mem : fiber.id ∈ known) :
    (join fiber : Effect σ A).Confined inline known :=
  (confined_awaitExit mem).flatMap fun _ _ _ within => .done (confined_fromExit within)

theorem confined_interrupt {fiber : Fiber A} (mem : fiber.id ∈ known) :
    (interrupt fiber : Effect σ .unit).Confined inline known :=
  confined_succeed (.interrupt mem (.done nofun))

theorem Confined.zipPar {effect : Effect σ A} (h : effect.Confined inline known)
    {that : Effect σ B} (h' : that.Confined inline known) :
    (effect.zipPar that).Confined inline known := by
  refine h.fork.flatMap fun known₁ id le₁ handle => .done ?_
  refine Confined.flatMap (Node.Confined.mono h' le₁) fun known₂ b le₂ left => .done ?_
  have mem : id ∈ known₂ := le₂ (handle id List.mem_cons_self)
  have joined : (join (⟨id⟩ : Fiber A) : Effect σ A).Confined inline known₂ := confined_join mem
  refine joined.map fun known₃ a le₃ right => .done ?_
  exact fun other there => (List.mem_append.mp there).elim (right other) (left.mono le₃ other)

end Effect

/-- The exit that a poll shows brings no more handles than are known. -/
theorem Fiber.confined_poll {A : Ty} {fiber : Fiber A} (mem : fiber.id ∈ known) :
    (fiber.poll : Code σ (Option (Exit A.Carrier))).Confined
      (fun known polled => ∀ exit, polled = some exit → (Ty.exit A).Within known exit) none
      known := by
  refine .poll mem (.done nofun) fun exit known' _ within => .done ?_
  rintro _ ⟨⟩
  exact within.recover A

end Fibers
