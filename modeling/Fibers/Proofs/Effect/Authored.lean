import Fibers.Effect.Basic
import Fibers.Proofs.Machine.Answer

/-!
# Effects that are written with combinators

The two nodes that end a region are made by the interpreter alone. A node is `Authored` if neither
it nor anything that its code may build contains one of them.

## Main result

Every combinator makes authored effects out of authored effects, and of code that builds these.
-/

namespace Fibers

variable {σ : Type}

/-! ### Results of user code -/

namespace Action

variable {ν κ α β : Type}

/-- Whatever the code ends with has a property. -/
def Yields (code : Action ν κ σ α) (holds : α → Prop) : Prop :=
  ∀ result, code.Returns result → holds result

theorem yields_done_iff {result : α} {holds : α → Prop} :
    (Action.done result : Action ν κ σ α).Yields holds ↔ holds result := by
  constructor
  · exact fun h => h result (.done result)
  · rintro h other returns
    cases returns_done_iff.mp returns
    exact h

theorem Yields.answered {code rest : Action ν κ σ α} {answer : Answer σ} {holds : α → Prop}
    (h : code.Yields holds) (next : code.answered answer = some rest) : rest.Yields holds :=
  fun result returns => h result (.answered next returns)

theorem answered_bind {code : Action ν κ σ α} {f : α → Action ν κ σ β} {answer : Answer σ}
    {rest : Action ν κ σ β} (request : ∀ result, code ≠ .done result)
    (next : (code.bind f).answered answer = some rest) :
    ∃ rest', code.answered answer = some rest' ∧ rest = rest'.bind f := by
  cases code
  case done result => exact absurd rfl (request result)
  case panic => cases next
  all_goals
    cases answer <;> cases next
    exact ⟨_, rfl, rfl⟩

theorem Yields.bind {code : Action ν κ σ α} {f : α → Action ν κ σ β} {holds : α → Prop}
    {holds' : β → Prop} (h : code.Yields holds) (next : ∀ a, holds a → (f a).Yields holds') :
    (code.bind f).Yields holds' := by
  intro result returns
  generalize whole : code.bind f = bound at returns
  induction returns generalizing code with
  | done result =>
    cases code with
    | done a =>
      have yields := next a (yields_done_iff.mp h)
      rw [done_bind] at whole
      exact yields_done_iff.mp (whole ▸ yields)
    | _ => cases whole
  | @answered bound rest answer result answered returns ih =>
    subst whole
    by_cases ended : ∃ a, code = .done a
    · obtain ⟨a, rfl⟩ := ended
      exact next a (yields_done_iff.mp h) result (.answered answered returns)
    · obtain ⟨rest', own, rfl⟩ := answered_bind (not_exists.mp ended) answered
      exact ih (h.answered own) rfl

theorem yields_true (code : Action ν κ σ α) : code.Yields fun _ => True := fun _ _ => trivial

end Action

/-! ### Outcomes -/

/-- The effect that has a given outcome. -/
def Node.ofExit : Exit Erased → Node σ
  | .success value => .succeed value
  | .failure cause => .failNow cause

/-- The code that turns an outcome into the next effect. -/
def Handler.receive (exit : Exit Erased) (handler : Handler σ) : Code σ (Node σ) :=
  match exit with
  | .success value => handler.resume value
  | .failure cause => handler.recover cause

@[simp] theorem Handler.receive_finalizer (exit : Exit Erased) (effect : Node σ) :
    (Handler.finalizer effect).receive exit = .done (effect.andThen (.ofExit exit)) := by
  cases exit <;> rfl

/-! ### Nodes -/

mutual

/-- A node without the nodes that end regions, in it or in anything that its code may build. -/
inductive Node.Authored {σ : Type} : Node σ → Prop where
  | succeed (value : Erased) : Node.Authored (.succeed value)
  | sync (thunk : Code σ Erased) : Node.Authored (.sync thunk)
  | flatMap {effect : Node σ} {continuation : Continuation σ} (effect_authored : effect.Authored)
      (continuation_authored : continuation.Authored) :
      Node.Authored (.flatMap effect continuation)
  | async (register : CallbackId → Code σ Unit) : Node.Authored (.async register)
  | fork {effect : Node σ} (effect_authored : effect.Authored) : Node.Authored (.fork effect)
  | fail (thunk : Code σ Cause) : Node.Authored (.fail thunk)
  | fold {effect : Node σ} {handler : Handler σ} (effect_authored : effect.Authored)
      (handler_authored : handler.Authored) : Node.Authored (.fold effect handler)
  | shift (executor : ExecutorId) : Node.Authored (.shift executor)
  | withStatus {effect : Node σ} (effect_authored : effect.Authored) (status : InterruptStatus) :
      Node.Authored (.withStatus effect status)
  | provide {effect : Node σ} (effect_authored : effect.Authored) (environment : Erased) :
      Node.Authored (.provide effect environment)
  | access {continuation : Continuation σ} (continuation_authored : continuation.Authored) :
      Node.Authored (.access continuation)

/-- A continuation that builds authored nodes only. -/
inductive Continuation.Authored {σ : Type} : Continuation σ → Prop where
  | call {build : Erased → Code σ (Node σ)}
      (builds : ∀ value next, (build value).Returns next → next.Authored) :
      Continuation.Authored (.call build)
  | again {effect : Node σ} (effect_authored : effect.Authored) :
      Continuation.Authored (.again effect)
  | constant {effect : Node σ} (effect_authored : effect.Authored) :
      Continuation.Authored (.constant effect)

/-- A handler that builds authored nodes only. -/
inductive Handler.Authored {σ : Type} : Handler σ → Prop where
  | branches {onFailure : Cause → Code σ (Node σ)} {onSuccess : Continuation σ}
      (builds : ∀ cause next, (onFailure cause).Returns next → next.Authored)
      (success_authored : onSuccess.Authored) :
      Handler.Authored (.branches onFailure onSuccess)
  | finalizer {effect : Node σ} (effect_authored : effect.Authored) :
      Handler.Authored (.finalizer effect)

end

theorem Node.authored_failNow (cause : Cause) : (Node.failNow cause : Node σ).Authored :=
  .fail _

theorem Node.authored_ofExit (exit : Exit Erased) : (Node.ofExit exit : Node σ).Authored := by
  cases exit with
  | success value => exact .succeed value
  | failure cause => exact authored_failNow cause

theorem Node.Authored.andThen {first next : Node σ} (h : first.Authored) (h' : next.Authored) :
    (first.andThen next).Authored :=
  .flatMap h (.constant h')

theorem Continuation.repeated_authored {effect : Node σ} (h : effect.Authored) :
    (Continuation.repeated effect).Authored :=
  .flatMap h (.again h)

/-- Authored continuations build authored nodes. -/
theorem Continuation.Authored.applyTo {continuation : Continuation σ} (h : continuation.Authored)
    (value : Erased) : (continuation.applyTo value).Yields Node.Authored := by
  cases h with
  | call builds => exact builds value
  | again h => exact Action.yields_done_iff.mpr (repeated_authored h)
  | constant h => exact Action.yields_done_iff.mpr h

/-- Authored handlers build authored nodes. -/
theorem Handler.Authored.receive {handler : Handler σ} (h : handler.Authored)
    (exit : Exit Erased) : (handler.receive exit).Yields Node.Authored := by
  cases h with
  | branches builds success =>
    cases exit with
    | success value => exact success.applyTo value
    | failure cause => exact builds cause
  | finalizer h =>
    rw [Handler.receive_finalizer]
    exact Action.yields_done_iff.mpr (h.andThen (Node.authored_ofExit exit))

/-! ### Combinators -/

/-- An effect whose node is authored. -/
def Effect.Authored {A : Ty} (effect : Effect σ A) : Prop := effect.node.Authored

namespace Effect

variable {A B C R : Ty}

/-- A value of another type is a defect, so only the expected type matters. -/
theorem yields_typed {f : A.Carrier → Code σ (Effect σ B)} (h : ∀ a, (f a).Yields Authored)
    (value : Erased) : (typed f value).Yields Node.Authored := by
  unfold typed
  split
  next a _ => exact (h a).bind fun effect authored => Action.yields_done_iff.mpr authored
  next cause _ => exact Action.yields_done_iff.mpr (Node.authored_failNow cause)

/-- Code that ends with a known effect after some computation. -/
theorem yields_bind_done {α : Type} (code : Code σ α) {f : α → Effect σ A}
    (h : ∀ a, (f a).Authored) : (code.bind fun a => .done (f a)).Yields Authored :=
  code.yields_true.bind fun a _ => Action.yields_done_iff.mpr (h a)

theorem authored_succeedNow (value : A.Carrier) : (succeedNow value : Effect σ A).Authored :=
  .succeed _

theorem authored_unit : (unit : Effect σ .unit).Authored := .succeed _

theorem authored_succeed (thunk : Code σ A.Carrier) : (succeed thunk).Authored := .sync _

theorem authored_defer {build : Code σ (Effect σ A)} (h : build.Yields Authored) :
    (defer build).Authored :=
  .flatMap authored_unit <| .call fun _ =>
    h.bind fun _ authored => Action.yields_done_iff.mpr authored

theorem authored_async (register : CallbackId → Code σ Unit) :
    (async register : Effect σ A).Authored := .async _

theorem authored_failCause (thunk : Code σ Cause) : (failCause thunk : Effect σ A).Authored :=
  .fail _

theorem authored_failCauseNow (cause : Cause) : (failCauseNow cause : Effect σ A).Authored :=
  Node.authored_failNow cause

theorem authored_fail (thunk : Code σ String) : (fail thunk : Effect σ A).Authored := .fail _

theorem authored_die (message : String) : (die message : Effect σ A).Authored := .fail _

theorem authored_fromExit (exit : Exit A.Carrier) : (fromExit exit : Effect σ A).Authored := by
  cases exit with
  | success value => exact authored_succeedNow value
  | failure cause => exact authored_failCauseNow cause

theorem authored_accessEffect {f : R.Carrier → Code σ (Effect σ A)}
    (h : ∀ environment, (f environment).Yields Authored) : (accessEffect f).Authored :=
  .access (.call (yields_typed h))

theorem authored_access (f : R.Carrier → Code σ A.Carrier) : (access f).Authored :=
  authored_accessEffect fun environment => yields_bind_done (f environment) authored_succeedNow

theorem authored_shift (executor : ExecutorId) : (shift executor : Effect σ .unit).Authored :=
  .shift executor

theorem Authored.flatMap {effect : Effect σ A} (h : effect.Authored)
    {f : A.Carrier → Code σ (Effect σ B)} (h' : ∀ a, (f a).Yields Authored) :
    (effect.flatMap f).Authored :=
  Node.Authored.flatMap h (.call (yields_typed h'))

theorem Authored.map {effect : Effect σ A} (h : effect.Authored)
    (f : A.Carrier → Code σ B.Carrier) : (effect.map f).Authored :=
  h.flatMap fun a => yields_bind_done (f a) authored_succeedNow

theorem Authored.asValue {effect : Effect σ A} (h : effect.Authored) (value : B.Carrier) :
    (effect.asValue value).Authored := h.map _

theorem Authored.asUnit {effect : Effect σ A} (h : effect.Authored) : effect.asUnit.Authored :=
  h.asValue _

theorem Authored.zipWith {effect : Effect σ A} (h : effect.Authored) {that : Effect σ B}
    (h' : that.Authored) (f : A.Carrier → B.Carrier → Code σ C.Carrier) :
    (effect.zipWith that f).Authored :=
  h.flatMap fun a => Action.yields_done_iff.mpr (h'.map (f a))

theorem Authored.zip {effect : Effect σ A} (h : effect.Authored) {that : Effect σ B}
    (h' : that.Authored) : (effect.zip that).Authored := h.zipWith h' _

theorem Authored.zipLeft {effect : Effect σ A} (h : effect.Authored) {that : Effect σ B}
    (h' : that.Authored) : (effect.zipLeft that).Authored := h.zipWith h' _

theorem Authored.zipRight {effect : Effect σ A} (h : effect.Authored) {that : Effect σ B}
    (h' : that.Authored) : (effect.zipRight that).Authored :=
  h.flatMap fun _ => Action.yields_done_iff.mpr h'

theorem Authored.repeated {effect : Effect σ A} (h : effect.Authored) (n : Nat) :
    (effect.repeated n).Authored := by
  induction n with
  | zero => exact authored_unit
  | succ n ih => exact h.flatMap fun _ => Action.yields_done_iff.mpr ih

theorem Authored.forever {effect : Effect σ A} (h : effect.Authored) : effect.forever.Authored :=
  Continuation.repeated_authored h

theorem Authored.foldCauseEffect {effect : Effect σ A} (h : effect.Authored)
    {onFailure : Cause → Code σ (Effect σ B)} {onSuccess : A.Carrier → Code σ (Effect σ B)}
    (failure : ∀ cause, (onFailure cause).Yields Authored)
    (success : ∀ a, (onSuccess a).Yields Authored) :
    (effect.foldCauseEffect onFailure onSuccess).Authored := by
  refine Node.Authored.fold h (.branches (fun cause => ?_) (.call (yields_typed success)))
  exact (failure cause).bind fun _ authored => Action.yields_done_iff.mpr authored

theorem Authored.foldEffect {effect : Effect σ A} (h : effect.Authored)
    {onError : String → Code σ (Effect σ B)} {onSuccess : A.Carrier → Code σ (Effect σ B)}
    (failure : ∀ error, (onError error).Yields Authored)
    (success : ∀ a, (onSuccess a).Yields Authored) :
    (effect.foldEffect onError onSuccess).Authored := by
  refine h.foldCauseEffect (fun cause => ?_) success
  split
  next error => exact failure error
  next => exact Action.yields_done_iff.mpr (authored_failCauseNow _)

theorem Authored.fold {effect : Effect σ A} (h : effect.Authored)
    (onError : String → Code σ B.Carrier) (onSuccess : A.Carrier → Code σ B.Carrier) :
    (effect.fold onError onSuccess).Authored :=
  h.foldEffect (fun error => yields_bind_done (onError error) authored_succeedNow)
    fun a => yields_bind_done (onSuccess a) authored_succeedNow

theorem Authored.catchAll {effect : Effect σ A} (h : effect.Authored)
    {handler : String → Code σ (Effect σ A)} (h' : ∀ error, (handler error).Yields Authored) :
    (effect.catchAll handler).Authored :=
  h.foldEffect h' fun a => Action.yields_done_iff.mpr (authored_succeedNow a)

theorem Authored.ensuring {effect : Effect σ A} (h : effect.Authored) {finalizer : Effect σ B}
    (h' : finalizer.Authored) : (effect.ensuring finalizer).Authored :=
  Node.Authored.fold h (.finalizer h')

theorem Authored.withInterruptStatus {effect : Effect σ A} (h : effect.Authored)
    (status : InterruptStatus) : (effect.withInterruptStatus status).Authored :=
  Node.Authored.withStatus h status

theorem Authored.uninterruptible {effect : Effect σ A} (h : effect.Authored) :
    effect.uninterruptible.Authored := h.withInterruptStatus _

theorem Authored.interruptible {effect : Effect σ A} (h : effect.Authored) :
    effect.interruptible.Authored := h.withInterruptStatus _

theorem Authored.provide {effect : Effect σ A} (h : effect.Authored) (environment : R.Carrier) :
    (effect.provide environment).Authored :=
  Node.Authored.provide h _

theorem Authored.fork {effect : Effect σ A} (h : effect.Authored) : effect.fork.Authored :=
  Authored.map (Node.Authored.fork h) _

theorem authored_awaitExit (fiber : Fiber A) : (awaitExit fiber : Effect σ (.exit A)).Authored :=
  authored_async _

theorem authored_join (fiber : Fiber A) : (join fiber : Effect σ A).Authored :=
  (authored_awaitExit fiber).flatMap fun exit => Action.yields_done_iff.mpr (authored_fromExit exit)

theorem authored_interrupt (fiber : Fiber A) : (interrupt fiber : Effect σ .unit).Authored :=
  authored_succeed _

theorem Authored.zipPar {effect : Effect σ A} (h : effect.Authored) {that : Effect σ B}
    (h' : that.Authored) : (effect.zipPar that).Authored :=
  h.fork.flatMap fun _ => Action.yields_done_iff.mpr <|
    h'.flatMap fun _ => Action.yields_done_iff.mpr <|
      (authored_join _).map _

end Effect

end Fibers
