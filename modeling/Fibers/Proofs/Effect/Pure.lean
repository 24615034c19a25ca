import Fibers.Proofs.Strand.Evaluation

/-!
# Pure effects

What user code comes to is `Certain` if it does not depend on what the code is told. A node is
`Pure` if this holds of all its code, if it forks no fiber, and if every callback that it hands out
receives a value that is known beforehand.

## Main results

Every combinator that forks nothing makes pure effects out of pure ones and of code that is certain
to build these. `Means` is what pure effects come to, and `Means.unique` says that this is one
thing.
-/

namespace Fibers

variable {σ : Type}

/-! ### Code -/

namespace Action

variable {α β : Type}

/-- What the code comes to, whatever it is told. -/
inductive Certain : Code σ α → Except Payload α → Prop where
  | done (result : α) : Certain (.done result) (.ok result)
  | panic (payload : Payload) : Certain (.panic payload) (.error payload)
  | asks {code : Code σ α} {result : Except Payload α}
      (told : ∃ answer rest, code.answered answer = some rest)
      (certain : ∀ answer rest, code.answered answer = some rest → Certain rest result) :
      Certain code result

theorem Certain.unique {code : Code σ α} {result other : Except Payload α}
    (h : code.Certain result) (h' : code.Certain other) : result = other := by
  induction h with
  | done => cases h' with
    | done => rfl
    | asks told => obtain ⟨_, _, next⟩ := told; cases next
  | panic => cases h' with
    | panic => rfl
    | asks told => obtain ⟨_, _, next⟩ := told; cases next
  | asks told _ ih =>
    obtain ⟨answer, rest, next⟩ := told
    cases h' with
    | done | panic => cases next
    | asks _ certain => exact ih answer rest next (certain answer rest next)

/-- Code that completes a callback and ends. -/
theorem certain_complete (callback : CallbackId) (value : Erased) :
    (.complete callback value .done : Code σ Unit).Certain (.ok ()) := by
  refine .asks ⟨.nothing, _, rfl⟩ fun answer rest next => ?_
  cases answer <;> cases next
  exact .done ()

/-- The first request of a program is that of the code that it begins with. -/
theorem Certain.asks_bind {code : Code σ α} {f : α → Code σ β} {result : Except Payload β}
    (told : ∃ answer rest, code.answered answer = some rest)
    (certain : ∀ answer rest, code.answered answer = some rest → (rest.bind f).Certain result) :
    (code.bind f).Certain result := by
  have request : ∀ result, code ≠ .done result := by
    rintro result rfl
    obtain ⟨_, _, next⟩ := told
    cases next
  refine .asks ?_ fun answer rest next => ?_
  · obtain ⟨answer, rest, next⟩ := told
    refine ⟨answer, rest.bind f, ?_⟩
    cases code <;> cases answer <;> cases next <;> rfl
  · obtain ⟨rest', own, rfl⟩ := answered_bind request next
    exact certain answer rest' own

/-- Code goes on with what other code is certain to come to. -/
theorem Certain.bind {code : Code σ α} {a : α} {f : α → Code σ β} {result : Except Payload β}
    (h : code.Certain (.ok a)) (h' : (f a).Certain result) : (code.bind f).Certain result := by
  generalize ended : Except.ok a = whole at h
  induction h with
  | done => cases ended; exact h'
  | panic => cases ended
  | asks told _ ih => exact .asks_bind told fun answer rest next => ih answer rest next ended

theorem Certain.bind_panic {code : Code σ α} {payload : Payload} (f : α → Code σ β)
    (h : code.Certain (.error payload)) : (code.bind f).Certain (.error payload) := by
  generalize ended : Except.error payload = whole at h
  induction h with
  | done => cases ended
  | panic => cases ended; exact .panic payload
  | asks told _ ih => exact .asks_bind told fun answer rest next => ih answer rest next ended

end Action

/-- Code that nobody refuses anything comes to what it is certain to come to. -/
theorem Computes.eq_of_certain {α : Type} {calling : Bool} {code : Code σ α}
    {inputs : List (Input σ)} {whole result : Except Payload α}
    (h : Computes calling code inputs whole) (certain : code.Certain result)
    (granted : ∀ payload, .refused payload ∉ inputs) : whole = result := by
  induction h with
  | done value => exact (Action.Certain.done value).unique certain
  | panic payload => exact (Action.Certain.panic payload).unique certain
  | answered next _ ih =>
    cases certain with
    | done | panic => cases next
    | asks _ certain =>
      exact ih (certain _ _ next) fun payload mem => granted payload (List.mem_cons_of_mem _ mem)
  | refused => exact absurd List.mem_cons_self (granted _)

/-! ### Nodes -/

/-- The values that callbacks receive, by the registrations that hand them out. -/
abbrev Given (σ : Type) : Type := (CallbackId → Code σ Unit) → Option Erased

mutual

/-- A node that comes to the same whatever happens elsewhere: its code is certain, it forks
nothing, and its callbacks receive given values. -/
inductive Node.Pure {σ : Type} (given : Given σ) : Node σ → Prop where
  | succeed (value : Erased) : Node.Pure given (.succeed value)
  | sync {thunk : Code σ Erased} {result : Except Payload Erased} (certain : thunk.Certain result) :
      Node.Pure given (.sync thunk)
  | flatMap {effect : Node σ} {continuation : Continuation σ} (effect_pure : effect.Pure given)
      (continuation_pure : continuation.Pure given) :
      Node.Pure given (.flatMap effect continuation)
  | async {register : CallbackId → Code σ Unit} {value : Erased}
      (known : given register = some value)
      (certain : ∀ callback, (register callback).Certain (.ok ())) :
      Node.Pure given (.async register)
  | asyncPanicked {register : CallbackId → Code σ Unit} {payload : Payload}
      (certain : ∀ callback, (register callback).Certain (.error payload)) :
      Node.Pure given (.async register)
  | fail {thunk : Code σ Cause} {result : Except Payload Cause} (certain : thunk.Certain result) :
      Node.Pure given (.fail thunk)
  | fold {effect : Node σ} {handler : Handler σ} (effect_pure : effect.Pure given)
      (handler_pure : handler.Pure given) : Node.Pure given (.fold effect handler)
  | shift (executor : ExecutorId) : Node.Pure given (.shift executor)
  | withStatus {effect : Node σ} (effect_pure : effect.Pure given) (status : InterruptStatus) :
      Node.Pure given (.withStatus effect status)
  | provide {effect : Node σ} (effect_pure : effect.Pure given) (environment : Erased) :
      Node.Pure given (.provide effect environment)
  | access {continuation : Continuation σ} (continuation_pure : continuation.Pure given) :
      Node.Pure given (.access continuation)

/-- A continuation that is certain to build pure nodes. -/
inductive Continuation.Pure {σ : Type} (given : Given σ) : Continuation σ → Prop where
  | call {build : Erased → Code σ (Node σ)} (built : Erased → Except Payload (Node σ))
      (certain : ∀ value, (build value).Certain (built value))
      (builds : ∀ value next, built value = .ok next → next.Pure given) :
      Continuation.Pure given (.call build)
  | again {effect : Node σ} (effect_pure : effect.Pure given) :
      Continuation.Pure given (.again effect)
  | constant {effect : Node σ} (effect_pure : effect.Pure given) :
      Continuation.Pure given (.constant effect)

/-- A handler that is certain to build pure nodes. -/
inductive Handler.Pure {σ : Type} (given : Given σ) : Handler σ → Prop where
  | branches {onFailure : Cause → Code σ (Node σ)} {onSuccess : Continuation σ}
      (built : Cause → Except Payload (Node σ))
      (certain : ∀ cause, (onFailure cause).Certain (built cause))
      (builds : ∀ cause next, built cause = .ok next → next.Pure given)
      (success_pure : onSuccess.Pure given) : Handler.Pure given (.branches onFailure onSuccess)
  | finalizer {effect : Node σ} (effect_pure : effect.Pure given) :
      Handler.Pure given (.finalizer effect)

end

/-- Code is certain to build a pure node, or to panic. -/
def Node.BuiltPure (given : Given σ) (code : Code σ (Node σ)) : Prop :=
  ∃ built, code.Certain built ∧ ∀ next, built = .ok next → next.Pure given

variable {given : Given σ}

theorem Node.pure_failNow (cause : Cause) : (Node.failNow cause : Node σ).Pure given :=
  .fail (.done cause)

theorem Node.pure_ofExit (exit : Exit Erased) : (Node.ofExit exit : Node σ).Pure given := by
  cases exit with
  | success value => exact .succeed value
  | failure cause => exact pure_failNow cause

theorem Node.pure_ofBuilt {built : Except Payload (Node σ)}
    (h : ∀ next, built = .ok next → next.Pure given) : (Node.ofBuilt built).Pure given := by
  cases built with
  | ok next => exact h next rfl
  | error payload => exact pure_failNow _

theorem Node.built_done {next : Node σ} (h : next.Pure given) : Node.BuiltPure given (.done next) :=
  ⟨.ok next, .done next, fun _ same => Except.ok.inj same ▸ h⟩

/-- Pure continuations build pure nodes. -/
theorem Continuation.Pure.applyTo {continuation : Continuation σ} (h : continuation.Pure given)
    (value : Erased) : Node.BuiltPure given (continuation.applyTo value) := by
  cases h with
  | call built certain builds => exact ⟨built value, certain value, builds value⟩
  | again h => exact Node.built_done (.flatMap h (.again h))
  | constant h => exact Node.built_done h

/-- Pure handlers build pure nodes. -/
theorem Handler.Pure.receive {handler : Handler σ} (h : handler.Pure given) (exit : Exit Erased) :
    Node.BuiltPure given (handler.receive exit) := by
  cases h with
  | branches built certain builds success =>
    cases exit with
    | success value => exact success.applyTo value
    | failure cause => exact ⟨built cause, certain cause, builds cause⟩
  | finalizer h =>
    rw [Handler.receive_finalizer]
    exact Node.built_done (.flatMap h (.constant (Node.pure_ofExit exit)))

/-! ### Combinators -/

/-- An effect whose node is pure. -/
def Effect.Pure {A : Ty} (given : Given σ) (effect : Effect σ A) : Prop := effect.node.Pure given

namespace Effect

variable {A B C R : Ty}

/-- Code is certain to build a pure effect, or to panic. -/
def BuiltPure (given : Given σ) (code : Code σ (Effect σ A)) : Prop :=
  ∃ built, code.Certain built ∧ ∀ effect, built = .ok effect → effect.Pure given

theorem built_done {effect : Effect σ A} (h : effect.Pure given) : BuiltPure given (.done effect) :=
  ⟨.ok effect, .done effect, fun _ same => Except.ok.inj same ▸ h⟩

/-- Code that computes a value, or panics, and then builds a pure effect. -/
theorem built_bind {α : Type} {code : Code σ α} {f : α → Effect σ A}
    (h : ∃ result, code.Certain result) (h' : ∀ a, (f a).Pure given) :
    BuiltPure given (code.bind fun a => .done (f a)) := by
  obtain ⟨result, certain⟩ := h
  cases result with
  | ok a =>
    exact ⟨.ok (f a), certain.bind (.done _), fun _ same => Except.ok.inj same ▸ h' a⟩
  | error payload => exact ⟨.error payload, certain.bind_panic _, fun _ => nofun⟩

theorem BuiltPure.node {code : Code σ (Effect σ A)} (h : BuiltPure given code) :
    Node.BuiltPure given (code.bind fun effect => .done effect.node) := by
  obtain ⟨built, certain, pure⟩ := h
  cases built with
  | ok effect =>
    exact ⟨.ok effect.node, certain.bind (.done _), fun _ same =>
      Except.ok.inj same ▸ pure effect rfl⟩
  | error payload => exact ⟨.error payload, certain.bind_panic _, fun _ => nofun⟩

/-- A value of another type is a defect, so only the expected type matters. -/
theorem pure_typed {f : A.Carrier → Code σ (Effect σ B)} (h : ∀ a, BuiltPure given (f a)) :
    (Continuation.call (typed f)).Pure given := by
  have built : ∀ value, Node.BuiltPure given (typed f value) := by
    intro value
    unfold typed
    split
    next a _ => exact (h a).node
    next cause _ => exact Node.built_done (Node.pure_failNow cause)
  choose result certain builds using built
  exact .call result certain builds

theorem pure_succeedNow (value : A.Carrier) : (succeedNow value : Effect σ A).Pure given :=
  .succeed _

theorem pure_unit : (unit : Effect σ .unit).Pure given := .succeed _

theorem pure_succeed {thunk : Code σ A.Carrier} {result : Except Payload A.Carrier}
    (h : thunk.Certain result) : (succeed thunk).Pure given := by
  cases result with
  | ok a => exact .sync (h.bind (.done _))
  | error payload => exact .sync (h.bind_panic _)

theorem pure_defer {build : Code σ (Effect σ A)} (h : BuiltPure given build) :
    (defer build).Pure given := by
  obtain ⟨built, certain, builds⟩ := h.node
  exact .flatMap pure_unit (.call (fun _ => built) (fun _ => certain) fun _ => builds)

/-- The callback receives a given value. -/
theorem pure_async {register : CallbackId → Code σ Unit} {value : Erased}
    (known : given register = some value)
    (certain : ∀ callback, (register callback).Certain (.ok ())) :
    (async register : Effect σ A).Pure given := .async known certain

theorem pure_failCause {thunk : Code σ Cause} {result : Except Payload Cause}
    (h : thunk.Certain result) : (failCause thunk : Effect σ A).Pure given := .fail h

theorem pure_failCauseNow (cause : Cause) : (failCauseNow cause : Effect σ A).Pure given :=
  Node.pure_failNow cause

theorem pure_fail {thunk : Code σ String} {result : Except Payload String}
    (h : thunk.Certain result) : (fail thunk : Effect σ A).Pure given := by
  cases result with
  | ok error => exact pure_failCause (h.bind (.done _))
  | error payload => exact pure_failCause (h.bind_panic _)

theorem pure_die (message : String) : (die message : Effect σ A).Pure given :=
  pure_failCauseNow _

theorem pure_fromExit (exit : Exit A.Carrier) : (fromExit exit : Effect σ A).Pure given := by
  cases exit with
  | success value => exact pure_succeedNow value
  | failure cause => exact pure_failCauseNow cause

theorem pure_accessEffect {f : R.Carrier → Code σ (Effect σ A)}
    (h : ∀ environment, BuiltPure given (f environment)) : (accessEffect f).Pure given :=
  .access (pure_typed h)

theorem pure_access {f : R.Carrier → Code σ A.Carrier}
    (h : ∀ environment, ∃ result, (f environment).Certain result) : (access f).Pure given :=
  pure_accessEffect fun environment => built_bind (h environment) pure_succeedNow

theorem pure_environment : (environment : Effect σ A).Pure given :=
  pure_accessEffect fun value => built_done (pure_succeedNow value)

theorem pure_shift (executor : ExecutorId) : (shift executor : Effect σ .unit).Pure given :=
  .shift executor

theorem Pure.flatMap {effect : Effect σ A} (h : effect.Pure given)
    {f : A.Carrier → Code σ (Effect σ B)} (h' : ∀ a, BuiltPure given (f a)) :
    (effect.flatMap f).Pure given := Node.Pure.flatMap h (pure_typed h')

theorem Pure.map {effect : Effect σ A} (h : effect.Pure given) {f : A.Carrier → Code σ B.Carrier}
    (h' : ∀ a, ∃ result, (f a).Certain result) : (effect.map f).Pure given :=
  h.flatMap fun a => built_bind (h' a) pure_succeedNow

theorem Pure.asValue {effect : Effect σ A} (h : effect.Pure given) (value : B.Carrier) :
    (effect.asValue value).Pure given := h.map fun _ => ⟨_, .done value⟩

theorem Pure.zipWith {effect : Effect σ A} (h : effect.Pure given) {that : Effect σ B}
    (h' : that.Pure given) {f : A.Carrier → B.Carrier → Code σ C.Carrier}
    (combines : ∀ a b, ∃ result, (f a b).Certain result) :
    (effect.zipWith that f).Pure given :=
  h.flatMap fun a => built_done (h'.map (combines a))

theorem Pure.zip {effect : Effect σ A} (h : effect.Pure given) {that : Effect σ B}
    (h' : that.Pure given) : (effect.zip that).Pure given :=
  h.zipWith h' fun _ _ => ⟨_, .done _⟩

theorem Pure.foldCauseEffect {effect : Effect σ A} (h : effect.Pure given)
    {onFailure : Cause → Code σ (Effect σ B)} {onSuccess : A.Carrier → Code σ (Effect σ B)}
    (failure : ∀ cause, BuiltPure given (onFailure cause))
    (success : ∀ a, BuiltPure given (onSuccess a)) :
    (effect.foldCauseEffect onFailure onSuccess).Pure given := by
  choose result certain builds using fun cause => (failure cause).node
  exact Node.Pure.fold h (.branches result certain builds (pure_typed success))

theorem Pure.foldEffect {effect : Effect σ A} (h : effect.Pure given)
    {onError : String → Code σ (Effect σ B)} {onSuccess : A.Carrier → Code σ (Effect σ B)}
    (failure : ∀ error, BuiltPure given (onError error))
    (success : ∀ a, BuiltPure given (onSuccess a)) :
    (effect.foldEffect onError onSuccess).Pure given := by
  refine h.foldCauseEffect (fun cause => ?_) success
  split
  next error => exact failure error
  next => exact built_done (pure_failCauseNow _)

theorem Pure.ensuring {effect : Effect σ A} (h : effect.Pure given) {finalizer : Effect σ B}
    (h' : finalizer.Pure given) : (effect.ensuring finalizer).Pure given :=
  Node.Pure.fold h (.finalizer h')

theorem Pure.withInterruptStatus {effect : Effect σ A} (h : effect.Pure given)
    (status : InterruptStatus) : (effect.withInterruptStatus status).Pure given :=
  Node.Pure.withStatus h status

theorem Pure.provide {effect : Effect σ A} (h : effect.Pure given) (environment : R.Carrier) :
    (effect.provide environment).Pure given := Node.Pure.provide h _

end Effect

/-! ### Meaning -/

/-- What a pure effect comes to under some environments. -/
inductive Means (given : Given σ) : List Erased → Node σ → Exit Erased → Prop where
  | succeed (environments : List Erased) (value : Erased) :
      Means given environments (.succeed value) (.success value)
  | sync {environments : List Erased} {thunk : Code σ Erased} {result : Except Payload Erased}
      (certain : thunk.Certain result) :
      Means given environments (.sync thunk) (.ofValue result)
  | fail {environments : List Erased} {thunk : Code σ Cause} {result : Except Payload Cause}
      (certain : thunk.Certain result) :
      Means given environments (.fail thunk) (.ofCause result)
  | flatMap {environments : List Erased} {effect : Node σ} {continuation : Continuation σ}
      {value : Erased} {built : Except Payload (Node σ)} {exit : Exit Erased}
      (means : Means given environments effect (.success value))
      (certain : (continuation.applyTo value).Certain built)
      (means' : Means given environments (.ofBuilt built) exit) :
      Means given environments (.flatMap effect continuation) exit
  | flatMapSkipped {environments : List Erased} {effect : Node σ} {continuation : Continuation σ}
      {cause : Cause} (means : Means given environments effect (.failure cause)) :
      Means given environments (.flatMap effect continuation) (.failure cause)
  | fold {environments : List Erased} {effect : Node σ} {handler : Handler σ}
      {outcome exit : Exit Erased} {built : Except Payload (Node σ)}
      (means : Means given environments effect outcome)
      (certain : (handler.receive outcome).Certain built)
      (means' : Means given environments (.ofBuilt built) exit) :
      Means given environments (.fold effect handler) exit
  | async {environments : List Erased} {register : CallbackId → Code σ Unit} {value : Erased}
      (known : given register = some value)
      (certain : ∀ callback, (register callback).Certain (.ok ())) :
      Means given environments (.async register) (.success value)
  | asyncPanicked {environments : List Erased} {register : CallbackId → Code σ Unit}
      {payload : Payload} (certain : ∀ callback, (register callback).Certain (.error payload)) :
      Means given environments (.async register) (.failure (.ofPayload payload))
  | shift (environments : List Erased) (executor : ExecutorId) :
      Means given environments (.shift executor) (.success .unit)
  | withStatus {environments : List Erased} {effect : Node σ} {status : InterruptStatus}
      {exit : Exit Erased} (means : Means given environments effect exit) :
      Means given environments (.withStatus effect status) exit
  | provide {environments : List Erased} {effect : Node σ} {environment : Erased}
      {exit : Exit Erased} (means : Means given (environment :: environments) effect exit) :
      Means given environments (.provide effect environment) exit
  | access {environment : Erased} {outer : List Erased} {continuation : Continuation σ}
      {built : Except Payload (Node σ)} {exit : Exit Erased}
      (certain : (continuation.applyTo environment).Certain built)
      (means : Means given (environment :: outer) (.ofBuilt built) exit) :
      Means given (environment :: outer) (.access continuation) exit
  | accessNothing (continuation : Continuation σ) :
      Means given [] (.access continuation) (.failure .missingEnvironment)

/-- A pure effect comes to one thing. -/
theorem Means.unique {environments : List Erased} {effect : Node σ} {exit other : Exit Erased}
    (h : Means given environments effect exit) (h' : Means given environments effect other) :
    exit = other := by
  induction h generalizing other with
  | succeed | shift | accessNothing => cases h'; rfl
  | sync certain => cases h' with
    | sync certain' => rw [certain.unique certain']
  | fail certain => cases h' with
    | fail certain' => rw [certain.unique certain']
  | flatMap _ certain _ ih ih' => cases h' with
    | flatMap means certain' means' =>
      cases ih means
      cases certain.unique certain'
      exact ih' means'
    | flatMapSkipped means => cases ih means
  | flatMapSkipped _ ih => cases h' with
    | flatMap means => cases ih means
    | flatMapSkipped means => exact congrArg _ (Exit.failure.inj (ih means))
  | fold _ certain _ ih ih' => cases h' with
    | fold means certain' means' =>
      cases ih means
      cases certain.unique certain'
      exact ih' means'
  | async known certain => cases h' with
    | async known' _ => exact congrArg _ (Option.some.inj (known.symm.trans known'))
    | asyncPanicked certain' => cases (certain ⟨0⟩).unique (certain' ⟨0⟩)
  | asyncPanicked certain => cases h' with
    | async _ certain' => cases (certain ⟨0⟩).unique (certain' ⟨0⟩)
    | asyncPanicked certain' => cases (certain ⟨0⟩).unique (certain' ⟨0⟩); rfl
  | withStatus _ ih => cases h' with
    | withStatus means => exact ih means
  | provide _ ih => cases h' with
    | provide means => exact ih means
  | access certain _ ih => cases h' with
    | access certain' means =>
      cases certain.unique certain'
      exact ih means

end Fibers
