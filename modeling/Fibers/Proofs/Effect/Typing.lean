import Fibers.Proofs.Effect.Confined

/-!
# Types of effects without their types

At run time neither values nor frames have types, and a handle is a number. `Typing` remembers the
types with which handles were handed out; `Node.Typed` says of a description what it hands to the
frames above which it runs. User code is well typed if it uses handles at their types, whatever has
been handed out by then: it may keep them in the world that it shares, whose `Custody` says which
ones are where.

## Main results

Well typed continuations build well typed effects (`Continuation.Typed.applyTo`), as handlers do
(`Handler.Typed.resume`, `Handler.Typed.recover`), and what is well typed stays so as more is handed
out (`Node.Typed.mono`).
-/

namespace Fibers

variable {σ : Type}

/-! ### Handles and values -/

/-- The types with which fibers, callbacks and mailboxes were handed out, in the order of their
making. -/
structure Typing where
  fibers : List Ty := []
  callbacks : List Ty := []
  mailboxes : List Ty := []

namespace Typing

/-- More may be handed out later on, but nothing changes its type. -/
structure Le (types types' : Typing) : Prop where
  fibers : types.fibers <+: types'.fibers
  callbacks : types.callbacks <+: types'.callbacks
  mailboxes : types.mailboxes <+: types'.mailboxes

instance : LE Typing := ⟨Le⟩

/-- The type of the values of a fiber. -/
def Fiber (types : Typing) (id : FiberId) (A : Ty) : Prop := types.fibers[id.index]? = some A

/-- The type of the values that a callback takes. -/
def Callback (types : Typing) (callback : CallbackId) (A : Ty) : Prop :=
  types.callbacks[callback.index]? = some A

/-- The type of the values of the fiber whose exit comes to a mailbox. -/
def Mailbox (types : Typing) (mailbox : MailboxId) (A : Ty) : Prop :=
  types.mailboxes[mailbox.index]? = some A

/-- The handles in a value were handed out with their types. -/
def Holds (types : Typing) : (A : Ty) → A.Carrier → Prop
  | .datum, value => ∀ id ∈ value.handles, types.Fiber id .datum
  | .pair left right, (a, b) => types.Holds left a ∧ types.Holds right b
  | .exit A, .success a => types.Holds A a
  | .exit _, .failure _ => True
  | .fiber A, id => types.Fiber id A
  | .context, _ | .unit, _ | .bool, _ | .int, _ | .word, _ | .text, _ | .ints, _ => True

/-- The exit of a fiber whose values have a type. -/
def HoldsExit (types : Typing) (A : Ty) (exit : Exit Erased) : Prop :=
  ∃ own : Exit A.Carrier, exit = own.erase ∧ types.Holds (.exit A) own

variable {types types' types'' : Typing} {A : Ty}

theorem le_refl (types : Typing) : types ≤ types :=
  ⟨List.prefix_rfl, List.prefix_rfl, List.prefix_rfl⟩

theorem le_trans (h : types ≤ types') (h' : types' ≤ types'') : types ≤ types'' :=
  ⟨h.fibers.trans h'.fibers, h.callbacks.trans h'.callbacks, h.mailboxes.trans h'.mailboxes⟩

theorem empty_le (types : Typing) : {} ≤ types :=
  ⟨List.nil_prefix, List.nil_prefix, List.nil_prefix⟩

theorem getElem?_of_prefix {α : Type} {before after : List α} {index : Nat} {a : α}
    (le : before <+: after) (there : before[index]? = some a) : after[index]? = some a := by
  obtain ⟨more, rfl⟩ := le
  rw [List.getElem?_append_left (List.getElem?_eq_some_iff.mp there).1, there]

theorem Fiber.mono {id : FiberId} (h : types.Fiber id A) (le : types ≤ types') :
    types'.Fiber id A := getElem?_of_prefix le.fibers h

theorem Callback.mono {callback : CallbackId} (h : types.Callback callback A)
    (le : types ≤ types') : types'.Callback callback A := getElem?_of_prefix le.callbacks h

theorem Mailbox.mono {mailbox : MailboxId} (h : types.Mailbox mailbox A) (le : types ≤ types') :
    types'.Mailbox mailbox A := getElem?_of_prefix le.mailboxes h

/-- A fiber has one type. -/
theorem Fiber.unique {id : FiberId} {B : Ty} (h : types.Fiber id A) (h' : types.Fiber id B) :
    A = B := Option.some.inj (h.symm.trans h')

theorem Callback.unique {callback : CallbackId} {B : Ty} (h : types.Callback callback A)
    (h' : types.Callback callback B) : A = B := Option.some.inj (h.symm.trans h')

theorem Mailbox.unique {mailbox : MailboxId} {B : Ty} (h : types.Mailbox mailbox A)
    (h' : types.Mailbox mailbox B) : A = B := Option.some.inj (h.symm.trans h')

theorem Holds.mono {A : Ty} {a : A.Carrier} (h : types.Holds A a) (le : types ≤ types') :
    types'.Holds A a := by
  induction A with
  | datum => exact fun id mem => (h id mem).mono le
  | pair left right left_ih right_ih => exact ⟨left_ih h.1, right_ih h.2⟩
  | exit A ih =>
    cases a with
    | success a => exact ih h
    | failure cause => trivial
  | fiber A => exact Fiber.mono h le
  | _ => trivial

theorem HoldsExit.mono {exit : Exit Erased} (h : types.HoldsExit A exit) (le : types ≤ types') :
    types'.HoldsExit A exit := by
  obtain ⟨own, same, holds⟩ := h
  exact ⟨own, same, holds.mono le⟩

theorem holdsExit_failure (types : Typing) (A : Ty) (cause : Cause) :
    types.HoldsExit A (.failure cause) := ⟨.failure cause, rfl, trivial⟩

/-- An exit of the right type is recovered. -/
theorem HoldsExit.recover {exit : Exit Erased} (h : types.HoldsExit A exit) :
    types.Holds (.exit A) (exit.recover A) := by
  obtain ⟨own, rfl, holds⟩ := h
  rw [Exit.recover_erase]
  exact holds

/-- Erasing an exit that was recovered at its type gives it back. -/
theorem HoldsExit.erase_recover {exit : Exit Erased} (h : types.HoldsExit A exit) :
    (exit.recover A).erase = exit := by
  obtain ⟨own, rfl, _⟩ := h
  rw [Exit.recover_erase]

end Typing

/-- What an effect hands to the frames above which it runs: a value of some type, or the raw
identity of a fiber whose values have some type. -/
inductive Flow where
  | value (A : Ty)
  | child (A : Ty)

/-- A value that may be handed on. -/
inductive Erased.Flows (types : Typing) : Flow → Erased → Prop where
  | value {A : Ty} {a : A.Carrier} (holds : types.Holds A a) : Flows types (.value A) ⟨A, a⟩
  | child {A : Ty} {id : FiberId} (fiber : types.Fiber id A) :
      Flows types (.child A) ⟨.context, id⟩

theorem Erased.Flows.mono {types types' : Typing} {flow : Flow} {value : Erased}
    (h : value.Flows types flow) (le : types ≤ types') : value.Flows types' flow := by
  cases h with
  | value holds => exact .value (holds.mono le)
  | child fiber => exact .child (fiber.mono le)

/-- The handles in a value, whatever its type, were handed out with their types. -/
def Erased.Held (types : Typing) (value : Erased) : Prop := types.Holds value.type value.value

theorem Erased.Held.mono {types types' : Typing} {value : Erased} (h : value.Held types)
    (le : types ≤ types') : value.Held types' := Typing.Holds.mono h le

theorem Erased.Held.flows {types : Typing} {value : Erased} (h : value.Held types) :
    value.Flows types (.value value.type) := .value h

theorem Typing.HoldsExit.success {types : Typing} {A : Ty} {value : Erased}
    (h : value.Flows types (.value A)) : types.HoldsExit A (.success value) := by
  cases h with
  | value holds => exact ⟨.success _, rfl, holds⟩

/-! ### User code -/

/-- What user code keeps in the world that it shares, by the types of the handles. -/
structure Custody (σ : Type) where
  holds : Typing → σ → Prop
  /-- Handing out more does no harm. -/
  mono : ∀ {types types' : Typing} {state : σ}, holds types state → types ≤ types' →
    holds types' state

/-- What code ends with does not matter. -/
def Anything {α : Type} : Typing → Unit → α → Prop := fun _ _ _ => True

/-- User code that uses handles at their types, and new ones at the types that they get; it keeps
the custody of the shared world. What it launches, what it calls back and what it ends with is for
`nodes`, `callbacks` and `results` to say. -/
inductive Action.Respects {α ι : Type} (custody : Custody σ)
    (nodes : Typing → Flow → Node σ → Prop) (callbacks : Typing → Ty → RunCallback σ → Prop)
    (results : Typing → ι → α → Prop) : Typing → ι → Code σ α → Prop where
  | done {types : Typing} {i : ι} {result : α} (good : results types i result) :
      Respects custody nodes callbacks results types i (.done result)
  | panic {types : Typing} {i : ι} (payload : Payload) :
      Respects custody nodes callbacks results types i (.panic payload)
  | get {types : Typing} {i : ι} {next : σ → Code σ α}
      (rest : ∀ types' state, types ≤ types' → custody.holds types' state →
        Respects custody nodes callbacks results types' i (next state)) :
      Respects custody nodes callbacks results types i (.get next)
  | modify {types : Typing} {i : ι} {change : σ → σ} {next : PUnit.{1} → Code σ α}
      (kept : ∀ types' state, types ≤ types' → custody.holds types' state →
        custody.holds types' (change state))
      (rest : Respects custody nodes callbacks results types i (next ⟨⟩)) :
      Respects custody nodes callbacks results types i (.modify change next)
  | complete {types : Typing} {i : ι} {callback : CallbackId} {value : Erased} {A : Ty}
      {next : PUnit.{1} → Code σ α} (own : types.Callback callback A)
      (flows : value.Flows types (.value A))
      (rest : Respects custody nodes callbacks results types i (next ⟨⟩)) :
      Respects custody nodes callbacks results types i (.complete callback value next)
  | completeLater {types : Typing} {i : ι} {delay : Nat} {callback : CallbackId} {value : Erased}
      {A : Ty} {next : PUnit.{1} → Code σ α} (own : types.Callback callback A)
      (flows : value.Flows types (.value A))
      (rest : Respects custody nodes callbacks results types i (next ⟨⟩)) :
      Respects custody nodes callbacks results types i (.completeLater delay callback value next)
  | observe {types : Typing} {i : ι} {fiber : FiberId} {A : Ty} {callback : CallbackId}
      {next : PUnit.{1} → Code σ α} (own : types.Fiber fiber A)
      (takes : types.Callback callback (.exit A))
      (rest : Respects custody nodes callbacks results types i (next ⟨⟩)) :
      Respects custody nodes callbacks results types i (.observe fiber A callback next)
  | poll {types : Typing} {i : ι} {fiber : FiberId} {A : Ty}
      {next : Option (Exit Erased) → Code σ α} (own : types.Fiber fiber A)
      (rest : ∀ types' outcome, types ≤ types' →
        (∀ exit, outcome = some exit → types'.HoldsExit A exit) →
        Respects custody nodes callbacks results types' i (next outcome)) :
      Respects custody nodes callbacks results types i (.poll fiber next)
  | interrupt {types : Typing} {i : ι} {fiber : FiberId} {next : PUnit.{1} → Code σ α}
      (rest : Respects custody nodes callbacks results types i (next ⟨⟩)) :
      Respects custody nodes callbacks results types i (.interrupt fiber next)
  | launch {types : Typing} {i : ι} {executor : ExecutorId} {root : Node σ} {A : Ty}
      {next : FiberId → Code σ α} (root_typed : nodes types (.value A) root)
      (rest : ∀ types' id, types ≤ types' → types'.Fiber id A →
        Respects custody nodes callbacks results types' i (next id)) :
      Respects custody nodes callbacks results types i (.launch executor root next)
  | launchWith {types : Typing} {i : ι} {executor : ExecutorId} {root : Node σ} {A : Ty}
      {callback : RunCallback σ} {next : FiberId → Code σ α}
      (root_typed : nodes types (.value A) root) (callback_typed : callbacks types A callback)
      (rest : ∀ types' id, types ≤ types' → types'.Fiber id A →
        Respects custody nodes callbacks results types' i (next id)) :
      Respects custody nodes callbacks results types i (.launchWith executor root callback next)
  | submit {types : Typing} {i : ι} {executor : ExecutorId} {root : Node σ} {A : Ty}
      {next : MailboxId → Code σ α} (root_typed : nodes types (.value A) root)
      (rest : ∀ types' mailbox, types ≤ types' → types'.Mailbox mailbox A →
        Respects custody nodes callbacks results types' i (next mailbox)) :
      Respects custody nodes callbacks results types i (.submit executor root A next)
  | wait {types : Typing} {i : ι} {mailbox : MailboxId} {deadline : Option Nat} {A : Ty}
      {next : Waited → Code σ α} (own : types.Mailbox mailbox A)
      (rest : ∀ types' waited, types ≤ types' →
        (∀ exit, waited = .opened (some exit) → types'.HoldsExit A exit) →
        Respects custody nodes callbacks results types' i (next waited)) :
      Respects custody nodes callbacks results types i (.wait mailbox deadline next)
  | runTask {types : Typing} {i : ι} {executor : ExecutorId} {newest : Bool}
      {next : Bool → Code σ α}
      (rest : ∀ ran, Respects custody nodes callbacks results types i (next ran)) :
      Respects custody nodes callbacks results types i (.runTask executor newest next)
  | discardTasks {types : Typing} {i : ι} {executor : ExecutorId} {next : Nat → Code σ α}
      (rest : ∀ count, Respects custody nodes callbacks results types i (next count)) :
      Respects custody nodes callbacks results types i (.discardTasks executor next)
  | threadName {types : Typing} {i : ι} {next : String → Code σ α}
      (rest : ∀ name, Respects custody nodes callbacks results types i (next name)) :
      Respects custody nodes callbacks results types i (.threadName next)
  | clock {types : Typing} {i : ι} {next : Nat → Code σ α}
      (rest : ∀ now, Respects custody nodes callbacks results types i (next now)) :
      Respects custody nodes callbacks results types i (.clock next)
  | report {types : Typing} {i : ι} {event : Event} {next : PUnit.{1} → Code σ α}
      (rest : Respects custody nodes callbacks results types i (next ⟨⟩)) :
      Respects custody nodes callbacks results types i (.report event next)

namespace Action.Respects

variable {α β ι κ : Type} {custody : Custody σ} {nodes : Typing → Flow → Node σ → Prop}
  {callbacks : Typing → Ty → RunCallback σ → Prop} {results : Typing → ι → α → Prop}
  {results' : Typing → κ → β → Prop} {types : Typing} {i : ι} {j : κ} {code : Code σ α}

theorem mono {types' : Typing} (h : code.Respects custody nodes callbacks results types i)
    (nodes_mono : ∀ {types types' flow node}, nodes types flow node → types ≤ types' →
      nodes types' flow node)
    (callbacks_mono : ∀ {types types' A callback}, callbacks types A callback → types ≤ types' →
      callbacks types' A callback)
    (results_mono : ∀ {types types' i result}, results types i result → types ≤ types' →
      results types' i result)
    (le : types ≤ types') : code.Respects custody nodes callbacks results types' i := by
  induction h generalizing types' with
  | done good => exact .done (results_mono good le)
  | panic payload => exact .panic payload
  | get rest => exact .get fun types'' state le' => rest types'' state (Typing.le_trans le le')
  | modify kept _ ih =>
    exact .modify (fun types'' state le' => kept types'' state (Typing.le_trans le le')) (ih le)
  | complete own flows _ ih => exact .complete (own.mono le) (flows.mono le) (ih le)
  | completeLater own flows _ ih => exact .completeLater (own.mono le) (flows.mono le) (ih le)
  | observe own takes _ ih => exact .observe (own.mono le) (takes.mono le) (ih le)
  | poll own rest =>
    exact .poll (own.mono le) fun types'' outcome le' =>
      rest types'' outcome (Typing.le_trans le le')
  | interrupt _ ih => exact .interrupt (ih le)
  | launch root rest =>
    exact .launch (nodes_mono root le) fun types'' id le' =>
      rest types'' id (Typing.le_trans le le')
  | launchWith root callback rest =>
    exact .launchWith (nodes_mono root le) (callbacks_mono callback le) fun types'' id le' =>
      rest types'' id (Typing.le_trans le le')
  | submit root rest =>
    exact .submit (nodes_mono root le) fun types'' mailbox le' =>
      rest types'' mailbox (Typing.le_trans le le')
  | wait own rest =>
    exact .wait (own.mono le) fun types'' waited le' => rest types'' waited (Typing.le_trans le le')
  | runTask _ ih => exact .runTask fun ran => ih ran le
  | discardTasks _ ih => exact .discardTasks fun count => ih count le
  | threadName _ ih => exact .threadName fun name => ih name le
  | clock _ ih => exact .clock fun now => ih now le
  | report _ ih => exact .report (ih le)

/-- One piece of code after another. -/
theorem bind {f : α → Code σ β} (h : code.Respects custody nodes callbacks results types i)
    (next : ∀ types' result, types ≤ types' → results types' i result →
      (f result).Respects custody nodes callbacks results' types' j) :
    (code.bind f).Respects custody nodes callbacks results' types j := by
  induction h with
  | done good => exact next _ _ (Typing.le_refl _) good
  | panic payload => exact .panic payload
  | get _ ih =>
    exact .get fun types' state le holds => ih types' state le holds fun types'' result le' =>
      next types'' result (Typing.le_trans le le')
  | modify kept _ ih => exact .modify kept (ih next)
  | complete own flows _ ih => exact .complete own flows (ih next)
  | completeLater own flows _ ih => exact .completeLater own flows (ih next)
  | observe own takes _ ih => exact .observe own takes (ih next)
  | poll own _ ih =>
    exact .poll own fun types' outcome le holds => ih types' outcome le holds
      fun types'' result le' => next types'' result (Typing.le_trans le le')
  | interrupt _ ih => exact .interrupt (ih next)
  | launch root _ ih =>
    exact .launch root fun types' id le own => ih types' id le own fun types'' result le' =>
      next types'' result (Typing.le_trans le le')
  | launchWith root callback _ ih =>
    exact .launchWith root callback fun types' id le own => ih types' id le own
      fun types'' result le' => next types'' result (Typing.le_trans le le')
  | submit root _ ih =>
    exact .submit root fun types' mailbox le own => ih types' mailbox le own
      fun types'' result le' => next types'' result (Typing.le_trans le le')
  | wait own _ ih =>
    exact .wait own fun types' waited le holds => ih types' waited le holds
      fun types'' result le' => next types'' result (Typing.le_trans le le')
  | runTask _ ih => exact .runTask fun ran => ih ran next
  | discardTasks _ ih => exact .discardTasks fun count => ih count next
  | threadName _ ih => exact .threadName fun name => ih name next
  | clock _ ih => exact .clock fun now => ih now next
  | report _ ih => exact .report (ih next)

end Action.Respects

/-! ### Nodes -/

mutual

/-- A description that hands on what its flow says. -/
inductive Node.Typed {σ : Type} (custody : Custody σ) : Typing → Flow → Node σ → Prop where
  | succeed {types : Typing} {flow : Flow} {value : Erased} (flows : value.Flows types flow) :
      Node.Typed custody types flow (.succeed value)
  | sync {types : Typing} {flow : Flow} {thunk : Code σ Erased}
      (code : ∀ types', types ≤ types' → thunk.Respects custody (Node.Typed custody)
        (RunCallback.Typed custody) Erased.Flows types' flow) :
      Node.Typed custody types flow (.sync thunk)
  | flatMap {types : Typing} {via flow : Flow} {effect : Node σ} {continuation : Continuation σ}
      (effect_typed : effect.Typed custody types via)
      (continuation_typed : continuation.Typed custody types via flow) :
      Node.Typed custody types flow (.flatMap effect continuation)
  /-- The registration gets a callback for the values of the effect. -/
  | async {types : Typing} {A : Ty} {register : CallbackId → Code σ Unit}
      (code : ∀ types' callback, types ≤ types' → types'.Callback callback A →
        (register callback).Respects custody (Node.Typed custody) (RunCallback.Typed custody)
          Anything types' ()) :
      Node.Typed custody types (.value A) (.async register)
  | fork {types : Typing} {A : Ty} {effect : Node σ}
      (effect_typed : effect.Typed custody types (.value A)) :
      Node.Typed custody types (.child A) (.fork effect)
  | fail {types : Typing} {flow : Flow} {thunk : Code σ Cause}
      (code : ∀ types', types ≤ types' → thunk.Respects custody (Node.Typed custody)
        (RunCallback.Typed custody) Anything types' ()) :
      Node.Typed custody types flow (.fail thunk)
  | fold {types : Typing} {via flow : Flow} {effect : Node σ} {handler : Handler σ}
      (effect_typed : effect.Typed custody types via)
      (handler_typed : handler.Typed custody types via flow) :
      Node.Typed custody types flow (.fold effect handler)
  | shift {types : Typing} (executor : ExecutorId) :
      Node.Typed custody types (.value .unit) (.shift executor)
  | withStatus {types : Typing} {flow : Flow} {effect : Node σ}
      (effect_typed : effect.Typed custody types flow) (status : InterruptStatus) :
      Node.Typed custody types flow (.withStatus effect status)
  | provide {types : Typing} {flow : Flow} {effect : Node σ} {environment : Erased}
      (effect_typed : effect.Typed custody types flow) (held : environment.Held types) :
      Node.Typed custody types flow (.provide effect environment)
  /-- A read asks for an environment of some type, whatever it finds. -/
  | access {types : Typing} {R : Ty} {flow : Flow} {continuation : Continuation σ}
      (continuation_typed : continuation.Typed custody types (.value R) flow) :
      Node.Typed custody types flow (.access continuation)
  | restoreStatus {types : Typing} (status : InterruptStatus) :
      Node.Typed custody types (.value .unit) (.restoreStatus status)
  | leaveScope {types : Typing} : Node.Typed custody types (.value .unit) .leaveScope

/-- A continuation that recovers what is handed to it, or does not look at it. -/
inductive Continuation.Typed {σ : Type} (custody : Custody σ) :
    Typing → Flow → Flow → Continuation σ → Prop where
  | call {types : Typing} {A B : Ty} {f : A.Carrier → Code σ (Effect σ B)}
      (builds : ∀ types' a, types ≤ types' → types'.Holds A a →
        ((f a).bind fun effect => .done effect.node).Respects custody (Node.Typed custody)
          (RunCallback.Typed custody) (Node.Typed custody) types' (.value B)) :
      Continuation.Typed custody types (.value A) (.value B) (.call (Effect.typed f))
  /-- The raw identity of a fiber becomes a handle of its type. -/
  | handle {types : Typing} {A B : Ty} {f : Ty.context.Carrier → Code σ (Effect σ B)}
      (builds : ∀ types' id, types ≤ types' → types'.Fiber id A →
        ((f id).bind fun effect => .done effect.node).Respects custody (Node.Typed custody)
          (RunCallback.Typed custody) (Node.Typed custody) types' (.value B)) :
      Continuation.Typed custody types (.child A) (.value B)
        (.call (Effect.typed (A := .context) f))
  | ignore {types : Typing} {via flow : Flow} {code : Code σ (Node σ)}
      (builds : ∀ types', types ≤ types' → code.Respects custody (Node.Typed custody)
        (RunCallback.Typed custody) (Node.Typed custody) types' flow) :
      Continuation.Typed custody types via flow (.call fun _ => code)
  /-- What runs again and again hands on nothing. -/
  | again {types : Typing} {via via' flow : Flow} {effect : Node σ}
      (effect_typed : effect.Typed custody types via') :
      Continuation.Typed custody types via flow (.again effect)
  | constant {types : Typing} {via flow : Flow} {effect : Node σ}
      (effect_typed : effect.Typed custody types flow) :
      Continuation.Typed custody types via flow (.constant effect)

/-- A handler whose branches hand on the same. -/
inductive Handler.Typed {σ : Type} (custody : Custody σ) :
    Typing → Flow → Flow → Handler σ → Prop where
  | branches {types : Typing} {via flow : Flow} {onFailure : Cause → Code σ (Node σ)}
      {onSuccess : Continuation σ}
      (builds : ∀ types' cause, types ≤ types' → (onFailure cause).Respects custody
        (Node.Typed custody) (RunCallback.Typed custody) (Node.Typed custody) types' flow)
      (success_typed : onSuccess.Typed custody types via flow) :
      Handler.Typed custody types via flow (.branches onFailure onSuccess)
  /-- The value of a finalizer is forgotten, so any will do. -/
  | finalizer {types : Typing} {via flow : Flow} {effect : Node σ}
      (effect_typed : effect.Typed custody types via) :
      Handler.Typed custody types flow flow (.finalizer effect)

/-- The callback of a root fiber, which recovers the exit at a type. -/
inductive RunCallback.Typed {σ : Type} (custody : Custody σ) :
    Typing → Ty → RunCallback σ → Prop where
  | ofCode {types : Typing} {A : Ty} {callback : Exit A.Carrier → Code σ Unit}
      (runs : ∀ types' exit, types ≤ types' → types'.Holds (.exit A) exit →
        (callback exit).Respects custody (Node.Typed custody) (RunCallback.Typed custody) Anything
          types' ()) :
      RunCallback.Typed custody types A (.ofCode fun exit => callback (exit.recover A))

end

/-- User code is well typed, and so is what it launches. -/
abbrev Action.Typed {α ι : Type} (custody : Custody σ) (results : Typing → ι → α → Prop)
    (types : Typing) (i : ι) (code : Code σ α) : Prop :=
  code.Respects custody (Node.Typed custody) (RunCallback.Typed custody) results types i

variable {custody : Custody σ} {types types' : Typing} {via flow : Flow}

mutual

/-- A description that is well typed stays so. -/
theorem Node.Typed.mono {types' : Typing} : {types : Typing} → {flow : Flow} → {node : Node σ} →
    node.Typed custody types flow → types ≤ types' → node.Typed custody types' flow
  | _, _, _, .succeed flows, le => .succeed (flows.mono le)
  | _, _, _, .sync code, le => .sync fun types'' le' => code types'' (Typing.le_trans le le')
  | _, _, _, .flatMap effect continuation, le => .flatMap (effect.mono le) (continuation.mono le)
  | _, _, _, .async code, le =>
    .async fun types'' callback le' => code types'' callback (Typing.le_trans le le')
  | _, _, _, .fork effect, le => .fork (effect.mono le)
  | _, _, _, .fail code, le => .fail fun types'' le' => code types'' (Typing.le_trans le le')
  | _, _, _, .fold effect handler, le => .fold (effect.mono le) (handler.mono le)
  | _, _, _, .shift executor, _ => .shift executor
  | _, _, _, .withStatus effect status, le => .withStatus (effect.mono le) status
  | _, _, _, .provide effect held, le => .provide (effect.mono le) (held.mono le)
  | _, _, _, .access continuation, le => .access (continuation.mono le)
  | _, _, _, .restoreStatus status, _ => .restoreStatus status
  | _, _, _, .leaveScope, _ => .leaveScope

/-- A continuation that is well typed stays so. -/
theorem Continuation.Typed.mono {types' : Typing} : {types : Typing} → {via flow : Flow} →
    {continuation : Continuation σ} → continuation.Typed custody types via flow →
      types ≤ types' → continuation.Typed custody types' via flow
  | _, _, _, _, .call builds, le =>
    .call fun types'' a le' => builds types'' a (Typing.le_trans le le')
  | _, _, _, _, .handle builds, le =>
    .handle fun types'' id le' => builds types'' id (Typing.le_trans le le')
  | _, _, _, _, .ignore builds, le =>
    .ignore fun types'' le' => builds types'' (Typing.le_trans le le')
  | _, _, _, _, .again effect, le => .again (effect.mono le)
  | _, _, _, _, .constant effect, le => .constant (effect.mono le)

/-- A handler that is well typed stays so. -/
theorem Handler.Typed.mono {types' : Typing} : {types : Typing} → {via flow : Flow} →
    {handler : Handler σ} → handler.Typed custody types via flow → types ≤ types' →
      handler.Typed custody types' via flow
  | _, _, _, _, .branches builds success, le =>
    .branches (fun types'' cause le' => builds types'' cause (Typing.le_trans le le'))
      (success.mono le)
  | _, _, _, _, .finalizer effect, le => .finalizer (effect.mono le)

end

theorem RunCallback.Typed.mono {A : Ty} {callback : RunCallback σ}
    (h : callback.Typed custody types A) (le : types ≤ types') :
    callback.Typed custody types' A := by
  cases h with
  | ofCode runs =>
    exact .ofCode fun types'' exit le' => runs types'' exit (Typing.le_trans le le')

/-- Well typed code stays so, if what it ends with does. -/
theorem Action.Respects.later {α ι : Type} {results : Typing → ι → α → Prop} {i : ι}
    {code : Code σ α} (h : code.Typed custody results types i)
    (results_mono : ∀ {types types' i result}, results types i result → types ≤ types' →
      results types' i result) (le : types ≤ types') : code.Typed custody results types' i :=
  h.mono Node.Typed.mono RunCallback.Typed.mono results_mono le

theorem Node.typed_failNow (cause : Cause) :
    (Node.failNow cause : Node σ).Typed custody types flow :=
  .fail fun _ _ => .done trivial

theorem Node.typed_unit : (Node.unit : Node σ).Typed custody types (.value .unit) :=
  .succeed (.value trivial)

theorem Node.Typed.andThen {first next : Node σ} (h : first.Typed custody types via)
    (h' : next.Typed custody types flow) : (first.andThen next).Typed custody types flow :=
  .flatMap h (.constant h')

/-! ### Code that starts an effect -/

/-- Code that starts an effect of some type on a root fiber, and that uses what it gets for that at
this type. -/
inductive Action.Starts {α ι : Type} (custody : Custody σ) (results : Typing → ι → α → Prop)
    (types : Typing) (i : ι) (A : Ty) (effect : Node σ) : Code σ α → Prop where
  | launch {executor : ExecutorId} {next : FiberId → Code σ α}
      (rest : ∀ types' id, types ≤ types' → types'.Fiber id A →
        (next id).Typed custody results types' i) :
      Starts custody results types i A effect (.launch executor effect next)
  | launchWith {executor : ExecutorId} {callback : RunCallback σ} {next : FiberId → Code σ α}
      (callback_typed : callback.Typed custody types A)
      (rest : ∀ types' id, types ≤ types' → types'.Fiber id A →
        (next id).Typed custody results types' i) :
      Starts custody results types i A effect (.launchWith executor effect callback next)
  | submit {executor : ExecutorId} {next : MailboxId → Code σ α}
      (rest : ∀ types' mailbox, types ≤ types' → types'.Mailbox mailbox A →
        (next mailbox).Typed custody results types' i) :
      Starts custody results types i A effect (.submit executor effect A next)

namespace Action.Starts

variable {α β ι κ : Type} {results : Typing → ι → α → Prop} {results' : Typing → κ → β → Prop}
  {types : Typing} {i : ι} {j : κ} {A : Ty} {effect : Node σ} {code : Code σ α}

theorem typed (h : code.Starts custody results types i A effect)
    (effect_typed : effect.Typed custody types (.value A)) :
    code.Typed custody results types i := by
  cases h with
  | launch rest => exact .launch effect_typed rest
  | launchWith callback_typed rest => exact .launchWith effect_typed callback_typed rest
  | submit rest => exact .submit effect_typed rest

/-- What else the code does afterwards. -/
theorem bind {next : α → Code σ β} (h : code.Starts custody results types i A effect)
    (following : ∀ types' result, types ≤ types' → results types' i result →
      (next result).Typed custody results' types' j) :
    (code.bind next).Starts custody results' types j A effect := by
  have goes : ∀ types' (rest : Code σ α), types ≤ types' → rest.Typed custody results types' i →
      (rest.bind next).Typed custody results' types' j := by
    intro types' rest le rest_typed
    exact rest_typed.bind fun types'' result le' =>
      following types'' result (Typing.le_trans le le')
  cases h with
  | launch rest => exact .launch fun types' id le own => goes types' _ le (rest types' id le own)
  | launchWith callback_typed rest =>
    exact .launchWith callback_typed fun types' id le own =>
      goes types' _ le (rest types' id le own)
  | submit rest =>
    exact .submit fun types' mailbox le own => goes types' _ le (rest types' mailbox le own)

end Action.Starts

/-! ### What frames build -/

/-- A continuation finds a value of the type that it recovers, or does not look at it. -/
inductive Continuation.Accepts : Continuation σ → Erased → Prop where
  | call {A B : Ty} (f : A.Carrier → Code σ (Effect σ B)) (a : A.Carrier) :
      Accepts (.call (Effect.typed f)) ⟨A, a⟩
  | ignore (code : Code σ (Node σ)) (value : Erased) : Accepts (.call fun _ => code) value
  | again (effect : Node σ) (value : Erased) : Accepts (.again effect) value
  | constant (effect : Node σ) (value : Erased) : Accepts (.constant effect) value

/-- A frame finds a value of the type that it recovers, or does not look at it. -/
inductive Frame.Accepts : Frame σ → Erased → Prop where
  | apply {continuation : Continuation σ} {value : Erased} (accepts : continuation.Accepts value) :
      Accepts (.apply continuation) value
  | branches {onFailure : Cause → Code σ (Node σ)} {onSuccess : Continuation σ} {value : Erased}
      (accepts : onSuccess.Accepts value) :
      Accepts (.fold (.branches onFailure onSuccess)) value
  | finalizer (effect : Node σ) (value : Erased) : Accepts (.fold (.finalizer effect)) value

namespace Continuation.Typed

variable {continuation : Continuation σ} {value : Erased}

theorem accepts (h : continuation.Typed custody types via flow) (flows : value.Flows types via) :
    continuation.Accepts value := by
  cases h with
  | call builds =>
    cases flows
    exact .call _ _
  | handle builds =>
    cases flows
    exact .call _ _
  | ignore => exact .ignore _ _
  | again => exact .again _ _
  | constant => exact .constant _ _

/-- Well typed continuations build well typed effects. -/
theorem applyTo (h : continuation.Typed custody types via flow) (flows : value.Flows types via) :
    (continuation.applyTo value).Typed custody (Node.Typed custody) types flow := by
  cases h with
  | call builds =>
    cases flows with
    | value holds =>
      rw [Continuation.applyTo, Effect.typed_mk]
      exact builds _ _ (Typing.le_refl _) holds
  | handle builds =>
    cases flows with
    | child fiber =>
      rw [Continuation.applyTo, Effect.typed_mk]
      exact builds _ _ (Typing.le_refl _) fiber
  | ignore builds => exact builds _ (Typing.le_refl _)
  | again effect => exact .done (.flatMap effect (.again effect))
  | constant effect => exact .done effect

/-- A read that finds an environment of another type builds a defect, which is well typed. -/
theorem applyTo_other {R : Ty} (h : continuation.Typed custody types (.value R) flow)
    (other : value.type ≠ R) :
    (continuation.applyTo value).Typed custody (Node.Typed custody) types flow := by
  cases h with
  | call builds =>
    rw [Continuation.applyTo, Effect.typed, Erased.recover_eq_error _ _ other]
    exact .done (Node.typed_failNow _)
  | ignore builds => exact builds _ (Typing.le_refl _)
  | again effect => exact .done (.flatMap effect (.again effect))
  | constant effect => exact .done effect

end Continuation.Typed

/-- A frame that takes what flows to it and hands on what flows from it. -/
inductive Frame.Typed (custody : Custody σ) (types : Typing) : Flow → Flow → Frame σ → Prop where
  | apply {via flow : Flow} {continuation : Continuation σ}
      (continuation_typed : continuation.Typed custody types via flow) :
      Frame.Typed custody types via flow (.apply continuation)
  | fold {via flow : Flow} {handler : Handler σ}
      (handler_typed : handler.Typed custody types via flow) :
      Frame.Typed custody types via flow (.fold handler)

/-- Frames that turn what flows to the top one into what flows from the bottom one. -/
inductive StackTyped (custody : Custody σ) (types : Typing) :
    Flow → Flow → List (Frame σ) → Prop where
  | nil {flow : Flow} : StackTyped custody types flow flow []
  | cons {via mid flow : Flow} {frame : Frame σ} {stack : List (Frame σ)}
      (frame_typed : frame.Typed custody types via mid)
      (rest : StackTyped custody types mid flow stack) :
      StackTyped custody types via flow (frame :: stack)

/-- Well typed handlers build well typed effects out of values. -/
theorem Handler.Typed.resume {handler : Handler σ} (h : handler.Typed custody types via flow)
    {value : Erased} (flows : value.Flows types via) :
    (handler.resume value).Typed custody (Node.Typed custody) types flow := by
  cases h with
  | branches _ success => exact success.applyTo flows
  | finalizer effect => exact .done (effect.andThen (.succeed flows))

/-- Well typed handlers build well typed effects out of causes. -/
theorem Handler.Typed.recover {handler : Handler σ} (h : handler.Typed custody types via flow)
    (cause : Cause) : (handler.recover cause).Typed custody (Node.Typed custody) types flow := by
  cases h with
  | branches builds _ => exact builds _ cause (Typing.le_refl _)
  | finalizer effect => exact .done (effect.andThen (Node.typed_failNow cause))

namespace Frame.Typed

variable {frame : Frame σ} {value : Erased}

theorem mono (h : frame.Typed custody types via flow) (le : types ≤ types') :
    frame.Typed custody types' via flow := by
  cases h with
  | apply h => exact .apply (h.mono le)
  | fold h => exact .fold (h.mono le)

theorem accepts (h : frame.Typed custody types via flow) (flows : value.Flows types via) :
    frame.Accepts value := by
  cases h with
  | apply h => exact .apply (h.accepts flows)
  | fold h =>
    cases h with
    | branches _ success => exact .branches (success.accepts flows)
    | finalizer _ => exact .finalizer _ _

theorem resume (h : frame.Typed custody types via flow) (flows : value.Flows types via) :
    (frame.resume value).Typed custody (Node.Typed custody) types flow := by
  cases h with
  | apply h => exact h.applyTo flows
  | fold h => exact h.resume flows

end Frame.Typed

namespace StackTyped

variable {stack : List (Frame σ)}

theorem mono (h : StackTyped custody types via flow stack) (le : types ≤ types') :
    StackTyped custody types' via flow stack := by
  induction h with
  | nil => exact .nil
  | cons frame _ ih => exact .cons (frame.mono le) ih

/-- What is left under a handler takes what the handler hands on. -/
theorem unwind {handler : Handler σ} {rest : List (Frame σ)}
    (h : StackTyped custody types via flow stack) (found : unwind stack = some (handler, rest)) :
    ∃ mid mid', handler.Typed custody types mid mid' ∧ StackTyped custody types mid' flow rest := by
  induction h with
  | nil => cases found
  | cons frame stack ih =>
    cases frame with
    | apply => exact ih found
    | fold own =>
      cases found
      exact ⟨_, _, own, stack⟩

end StackTyped

end Fibers
