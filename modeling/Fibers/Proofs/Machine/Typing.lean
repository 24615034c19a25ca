import Fibers.Proofs.Effect.Typing
import Fibers.Proofs.Machine.CrewLoop

/-!
# Well typed machines

Every value, every frame and every exit that a machine keeps has a type that fits the handles which
lead to it: the exit of a fiber that of its handles, a parked stack that of its callback, a slot
that of its mailbox.

## Main results

What is well typed stays so when more is handed out (`Heap.Fits.mono`, `Thread.Typed.mono`), and the
changes that operations make to a heap keep it well typed (`Heap.Typed.updateFiber` and the others).
-/

namespace Fibers

variable {σ : Type}

/-! ### What is well typed -/

section

variable (custody : Custody σ) (types : Typing)

/-- Someone who waits for the exit of a fiber at its type. -/
inductive Observer.Typed (A : Ty) : Observer σ → Prop where
  | resume {callback : CallbackId} (takes : types.Callback callback (.exit A)) :
      Typed A (.resume A callback)
  | call {callback : RunCallback σ} (callback_typed : callback.Typed custody types A) :
      Typed A (.call callback)
  | answer {mailbox : MailboxId} (takes : types.Mailbox mailbox A) : Typed A (.answer A mailbox)

inductive Progress.Typed (A : Ty) : Progress σ → Prop where
  | running {observers : List (Observer σ)}
      (observers_typed : ∀ observer ∈ observers, observer.Typed custody types A) :
      Typed A (.running observers)
  | done {exit : Exit Erased} (holds : types.HoldsExit A exit) : Typed A (.done exit)

structure FiberState.Typed (A : Ty) (fiber : FiberState σ) : Prop where
  seed : ∀ effect, fiber.seed = some effect → effect.Typed custody types (.value A)
  progress : fiber.progress.Typed custody types A
  environments : ∀ environment ∈ fiber.environments, environment.Held types

/-- The next effect of a fiber above its frames. -/
structure Batch.Typed (batch : Batch σ) : Prop where
  fits : ∃ A via, types.Fiber batch.fiber A ∧ batch.current.Typed custody types via ∧
    StackTyped custody types via (.value A) batch.stack

/-- A callback supplies a value of its type to the frames that wait for it. -/
inductive Rendezvous.Typed (id : FiberId) (A : Ty) : Rendezvous σ → Prop where
  | registering : Typed id A .registering
  | completed {value : Erased} (flows : value.Flows types (.value A)) :
      Typed id A (.completed value)
  | parked {stack : List (Frame σ)} {B : Ty} (own : types.Fiber id B)
      (stack_typed : StackTyped custody types (.value A) (.value B) stack) :
      Typed id A (.parked stack)
  | resumed : Typed id A .resumed
  | abandoned : Typed id A .abandoned

/-- Everything in a heap has a type that fits. -/
structure Heap.Fits (heap : Heap σ) : Prop where
  fibers : ∀ id fiber, heap.fiber? id = some fiber →
    ∃ A, types.Fiber id A ∧ fiber.Typed custody types A
  suspensions : ∀ callback suspension, heap.suspension? callback = some suspension →
    ∃ A, types.Callback callback A ∧ suspension.state.Typed custody types suspension.fiber A
  mailboxes : ∀ (mailbox : MailboxId) box, heap.mailboxes[mailbox.index]? = some box →
    ∃ A, types.Mailbox mailbox A ∧ ∀ exit, box.slot = some exit → types.HoldsExit A exit
  timers : ∀ timer ∈ heap.timers,
    ∃ A, types.Callback timer.callback A ∧ timer.value.Flows types (.value A)
  tasks : ∀ id executor, heap.executor? id = some executor →
    ∀ task ∈ executor.waiting.toList, task.batch.Typed custody types
  world : custody.holds types heap.world

/-- A heap in which everything that was handed out has its type, and nothing else. -/
structure Heap.Typed (heap : Heap σ) : Prop extends heap.Fits custody types where
  fiberCount : types.fibers.length = heap.fibers.size
  callbackCount : types.callbacks.length = heap.suspensions.size
  mailboxCount : types.mailboxes.length = heap.mailboxes.size

/-- What a loop is about to do comes to what flows to its frames. -/
inductive Focus.Typed : Flow → Focus σ → Prop where
  | node {flow : Flow} {current : Node σ} (current_typed : current.Typed custody types flow) :
      Typed flow (.node current)
  | value {flow : Flow} {value : Erased} (flows : value.Flows types flow) :
      Typed flow (.value value)
  | cause {flow : Flow} (cause : Cause) : Typed flow (.cause cause)
  | thunk {flow : Flow} {code : Code σ Erased}
      (code_typed : code.Typed custody Erased.Flows types flow) : Typed flow (.thunk code)
  | raising {flow : Flow} {code : Code σ Cause}
      (code_typed : code.Typed custody Anything types ()) : Typed flow (.raising code)
  | building {flow : Flow} {code : Code σ (Node σ)}
      (code_typed : code.Typed custody (Node.Typed custody) types flow) :
      Typed flow (.building code)
  | registering {A : Ty} {callback : CallbackId} {code : Code σ Unit}
      (own : types.Callback callback A) (code_typed : code.Typed custody Anything types ()) :
      Typed (.value A) (.registering callback code)

inductive Activation.Typed : Activation σ → Prop where
  | program {code : Code σ Unit} (code_typed : code.Typed custody Anything types ()) :
      Typed (.program code)
  | callback {code : Code σ Unit} (code_typed : code.Typed custody Anything types ()) :
      Typed (.callback code)
  | posting {mailbox : MailboxId} {exit : Exit Erased} {A : Ty} (own : types.Mailbox mailbox A)
      (holds : types.HoldsExit A exit) : Typed (.posting mailbox exit)
  | opening (mailbox : MailboxId) : Typed (.opening mailbox)
  | loop {id : FiberId} {focus : Focus σ} {stack : List (Frame σ)} {A : Ty} {via : Flow}
      (own : types.Fiber id A) (focus_typed : focus.Typed custody types via)
      (stack_typed : StackTyped custody types via (.value A) stack) :
      Typed (.loop id focus stack)
  | notifying {exit : Exit Erased} {observers : List (Observer σ)} {A : Ty}
      (holds : types.HoldsExit A exit)
      (observers_typed : ∀ observer ∈ observers, observer.Typed custody types A) :
      Typed (.notifying exit observers)
  | draining {outer : Option (Queue (Batch σ))}
      (outer_typed : ∀ queue ∈ outer, ∀ batch ∈ queue.toList, batch.Typed custody types) :
      Typed (.draining outer)

structure Thread.Typed (thread : Thread σ) : Prop where
  control : ∀ activation ∈ thread.control, activation.Typed custody types
  pending : ∀ queue ∈ thread.pending, ∀ batch ∈ queue.toList, batch.Typed custody types

/-- A heap and a thread that works on it. -/
structure Machine.Typed (after : Heap σ × Thread σ) : Prop where
  heap : after.1.Typed custody types
  thread : after.2.Typed custody types

end

variable {custody : Custody σ} {types types' : Typing} {heap : Heap σ} {thread : Thread σ}
  {A : Ty} {id : FiberId}

/-! ### More handles -/

theorem Observer.Typed.mono {observer : Observer σ} (h : observer.Typed custody types A)
    (le : types ≤ types') : observer.Typed custody types' A := by
  cases h with
  | resume takes => exact .resume (takes.mono le)
  | call callback => exact .call (callback.mono le)
  | answer takes => exact .answer (takes.mono le)

theorem Progress.Typed.mono {progress : Progress σ} (h : progress.Typed custody types A)
    (le : types ≤ types') : progress.Typed custody types' A := by
  cases h with
  | running observers => exact .running fun observer mem => (observers observer mem).mono le
  | done holds => exact .done (holds.mono le)

theorem FiberState.Typed.mono {fiber : FiberState σ} (h : fiber.Typed custody types A)
    (le : types ≤ types') : fiber.Typed custody types' A where
  seed effect seed := (h.seed effect seed).mono le
  progress := h.progress.mono le
  environments environment mem := (h.environments environment mem).mono le

theorem Batch.Typed.mono {batch : Batch σ} (h : batch.Typed custody types) (le : types ≤ types') :
    batch.Typed custody types' := by
  obtain ⟨A, via, own, current, stack⟩ := h
  exact ⟨A, via, own.mono le, current.mono le, stack.mono le⟩

theorem Rendezvous.Typed.mono {state : Rendezvous σ} (h : state.Typed custody types id A)
    (le : types ≤ types') : state.Typed custody types' id A := by
  cases h with
  | registering => exact .registering
  | completed flows => exact .completed (flows.mono le)
  | parked own stack => exact .parked (own.mono le) (stack.mono le)
  | resumed => exact .resumed
  | abandoned => exact .abandoned

theorem Focus.Typed.mono {focus : Focus σ} {flow : Flow} (h : focus.Typed custody types flow)
    (le : types ≤ types') : focus.Typed custody types' flow := by
  cases h with
  | node current => exact .node (current.mono le)
  | value flows => exact .value (flows.mono le)
  | cause cause => exact .cause cause
  | thunk code => exact .thunk (code.later Erased.Flows.mono le)
  | raising code => exact .raising (code.later (fun _ _ => trivial) le)
  | building code => exact .building (code.later Node.Typed.mono le)
  | registering own code =>
    exact .registering (own.mono le) (code.later (fun _ _ => trivial) le)

theorem Activation.Typed.mono {activation : Activation σ} (h : activation.Typed custody types)
    (le : types ≤ types') : activation.Typed custody types' := by
  cases h with
  | program code => exact .program (code.later (fun _ _ => trivial) le)
  | callback code => exact .callback (code.later (fun _ _ => trivial) le)
  | posting own holds => exact .posting (own.mono le) (holds.mono le)
  | opening mailbox => exact .opening mailbox
  | loop own focus stack => exact .loop (own.mono le) (focus.mono le) (stack.mono le)
  | notifying holds observers =>
    exact .notifying (holds.mono le) fun observer mem => (observers observer mem).mono le
  | draining outer =>
    exact .draining fun queue mem batch mem' => (outer queue mem batch mem').mono le

theorem Thread.Typed.mono (h : thread.Typed custody types) (le : types ≤ types') :
    thread.Typed custody types' where
  control activation mem := (h.control activation mem).mono le
  pending queue mem batch mem' := (h.pending queue mem batch mem').mono le

/-! ### Threads -/

theorem Thread.Typed.push {activation : Activation σ} (h : thread.Typed custody types)
    (own : activation.Typed custody types) : (thread.push activation).Typed custody types where
  control other mem := by
    rcases List.mem_cons.mp mem with rfl | mem
    · exact own
    · exact h.control other mem
  pending := h.pending

theorem Thread.Typed.raise (h : thread.Typed custody types) (payload : Payload) :
    (thread.raise payload).Typed custody types := ⟨h.control, h.pending⟩

theorem Thread.Typed.setPanicking (h : thread.Typed custody types) (panicking : Option Payload) :
    Thread.Typed custody types { thread with panicking := panicking } := ⟨h.control, h.pending⟩

theorem Batch.Typed.loop {batch : Batch σ} (h : batch.Typed custody types) :
    Activation.Typed custody types (.loop batch.fiber (.node batch.current) batch.stack) := by
  obtain ⟨A, via, own, current, stack⟩ := h
  exact .loop own (.node current) stack

theorem Thread.Typed.run {task : Task σ} (h : thread.Typed custody types)
    (own : task.batch.Typed custody types) : (thread.run task).Typed custody types := by
  unfold Thread.run
  split
  next queue _ pending =>
    refine ⟨h.control, fun queue' mem batch mem' => ?_⟩
    cases mem
    rw [Queue.toList_push, List.mem_append, List.mem_singleton] at mem'
    rcases mem' with mem' | rfl
    · exact h.pending queue pending batch mem'
    · exact own
  next =>
    refine ⟨fun activation mem => ?_, fun queue mem batch mem' => ?_⟩
    · rcases List.mem_cons.mp mem with rfl | mem
      · exact own.loop
      · rcases List.mem_cons.mp mem with rfl | mem
        · exact .draining h.pending
        · exact h.control activation mem
    · cases mem
      cases mem'

/-! ### Heaps -/

namespace Heap.Typed

/-- Only some parts of a heap have types. -/
theorem of_tables {heap' : Heap σ} (h : heap.Typed custody types)
    (fibers : heap'.fibers = heap.fibers) (suspensions : heap'.suspensions = heap.suspensions)
    (mailboxes : heap'.mailboxes = heap.mailboxes) (executors : heap'.executors = heap.executors)
    (timers : ∀ timer ∈ heap'.timers,
      ∃ A, types.Callback timer.callback A ∧ timer.value.Flows types (.value A))
    (world : custody.holds types heap'.world) : heap'.Typed custody types := by
  obtain ⟨world', executors', fibers', suspensions', mailboxes', timers', now, defects, level,
    events⟩ := heap'
  cases fibers
  cases suspensions
  cases mailboxes
  cases executors
  exact ⟨⟨h.fibers, h.suspensions, h.mailboxes, timers, h.tasks, world⟩, h.fiberCount,
    h.callbackCount, h.mailboxCount⟩

theorem report (h : heap.Typed custody types) (thread : ThreadId) (severity : Severity)
    (event : Unit → Event) : (heap.report thread severity event).Typed custody types := by
  unfold Heap.report
  split
  · exact h.of_tables rfl rfl rfl rfl h.timers h.world
  · exact h

theorem noteDefect (h : heap.Typed custody types) (thread : ThreadId) (payload : Payload) :
    (heap.noteDefect thread payload).Typed custody types := by
  have counted : Heap.Typed custody types { heap with defects := heap.defects + 1 } :=
    h.of_tables rfl rfl rfl rfl h.timers h.world
  exact counted.report _ _ _

/-- A fiber is there at the type of its handles. -/
theorem fiber (h : heap.Typed custody types) {fiber : FiberState σ} (own : types.Fiber id A)
    (present : heap.fiber? id = some fiber) : fiber.Typed custody types A := by
  obtain ⟨B, other, typed⟩ := h.fibers id fiber present
  cases own.unique other
  exact typed

theorem suspension (h : heap.Typed custody types) {callback : CallbackId}
    {suspension : Suspension σ} (own : types.Callback callback A)
    (present : heap.suspension? callback = some suspension) :
    suspension.state.Typed custody types suspension.fiber A := by
  obtain ⟨B, other, typed⟩ := h.suspensions callback suspension present
  cases own.unique other
  exact typed

theorem environments (h : heap.Typed custody types) (id : FiberId) :
    ∀ environment ∈ heap.environments id, environment.Held types := by
  rw [Heap.environments]
  split
  next fiber present =>
    obtain ⟨A, _, typed⟩ := h.fibers id fiber present
    exact typed.environments
  next => simp

theorem poll (h : heap.Typed custody types) (own : types.Fiber id A) {exit : Exit Erased}
    (ended : heap.poll id = some exit) : types.HoldsExit A exit := by
  obtain ⟨fiber, present, ended⟩ := Heap.poll_eq_some_iff.mp ended
  have progress := (h.fiber own present).progress
  rw [FiberState.exit?] at ended
  split at ended
  next done =>
    cases ended
    rw [done] at progress
    cases progress with
    | done holds => exact holds
  next => cases ended

theorem slot (h : heap.Typed custody types) {mailbox : MailboxId} (own : types.Mailbox mailbox A)
    {exit : Exit Erased} (there : heap.slot mailbox = some exit) : types.HoldsExit A exit := by
  rw [Heap.slot] at there
  split at there
  next box present =>
    obtain ⟨B, other, holds⟩ := h.mailboxes mailbox box present
    cases own.unique other
    exact holds exit there
  next => cases there

theorem updateFiber (h : heap.Typed custody types) (id : FiberId)
    (f : FiberState σ → FiberState σ)
    (typed : ∀ A fiber, types.Fiber id A → fiber.Typed custody types A →
      (f fiber).Typed custody types A) : (heap.updateFiber id f).Typed custody types where
  fiberCount := by rw [h.fiberCount, Heap.updateFiber, Array.size_modify]
  callbackCount := h.callbackCount
  mailboxCount := h.mailboxCount
  fibers other fiber present := by
    rw [Heap.fiber?, Heap.fibers_updateFiber] at present
    split at present
    next same =>
      obtain ⟨before, there, rfl⟩ := Option.map_eq_some_iff.mp present
      obtain ⟨A, own, before_typed⟩ := h.fibers other before there
      refine ⟨A, own, typed A before ?_ before_typed⟩
      rw [Typing.Fiber, same]
      exact own
    next => exact h.fibers other fiber present
  suspensions := h.suspensions
  mailboxes := h.mailboxes
  timers := h.timers
  tasks := h.tasks
  world := h.world

theorem updateFlags (h : heap.Typed custody types) (id : FiberId)
    (f : InterruptFlags → InterruptFlags) : (heap.updateFlags id f).Typed custody types :=
  h.updateFiber id _ fun _ _ _ typed => ⟨typed.seed, typed.progress, typed.environments⟩

theorem setExecutor (h : heap.Typed custody types) (id : FiberId) (executor : ExecutorId) :
    (heap.setExecutor id executor).Typed custody types :=
  h.updateFiber id _ fun _ _ _ typed => ⟨typed.seed, typed.progress, typed.environments⟩

theorem enterScope (h : heap.Typed custody types) (id : FiberId) {environment : Erased}
    (held : environment.Held types) : (heap.enterScope id environment).Typed custody types := by
  refine h.updateFiber id _ fun _ _ _ typed => ⟨typed.seed, typed.progress, fun other mem => ?_⟩
  rcases List.mem_cons.mp mem with rfl | mem
  · exact held
  · exact typed.environments other mem

theorem leaveScope (h : heap.Typed custody types) (id : FiberId) :
    (heap.leaveScope id).Typed custody types :=
  h.updateFiber id _ fun _ _ _ typed =>
    ⟨typed.seed, typed.progress, fun other mem =>
      typed.environments other (List.mem_of_mem_tail mem)⟩

theorem setRendezvous (h : heap.Typed custody types) (callback : CallbackId)
    (state : Rendezvous σ)
    (typed : ∀ A suspension, heap.suspension? callback = some suspension →
      types.Callback callback A → state.Typed custody types suspension.fiber A) :
    (heap.setRendezvous callback state).Typed custody types where
  fiberCount := h.fiberCount
  callbackCount := by rw [h.callbackCount, Heap.setRendezvous, Array.size_modify]
  mailboxCount := h.mailboxCount
  fibers := h.fibers
  suspensions other suspension present := by
    rw [Heap.suspension?_setRendezvous] at present
    split at present
    next same =>
      obtain rfl := CallbackId.ext_index same
      obtain ⟨before, there, rfl⟩ := Option.map_eq_some_iff.mp present
      obtain ⟨A, own, _⟩ := h.suspensions callback before there
      exact ⟨A, own, typed A before there own⟩
    next => exact h.suspensions other suspension present
  mailboxes := h.mailboxes
  timers := h.timers
  tasks := h.tasks
  world := h.world

theorem updateMailbox (h : heap.Typed custody types) (mailbox : MailboxId)
    (f : Mailbox → Mailbox)
    (typed : ∀ A box, types.Mailbox mailbox A →
      (∀ exit, box.slot = some exit → types.HoldsExit A exit) →
      ∀ exit, (f box).slot = some exit → types.HoldsExit A exit) :
    (heap.updateMailbox mailbox f).Typed custody types where
  fiberCount := h.fiberCount
  callbackCount := h.callbackCount
  mailboxCount := by rw [h.mailboxCount, Heap.updateMailbox, Array.size_modify]
  fibers := h.fibers
  suspensions := h.suspensions
  mailboxes other box present := by
    rw [Heap.updateMailbox, Array.getElem?_modify] at present
    split at present
    next same =>
      obtain ⟨before, there, rfl⟩ := Option.map_eq_some_iff.mp present
      obtain ⟨A, own, holds⟩ := h.mailboxes other before there
      refine ⟨A, own, typed A before ?_ holds⟩
      rw [Typing.Mailbox, same]
      exact own
    next => exact h.mailboxes other box present
  timers := h.timers
  tasks := h.tasks
  world := h.world

/-- The tasks of an executor change for others that are well typed. -/
theorem updateExecutor (h : heap.Typed custody types) (id : ExecutorId)
    {f : Executor σ → Executor σ}
    (typed : ∀ executor, heap.executor? id = some executor →
      ∀ task ∈ (f executor).waiting.toList, task.batch.Typed custody types) :
    Heap.Typed custody types { heap with executors := heap.executors.modify id.index f } where
  fiberCount := h.fiberCount
  callbackCount := h.callbackCount
  mailboxCount := h.mailboxCount
  fibers := h.fibers
  suspensions := h.suspensions
  mailboxes := h.mailboxes
  timers := h.timers
  tasks other executor present := by
    rw [Heap.executor?, Array.getElem?_modify] at present
    split at present
    next same =>
      obtain ⟨before, there, rfl⟩ := Option.map_eq_some_iff.mp present
      refine typed before ?_
      rw [Heap.executor?, same]
      exact there
    next => exact h.tasks other executor present
  world := h.world

theorem waiting (h : heap.Typed custody types) (id : ExecutorId) :
    ∀ task ∈ (heap.waiting id).toList, task.batch.Typed custody types := by
  rw [Heap.waiting]
  split
  next executor present => exact h.tasks id executor present
  next => simp [Queue.toList]

theorem setWaiting (h : heap.Typed custody types) (id : ExecutorId) (waiting : Queue (Task σ))
    (typed : ∀ task ∈ waiting.toList, task.batch.Typed custody types) :
    (heap.setWaiting id waiting).Typed custody types :=
  h.updateExecutor id fun _ _ => typed

theorem enqueue (h : heap.Typed custody types) (id : ExecutorId) {task : Task σ}
    (own : task.batch.Typed custody types) : (heap.enqueue id task).Typed custody types := by
  refine h.updateExecutor id fun executor present other mem => ?_
  rw [Queue.toList_push, List.mem_append, List.mem_singleton] at mem
  rcases mem with mem | rfl
  · exact h.tasks id executor present other mem
  · exact own

/-- A new executor has no tasks. -/
theorem engage (h : heap.Typed custody types) {executor : Executor σ}
    (empty : executor.waiting.toList = []) :
    Heap.Typed custody types { heap with executors := heap.executors.push executor } := by
  refine ⟨⟨h.fibers, h.suspensions, h.mailboxes, h.timers, fun id other present task mem => ?_,
    h.world⟩, h.fiberCount, h.callbackCount, h.mailboxCount⟩
  rw [Heap.executor?, Array.getElem?_push] at present
  split at present
  next =>
    cases present
    rw [empty] at mem
    cases mem
  next => exact h.tasks id other present task mem

theorem modifyWorld (h : heap.Typed custody types) {state : σ}
    (kept : custody.holds types state) :
    Heap.Typed custody types { heap with world := state } :=
  h.of_tables rfl rfl rfl rfl h.timers kept

theorem addTimer (h : heap.Typed custody types) {timer : Timer}
    (own : types.Callback timer.callback A) (flows : timer.value.Flows types (.value A)) :
    Heap.Typed custody types { heap with timers := timer :: heap.timers } := by
  refine h.of_tables rfl rfl rfl rfl (fun other mem => ?_) h.world
  rcases List.mem_cons.mp mem with rfl | mem
  · exact ⟨A, own, flows⟩
  · exact h.timers other mem

end Heap.Typed

/-! ### New handles -/

namespace Typing

def addFiber (types : Typing) (A : Ty) : Typing := { types with fibers := types.fibers ++ [A] }

def addCallback (types : Typing) (A : Ty) : Typing :=
  { types with callbacks := types.callbacks ++ [A] }

def addMailbox (types : Typing) (A : Ty) : Typing :=
  { types with mailboxes := types.mailboxes ++ [A] }

theorem le_addFiber (types : Typing) (A : Ty) : types ≤ types.addFiber A :=
  ⟨List.prefix_append _ _, List.prefix_rfl, List.prefix_rfl⟩

theorem le_addCallback (types : Typing) (A : Ty) : types ≤ types.addCallback A :=
  ⟨List.prefix_rfl, List.prefix_append _ _, List.prefix_rfl⟩

theorem le_addMailbox (types : Typing) (A : Ty) : types ≤ types.addMailbox A :=
  ⟨List.prefix_rfl, List.prefix_rfl, List.prefix_append _ _⟩

end Typing

/-- What fits still fits when more has been handed out. -/
theorem Heap.Fits.mono (h : heap.Fits custody types) (le : types ≤ types') :
    heap.Fits custody types' where
  fibers id fiber present := by
    obtain ⟨A, own, typed⟩ := h.fibers id fiber present
    exact ⟨A, own.mono le, typed.mono le⟩
  suspensions callback suspension present := by
    obtain ⟨A, own, typed⟩ := h.suspensions callback suspension present
    exact ⟨A, own.mono le, typed.mono le⟩
  mailboxes mailbox box present := by
    obtain ⟨A, own, holds⟩ := h.mailboxes mailbox box present
    exact ⟨A, own.mono le, fun exit there => (holds exit there).mono le⟩
  timers timer mem := by
    obtain ⟨A, own, flows⟩ := h.timers timer mem
    exact ⟨A, own.mono le, flows.mono le⟩
  tasks id executor present task mem := (h.tasks id executor present task mem).mono le
  world := custody.mono h.world le

/-- A new handle gets the type that it is handed out with. -/
theorem Typing.getElem?_concat {before : List Ty} {index size : Nat} (count : before.length = size)
    (new : index = size) (A : Ty) : (before ++ [A])[index]? = some A := by
  rw [new, ← count, List.getElem?_concat_length]

namespace Heap.Typed

theorem fiber_nextFiber (h : heap.Typed custody types) (A : Ty) :
    (types.addFiber A).Fiber heap.nextFiber A :=
  Typing.getElem?_concat h.fiberCount rfl A

theorem callback_nextCallback (h : heap.Typed custody types) (A : Ty) :
    (types.addCallback A).Callback heap.nextCallback A :=
  Typing.getElem?_concat h.callbackCount rfl A

theorem mailbox_nextMailbox (h : heap.Typed custody types) (A : Ty) :
    (types.addMailbox A).Mailbox heap.nextMailbox A :=
  Typing.getElem?_concat h.mailboxCount rfl A

theorem addFiber (h : heap.Typed custody types) {fiber : FiberState σ}
    (own : fiber.Typed custody (types.addFiber A) A) :
    (heap.addFiber fiber).Typed custody (types.addFiber A) := by
  have fits := h.toFits.mono (types.le_addFiber A)
  refine ⟨⟨fun id other present => ?_, fits.suspensions, fits.mailboxes, fits.timers, fits.tasks,
    fits.world⟩, ?_, h.callbackCount, h.mailboxCount⟩
  · rw [Heap.fiber?, Heap.addFiber, Array.getElem?_push] at present
    split at present
    next new =>
      cases present
      exact ⟨A, Typing.getElem?_concat h.fiberCount new A, own⟩
    next => exact fits.fibers id other present
  · simp [Typing.addFiber, Heap.addFiber, h.fiberCount]

theorem addSuspension (h : heap.Typed custody types) (id : FiberId) (A : Ty) :
    (heap.addSuspension id).Typed custody (types.addCallback A) := by
  have fits := h.toFits.mono (types.le_addCallback A)
  refine ⟨⟨fits.fibers, fun callback suspension present => ?_, fits.mailboxes, fits.timers,
    fits.tasks, fits.world⟩, h.fiberCount, ?_, h.mailboxCount⟩
  · rw [Heap.suspension?, Heap.addSuspension, Array.getElem?_push] at present
    split at present
    next new =>
      cases present
      exact ⟨A, Typing.getElem?_concat h.callbackCount new A, .registering⟩
    next => exact fits.suspensions callback suspension present
  · simp [Typing.addCallback, Heap.addSuspension, h.callbackCount]

theorem addMailbox (h : heap.Typed custody types) (A : Ty) :
    heap.addMailbox.Typed custody (types.addMailbox A) := by
  have fits := h.toFits.mono (types.le_addMailbox A)
  refine ⟨⟨fits.fibers, fits.suspensions, fun mailbox box present => ?_, fits.timers, fits.tasks,
    fits.world⟩, h.fiberCount, h.callbackCount, ?_⟩
  · rw [Heap.addMailbox, Array.getElem?_push] at present
    split at present
    next new =>
      cases present
      exact ⟨A, Typing.getElem?_concat h.mailboxCount new A, nofun⟩
    next => exact fits.mailboxes mailbox box present
  · simp [Typing.addMailbox, Heap.addMailbox, h.mailboxCount]

end Heap.Typed

end Fibers
