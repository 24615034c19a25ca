import Fibers.Proofs.Machine.Answer
import Fibers.Proofs.Machine.Arrival
import Fibers.Proofs.Machine.Typing

/-!
# Steps of well typed machines

## Main results

`Machine.typed_step`: a step of a thread keeps a machine well typed. It may hand out one more fiber,
at the type of its effect, or one more callback or mailbox.

## Proof strategy

One lemma for each operation of the machine, by its cases; the types change only where something is
made, and then everything else keeps its type (`mono`).
-/

namespace Fibers

variable {σ : Type} {custody : Custody σ} {types types' : Typing} {heap : Heap σ}
  {thread : Thread σ} {A : Ty} {id : FiberId}

/-! ### Operations that hand out nothing -/

namespace Machine

theorem typed_execute (heap_typed : heap.Typed custody types)
    (thread_typed : thread.Typed custody types) (executor : ExecutorId) {task : Task σ}
    (own : task.batch.Typed custody types) :
    Machine.Typed custody types (execute heap thread executor task) := by
  unfold execute
  split
  · exact ⟨heap_typed, thread_typed⟩
  · exact ⟨heap_typed, thread_typed.run own⟩
  · exact ⟨heap_typed.enqueue executor own, thread_typed⟩
  · exact ⟨heap_typed, thread_typed⟩
  · exact ⟨heap_typed, thread_typed.raise _⟩

theorem typed_start (heap_typed : heap.Typed custody types)
    (thread_typed : thread.Typed custody types) (id : FiberId) (root : Bool) :
    Machine.Typed custody types (start heap thread id root) := by
  unfold start
  split
  next progress flags environments executor effect present =>
    obtain ⟨A, own, typed⟩ := heap_typed.fibers id _ present
    have seedless := heap_typed.updateFiber id (fun fiber => { fiber with seed := none })
      fun _ _ _ typed => ⟨nofun, typed.progress, typed.environments⟩
    exact typed_execute (seedless.report _ _ _) thread_typed _
      ⟨A, .value A, own, typed.seed effect rfl, .nil⟩
  next => exact ⟨heap_typed, thread_typed⟩

theorem typed_resume (heap_typed : heap.Typed custody types)
    (thread_typed : thread.Typed custody types) {value : Erased} {stack : List (Frame σ)}
    {via : Flow} (own : types.Fiber id A) (flows : value.Flows types via)
    (stack_typed : StackTyped custody types via (.value A) stack) :
    Machine.Typed custody types (resume heap thread id value stack) := by
  have task : Batch.Typed custody types ⟨id, .succeed value, stack⟩ :=
    ⟨A, via, own, .succeed flows, stack_typed⟩
  have reported := heap_typed.report thread.id .trace fun _ => .fiberResumed id stack.length
  unfold resume
  dsimp only
  split
  · exact typed_execute reported thread_typed _ task
  · exact ⟨reported, thread_typed.run task⟩

theorem typed_completeCallback (heap_typed : heap.Typed custody types)
    (thread_typed : thread.Typed custody types) {callback : CallbackId} {value : Erased}
    (own : types.Callback callback A) (flows : value.Flows types (.value A)) :
    Machine.Typed custody types (completeCallback heap thread callback value) := by
  unfold completeCallback
  split
  · refine ⟨heap_typed.setRendezvous _ _ fun B _ _ other => ?_, thread_typed⟩
    cases own.unique other
    exact .completed flows
  next fiber stack present =>
    cases heap_typed.suspension own present with
    | parked fiber_own stack_typed =>
      exact typed_resume (heap_typed.setRendezvous _ _ fun _ _ _ _ => .resumed) thread_typed
        fiber_own
        flows stack_typed
  · exact ⟨heap_typed, thread_typed⟩

theorem typed_completeFiber (heap_typed : heap.Typed custody types)
    (thread_typed : thread.Typed custody types) {exit : Exit Erased} (own : types.Fiber id A)
    (holds : types.HoldsExit A exit) :
    Machine.Typed custody types (completeFiber heap thread id exit) := by
  unfold completeFiber
  split
  next observers flags environments executor seed present =>
    have ended := heap_typed.updateFiber id (fun fiber => { fiber with progress := .done exit })
      fun B _ other typed => by
        cases own.unique other
        exact ⟨typed.seed, .done holds, typed.environments⟩
    refine ⟨ended.report thread.id .debug fun _ =>
      .fiberCompleted id exit.isSuccess observers.length, thread_typed.push ?_⟩
    cases (heap_typed.fiber own present).progress with
    | running observers_typed => exact .notifying holds observers_typed
  next => exact ⟨heap_typed, thread_typed.raise _⟩

theorem typed_observe (heap_typed : heap.Typed custody types)
    (thread_typed : thread.Typed custody types) {observer : Observer σ} (own : types.Fiber id A)
    (observer_typed : observer.Typed custody types A) :
    Machine.Typed custody types (observe heap thread id observer) := by
  unfold observe
  split
  next observers _ _ _ _ present =>
    refine ⟨heap_typed.updateFiber id _ fun B fiber other typed => ?_, thread_typed⟩
    cases own.unique other
    obtain ⟨progress, flags, environments, executor, seed⟩ := fiber
    cases typed.progress with
    | running observers_typed =>
      refine ⟨typed.seed, .running fun other mem => ?_, typed.environments⟩
      rw [List.mem_append, List.mem_singleton] at mem
      rcases mem with mem | rfl
      · exact observers_typed other mem
      · exact observer_typed
    | done => exact typed
  next exit _ _ _ _ present =>
    refine ⟨heap_typed, thread_typed.push ?_⟩
    cases (heap_typed.fiber own present).progress with
    | done holds =>
      refine .notifying holds fun other mem => ?_
      cases List.mem_singleton.mp mem
      exact observer_typed
  next => exact ⟨heap_typed, thread_typed⟩

theorem typed_notify (heap_typed : heap.Typed custody types)
    (thread_typed : thread.Typed custody types) {exit : Exit Erased}
    (holds : types.HoldsExit A exit) {observer : Observer σ}
    (observer_typed : observer.Typed custody types A) :
    Machine.Typed custody types (notify heap thread exit observer) := by
  cases observer_typed with
  | resume takes =>
    exact typed_completeCallback heap_typed thread_typed takes (.value holds.recover)
  | call callback =>
    cases callback with
    | ofCode runs =>
      have run_typed := runs types _ (Typing.le_refl _) holds.recover
      exact ⟨heap_typed, thread_typed.push (.callback run_typed)⟩
  | answer takes =>
    refine ⟨heap_typed, thread_typed.push (.posting takes ?_)⟩
    rw [holds.erase_recover]
    exact holds

theorem typed_requestInterrupt (heap_typed : heap.Typed custody types) (thread : Thread σ)
    (id : FiberId) : (requestInterrupt heap thread id).Typed custody types := by
  unfold requestInterrupt
  split
  · dsimp only
    split
    · exact heap_typed.updateFlags _ _
    · exact (heap_typed.updateFlags _ _).report _ _ _
  · exact heap_typed

end Machine

/-! ### Operations that hand out something -/

/-- A machine is well typed after a step, with whatever has been handed out; a fiber that was made,
with its first batch, has the type of its effect. -/
def Machine.TypedAfter (custody : Custody σ) (types : Typing) (made : Option (Batch σ))
    (after : Heap σ × Thread σ) : Prop :=
  ∃ types', types ≤ types' ∧ Machine.Typed custody types' after ∧ ∀ batch, made = some batch →
    ∃ A, batch.current.Typed custody types (.value A) ∧ types'.Fiber batch.fiber A

namespace Machine

theorem Typed.after {after : Heap σ × Thread σ} (h : Machine.Typed custody types after) :
    Machine.TypedAfter custody types none after :=
  ⟨types, Typing.le_refl _, h, nofun⟩

/-- A root fiber is made at the type of its effect. -/
theorem typed_newRoot (heap_typed : heap.Typed custody types) (executor : ExecutorId)
    {root : Node σ} (root_typed : root.Typed custody types (.value A))
    (observers : List (Observer σ))
    (observers_typed : ∀ observer ∈ observers, observer.Typed custody types A) :
    (newRoot heap executor root observers).Typed custody (types.addFiber A) := by
  have le := types.le_addFiber A
  refine heap_typed.addFiber ⟨fun effect seed => ?_, ?_, nofun⟩
  · cases seed
    exact root_typed.mono le
  · exact .running fun observer mem => (observers_typed observer mem).mono le

/-- The root fiber of an effect that is started gets the type of the effect. -/
theorem typed_perform_starts {α ι : Type} {results : Typing → ι → α → Prop} {i : ι}
    {keep : Code σ α → Activation σ} {code : Code σ α} {effect : Node σ}
    (heap_typed : heap.Typed custody types) (thread_typed : thread.Typed custody types)
    (effect_typed : effect.Typed custody types (.value A))
    (starts : code.Starts custody results types i A effect)
    (kept : ∀ types' rest, types ≤ types' → Action.Typed custody results types' i rest →
      (keep rest).Typed custody types') :
    ∃ types' root, types ≤ types' ∧ Machine.Typed custody types' (perform heap thread keep code) ∧
      code.root? heap = some ⟨root, effect, []⟩ ∧ types'.Fiber root A := by
  cases starts with
  | @launch executor _ rest =>
    have le := types.le_addFiber A
    have own := heap_typed.fiber_nextFiber A
    have made := typed_newRoot heap_typed executor effect_typed [] nofun
    have going := kept _ _ le (rest _ _ le own)
    exact ⟨types.addFiber A, heap.nextFiber, le,
      typed_start made ((thread_typed.mono le).push going) _ true, rfl, own⟩
  | @launchWith executor callback _ callback_typed rest =>
    have le := types.le_addFiber A
    have own := heap_typed.fiber_nextFiber A
    have made := typed_newRoot heap_typed executor effect_typed [.call callback]
      fun observer mem => by
      cases List.mem_singleton.mp mem
      exact .call callback_typed
    have going := kept _ _ le (rest _ _ le own)
    exact ⟨types.addFiber A, heap.nextFiber, le,
      typed_start made ((thread_typed.mono le).push going) _ true, rfl, own⟩
  | @submit executor _ rest =>
    -- The mailbox is there before the fiber is, and one of its observers.
    have le := types.le_addMailbox A
    have le' := (types.addMailbox A).le_addFiber A
    have whole := Typing.le_trans le le'
    have boxed := heap_typed.addMailbox A
    have takes := heap_typed.mailbox_nextMailbox A
    have own := boxed.fiber_nextFiber A
    have made := typed_newRoot boxed executor (effect_typed.mono le) [.answer A heap.nextMailbox]
      fun observer mem => by
        cases List.mem_singleton.mp mem
        exact .answer takes
    have going := kept _ _ whole (rest _ _ whole (takes.mono le'))
    exact ⟨_, heap.addMailbox.nextFiber, whole,
      typed_start made ((thread_typed.mono whole).push going) _ true, rfl, own⟩

/-- Carrying out a request of well typed code leaves well typed code. -/
theorem typed_perform {α ι : Type} {results : Typing → ι → α → Prop} {i : ι}
    {keep : Code σ α → Activation σ} {code : Code σ α} (heap_typed : heap.Typed custody types)
    (thread_typed : thread.Typed custody types) (code_typed : code.Typed custody results types i)
    (kept : ∀ types' rest, types ≤ types' → Action.Typed custody results types' i rest →
      (keep rest).Typed custody types') :
    Machine.TypedAfter custody types (code.root? heap) (perform heap thread keep code) := by
  have here : ∀ rest, Action.Typed custody results types i rest →
      (thread.push (keep rest)).Typed custody types :=
    fun rest rest_typed => thread_typed.push (kept types rest (Typing.le_refl _) rest_typed)
  -- The requests that make a root fiber do so alike.
  have started : ∀ {A : Ty} {effect : Node σ}, effect.Typed custody types (.value A) →
      code.Starts custody results types i A effect →
      Machine.TypedAfter custody types (code.root? heap) (perform heap thread keep code) := by
    intro A effect effect_typed starts
    obtain ⟨types', root, le, after, root_eq, own⟩ :=
      typed_perform_starts heap_typed thread_typed effect_typed starts kept
    refine ⟨types', le, after, fun batch same => ?_⟩
    cases root_eq.symm.trans same
    exact ⟨A, effect_typed, own⟩
  cases code_typed with
  | done good => exact Typed.after ⟨heap_typed, here _ (.done good)⟩
  | panic payload => exact Typed.after ⟨heap_typed, (here _ (.panic payload)).raise payload⟩
  | get rest =>
    exact Typed.after ⟨heap_typed, here _ (rest types _ (Typing.le_refl _) heap_typed.world)⟩
  | modify keeps rest =>
    have world := keeps types _ (Typing.le_refl _) heap_typed.world
    exact Typed.after ⟨heap_typed.modifyWorld world, here _ rest⟩
  | complete own flows rest =>
    exact (typed_completeCallback heap_typed (here _ rest) own flows).after
  | completeLater own flows rest =>
    exact Typed.after ⟨heap_typed.addTimer own flows, here _ rest⟩
  | observe own takes rest =>
    exact (typed_observe heap_typed (here _ rest) own (.resume takes)).after
  | poll own rest =>
    refine Typed.after ⟨heap_typed, here _ (rest types _ (Typing.le_refl _) ?_)⟩
    exact fun exit ended => heap_typed.poll own ended
  | interrupt rest =>
    exact Typed.after ⟨typed_requestInterrupt heap_typed _ _, here _ rest⟩
  | launch effect_typed rest => exact started effect_typed (.launch rest)
  | launchWith effect_typed callback_typed rest =>
    exact started effect_typed (.launchWith callback_typed rest)
  | submit effect_typed rest => exact started effect_typed (.submit rest)
  | @wait _ _ mailbox deadline A next own rest =>
    simp only [perform]
    split
    -- The answer is the slot, the time is up, or the wait goes on.
    · refine Typed.after ⟨heap_typed, here _ (rest types _ (Typing.le_refl _) ?_)⟩
      exact fun exit there => heap_typed.slot own (Waited.opened.inj there)
    · split
      · exact Typed.after ⟨heap_typed, here _ (rest types _ (Typing.le_refl _) (by rintro _ ⟨⟩))⟩
      · exact Typed.after ⟨heap_typed, here _ (.wait own rest)⟩
  | @runTask _ _ executor newest next rest =>
    simp only [perform]
    split
    next task left popped =>
      have waiting := heap_typed.waiting executor
      -- Whichever end the task is taken from, it is one of those that wait.
      have split : task.batch.Typed custody types ∧
          ∀ other ∈ left.toList, other.batch.Typed custody types := by
        rw [Queue.pop?] at popped
        split at popped
        · rw [Queue.toList_of_popBack? popped] at waiting
          exact ⟨waiting task (by simp), fun other mem => waiting other (by simp [mem])⟩
        · rw [Queue.toList_of_popFront? popped] at waiting
          exact ⟨waiting task (by simp), fun other mem => waiting other (by simp [mem])⟩
      exact Typed.after ⟨heap_typed.setWaiting executor left split.2,
        (here _ (rest true)).run split.1⟩
    next => exact Typed.after ⟨heap_typed, here _ (rest false)⟩
  | discardTasks rest =>
    exact Typed.after ⟨heap_typed.setWaiting _ _ (by rintro _ ⟨⟩), here _ (rest _)⟩
  | threadName rest => exact Typed.after ⟨heap_typed, here _ (rest _)⟩
  | clock rest => exact Typed.after ⟨heap_typed, here _ (rest _)⟩
  | @report _ _ event next rest =>
    exact Typed.after ⟨heap_typed.report thread.id event.severity fun _ => event, here _ rest⟩

/-! ### Loops -/

variable {focus : Focus σ} {stack : List (Frame σ)} {via : Flow}

theorem typed_refocus (thread_typed : thread.Typed custody types) (own : types.Fiber id A)
    (focus_typed : focus.Typed custody types via)
    (stack_typed : StackTyped custody types via (.value A) stack) :
    (refocus thread id focus stack).Typed custody types :=
  thread_typed.push (.loop own focus_typed stack_typed)

/-- The child gets the environments of its parent, and a type of its own. -/
theorem typed_fork (heap_typed : heap.Typed custody types)
    (thread_typed : thread.Typed custody types) {effect : Node σ} {B : Ty} (own : types.Fiber id A)
    (effect_typed : effect.Typed custody types (.value B))
    (stack_typed : StackTyped custody types (.child B) (.value A) stack) :
    Machine.Typed custody (types.addFiber B) (fork heap thread id effect stack) := by
  have le := types.le_addFiber B
  have child := heap_typed.fiber_nextFiber B
  have newborn : FiberState.Typed custody (types.addFiber B) B
      { environments := heap.environments id, executor := heap.executorOf id,
        seed := some effect } :=
    ⟨fun _ seed => Option.some.inj seed ▸ effect_typed.mono le, .running nofun,
      fun environment mem => (heap_typed.environments id environment mem).mono le⟩
  have made := heap_typed.addFiber newborn
  have parent := typed_refocus (thread_typed.mono le) (own.mono le) (.value (.child child))
    (stack_typed.mono le)
  exact typed_start (made.report _ _ _) parent _ false

/-- The frame of a region forgets the value of what ends it. -/
theorem typed_region (stack_typed : StackTyped custody types via (.value A) stack)
    {restorer : Node σ} (restorer_typed : restorer.Typed custody types (.value .unit)) :
    StackTyped custody types via (.value A) (.fold (.finalizer restorer) :: stack) :=
  .cons (.fold (.finalizer restorer_typed)) stack_typed

/-- The first batch of the fiber that a node makes. -/
def forked? (heap : Heap σ) : Node σ → Option (Batch σ)
  | .fork effect => some ⟨heap.nextFiber, effect, []⟩
  | _ => none

/-- Interpreting a node hands on what the node says. -/
theorem typed_interpret (heap_typed : heap.Typed custody types)
    (thread_typed : thread.Typed custody types) {current : Node σ} (own : types.Fiber id A)
    (current_typed : current.Typed custody types via)
    (stack_typed : StackTyped custody types via (.value A) stack) :
    Machine.TypedAfter custody types (forked? heap current)
      (interpret heap thread id stack current) := by
  have goes : ∀ {focus : Focus σ} {flow : Flow} {stack : List (Frame σ)},
      focus.Typed custody types flow → StackTyped custody types flow (.value A) stack →
      (refocus thread id focus stack).Typed custody types :=
    fun focus_typed stack_typed => typed_refocus thread_typed own focus_typed stack_typed
  cases current_typed with
  | succeed flows => exact Typed.after ⟨heap_typed, goes (.value flows) stack_typed⟩
  | sync code =>
    exact Typed.after ⟨heap_typed, goes (.thunk (code types (Typing.le_refl _))) stack_typed⟩
  | @flatMap _ _ _ effect continuation effect_typed continuation_typed =>
    have pushed := goes (.node effect_typed) (.cons (.apply continuation_typed) stack_typed)
    exact Typed.after
      ⟨heap_typed.report _ .trace fun _ => .continuationPushed id (stack.length + 1),
      pushed⟩
  | @async _ B register code =>
    -- The new callback takes what the effect is to result in.
    have le := types.le_addCallback B
    have callback := heap_typed.callback_nextCallback B
    refine ⟨types.addCallback B, le, ⟨heap_typed.addSuspension id B, ?_⟩, nofun⟩
    exact typed_refocus (thread_typed.mono le) (own.mono le)
      (.registering callback (code _ _ le callback)) (stack_typed.mono le)
  | @fork _ B effect effect_typed =>
    -- The new fiber ends with what the effect results in.
    refine ⟨types.addFiber B, types.le_addFiber B,
      typed_fork heap_typed thread_typed own effect_typed stack_typed, fun batch same => ?_⟩
    cases same
    exact ⟨B, effect_typed, heap_typed.fiber_nextFiber B⟩
  | fail code =>
    exact Typed.after ⟨heap_typed, goes (.raising (code types (Typing.le_refl _))) stack_typed⟩
  | @fold _ _ _ effect handler effect_typed handler_typed =>
    have pushed := goes (.node effect_typed) (.cons (.fold handler_typed) stack_typed)
    exact Typed.after ⟨heap_typed.report _ .trace fun _ => .handlerPushed id (stack.length + 1),
      pushed⟩
  | shift executor =>
    have moved := (heap_typed.setExecutor id executor).report thread.id .trace fun _ =>
      .executorShifted id (heap.executorName executor)
    exact (typed_execute moved thread_typed executor
      ⟨A, .value .unit, own, Node.typed_unit, stack_typed⟩).after
  | withStatus effect_typed status =>
    exact Typed.after ⟨heap_typed.updateFlags id (·.setStatus status),
      goes (.node effect_typed) (typed_region stack_typed (.restoreStatus _))⟩
  | provide effect_typed held =>
    exact Typed.after ⟨heap_typed.enterScope id held,
      goes (.node effect_typed) (typed_region stack_typed .leaveScope)⟩
  | @access _ R _ continuation continuation_typed =>
    simp only [interpret]
    split
    next environment outer provided =>
      have held := heap_typed.environments id environment (provided ▸ List.mem_cons_self)
      refine Typed.after ⟨heap_typed, goes (.building ?_) stack_typed⟩
      -- The innermost environment may be of any type; the continuation refuses the others.
      by_cases same : environment.type = R
      · exact continuation_typed.applyTo (same ▸ held.flows)
      · exact continuation_typed.applyTo_other same
    next => exact Typed.after ⟨heap_typed, goes (.cause _) stack_typed⟩
  | restoreStatus status =>
    exact Typed.after ⟨heap_typed.updateFlags id (·.setStatus status),
      goes (.value (.value trivial)) stack_typed⟩
  | leaveScope =>
    exact Typed.after ⟨heap_typed.leaveScope id, goes (.value (.value trivial)) stack_typed⟩

/-- The effect that an interruption pushes aside is a frame that hands on what it did. -/
theorem typed_beginInterruption (heap_typed : heap.Typed custody types)
    (thread_typed : thread.Typed custody types) {current : Node σ} (own : types.Fiber id A)
    (current_typed : current.Typed custody types via)
    (stack_typed : StackTyped custody types via (.value A) stack) :
    Machine.Typed custody types (beginInterruption heap thread id stack current) := by
  have frames : StackTyped custody types (.value .unit) (.value A)
      (.apply (.constant current) :: stack) := .cons (.apply (.constant current_typed)) stack_typed
  exact ⟨(heap_typed.updateFlags id _).report thread.id .debug fun _ =>
      .interruptionTakingEffect id current.kind,
    typed_refocus thread_typed own (.node (Node.typed_failNow _)) frames⟩

theorem typed_deliver (heap_typed : heap.Typed custody types)
    (thread_typed : thread.Typed custody types) {value : Erased} (own : types.Fiber id A)
    (flows : value.Flows types via) (stack_typed : StackTyped custody types via (.value A) stack) :
    Machine.Typed custody types (deliver heap thread id value stack) := by
  cases stack_typed with
  | nil => exact typed_completeFiber heap_typed thread_typed own (.success flows)
  | @cons _ _ _ frame stack frame_typed rest =>
    exact ⟨heap_typed.report thread.id .trace fun _ => .continuationPopped id stack.length,
      typed_refocus thread_typed own (.building (frame_typed.resume flows)) rest⟩

theorem typed_fail (heap_typed : heap.Typed custody types)
    (thread_typed : thread.Typed custody types) (cause : Cause) (own : types.Fiber id A)
    (stack_typed : StackTyped custody types via (.value A) stack) :
    Machine.Typed custody types (fail heap thread id cause stack) := by
  unfold fail
  split
  next handler rest found =>
    obtain ⟨_, _, handler_typed, rest_typed⟩ := stack_typed.unwind found
    exact ⟨heap_typed, typed_refocus thread_typed own (.building (handler_typed.recover cause))
      rest_typed⟩
  next =>
    exact typed_completeFiber heap_typed thread_typed own (Typing.holdsExit_failure types A cause)

/-- The frames that wait for a callback come to what the fiber of its suspension does. -/
theorem typed_park (heap_typed : heap.Typed custody types)
    (thread_typed : thread.Typed custody types) {callback : CallbackId} {B : Ty}
    {state : Rendezvous σ} (own : types.Fiber id A) (takes : types.Callback callback B)
    (stack_typed : StackTyped custody types (.value B) (.value A) stack)
    (present : heap.suspension? callback = some ⟨id, state⟩) :
    Machine.Typed custody types (park heap thread id callback stack) := by
  unfold park
  split
  next value completed =>
    cases heap_typed.suspension takes completed with
    | completed flows =>
      exact ⟨heap_typed.setRendezvous _ _ fun _ _ _ _ => .resumed,
        typed_refocus thread_typed own (.value flows) stack_typed⟩
  next =>
    have parked := heap_typed.setRendezvous callback (.parked stack)
      fun C suspension there other => by
        cases present.symm.trans there
        cases takes.unique other
        exact .parked own stack_typed
    exact ⟨parked.report thread.id .trace fun _ => .fiberSuspended id, thread_typed⟩

/-- A defect that stands in for an effect may be handed on by any frames. -/
theorem typed_unwindLoop (heap_typed : heap.Typed custody types)
    (thread_typed : thread.Typed custody types) (payload : Payload) (own : types.Fiber id A)
    (focus_typed : focus.Typed custody types via)
    (stack_typed : StackTyped custody types via (.value A) stack) :
    Machine.Typed custody types (unwindLoop heap thread payload id stack focus) := by
  have noted := heap_typed.noteDefect thread.id payload
  have calm := thread_typed.setPanicking none
  cases focus_typed with
  | node | value | cause => exact ⟨heap_typed, thread_typed⟩
  | thunk | raising => exact ⟨noted, typed_refocus calm own (.cause _) stack_typed⟩
  | building => exact ⟨noted, typed_refocus calm own (.node (Node.typed_failNow _)) stack_typed⟩
  | registering =>
    exact ⟨noted.setRendezvous _ _ fun _ _ _ _ => .abandoned,
      typed_refocus calm own (.cause _) stack_typed⟩

end Machine

/-- The first batch of the fiber that an activation makes in its next step: a child, or the root
fiber that its user code asks for. -/
def Activation.born? (heap : Heap σ) (activation : Activation σ) : Option (Batch σ) :=
  match activation with
  | .loop id (.node current) _ =>
    if heap.shouldInterrupt id then none else Machine.forked? heap current
  | _ => activation.root? heap

namespace Machine

variable {focus : Focus σ} {stack : List (Frame σ)} {via : Flow}

theorem typed_requests {α ι : Type} {results : Typing → ι → α → Prop} {i : ι}
    {activation : Activation σ} {keep : Code σ α → Activation σ} {code : Code σ α}
    (holds : activation.Holds keep code) (going : code.isOver = false)
    (heap_typed : heap.Typed custody types) (thread_typed : thread.Typed custody types)
    (code_typed : code.Typed custody results types i)
    (kept : ∀ types' rest, types ≤ types' → Action.Typed custody results types' i rest →
      (keep rest).Typed custody types') :
    Machine.TypedAfter custody types (activation.born? heap) (advance heap thread activation) := by
  have same : activation.born? heap = code.root? heap := by cases holds <;> rfl
  rw [advance_of_holds holds going, same]
  exact typed_perform heap_typed thread_typed code_typed kept

/-- User code of a loop makes a request, or hands on what it ends with, or its panic becomes a
defect. -/
theorem typed_loop (heap_typed : heap.Typed custody types)
    (thread_typed : thread.Typed custody types) (own : types.Fiber id A)
    (focus_typed : focus.Typed custody types via)
    (stack_typed : StackTyped custody types via (.value A) stack)
    (meets : ∀ callback code, focus = .registering callback code →
      ∃ state, heap.suspension? callback = some ⟨id, state⟩) :
    Machine.TypedAfter custody types (Activation.born? heap (.loop id focus stack))
      (advance heap thread (.loop id focus stack)) := by
  have goes : ∀ {focus : Focus σ}, focus.Typed custody types via →
      (refocus thread id focus stack).Typed custody types :=
    fun focus_typed => typed_refocus thread_typed own focus_typed stack_typed
  have unwinds : ∀ {focus : Focus σ} (payload : Payload), focus.Typed custody types via →
      Machine.Typed custody types (unwindLoop heap thread payload id stack focus) :=
    fun payload focus_typed =>
      typed_unwindLoop heap_typed thread_typed payload own focus_typed stack_typed
  cases focus_typed with
  | node current_typed =>
    simp only [advance, stepLoop, Activation.born?]
    split
    · exact (typed_beginInterruption heap_typed thread_typed own current_typed stack_typed).after
    · exact typed_interpret heap_typed thread_typed own current_typed stack_typed
  | value flows => exact (typed_deliver heap_typed thread_typed own flows stack_typed).after
  | cause cause => exact (typed_fail heap_typed thread_typed cause own stack_typed).after
  | @thunk _ code code_typed =>
    rcases code.done_or_panics_or_goes with ⟨value, rfl⟩ | ⟨payload, rfl⟩ | going
    · cases code_typed with
      | done flows => exact Typed.after ⟨heap_typed, goes (.value flows)⟩
    · exact (unwinds payload (.thunk code_typed)).after
    · exact typed_requests (.thunk id code stack) going heap_typed thread_typed code_typed
        fun _ _ le rest => .loop (own.mono le) (.thunk rest) (stack_typed.mono le)
  | @raising _ code code_typed =>
    rcases code.done_or_panics_or_goes with ⟨cause, rfl⟩ | ⟨payload, rfl⟩ | going
    · exact Typed.after ⟨heap_typed, goes (.cause cause)⟩
    · exact (unwinds payload (.raising code_typed)).after
    · exact typed_requests (.raising id code stack) going heap_typed thread_typed code_typed
        fun _ _ le rest => .loop (own.mono le) (.raising rest) (stack_typed.mono le)
  | @building _ code code_typed =>
    rcases code.done_or_panics_or_goes with ⟨next, rfl⟩ | ⟨payload, rfl⟩ | going
    · cases code_typed with
      | done next_typed => exact Typed.after ⟨heap_typed, goes (.node next_typed)⟩
    · exact (unwinds payload (.building code_typed)).after
    · exact typed_requests (.building id code stack) going heap_typed thread_typed code_typed
        fun _ _ le rest => .loop (own.mono le) (.building rest) (stack_typed.mono le)
  | @registering B callback code takes code_typed =>
    rcases code.done_or_panics_or_goes with ⟨result, rfl⟩ | ⟨payload, rfl⟩ | going
    -- The registration has returned, so the frames are kept with its suspension.
    · obtain ⟨state, present⟩ := meets callback _ rfl
      exact (typed_park heap_typed thread_typed own takes stack_typed present).after
    · exact (unwinds payload (.registering takes code_typed)).after
    · exact typed_requests (.registering id callback code stack) going heap_typed thread_typed
        code_typed fun _ _ le rest =>
          .loop (own.mono le) (.registering (takes.mono le) rest) (stack_typed.mono le)

/-! ### Threads -/

/-- The step of an activation, which has been taken off its thread. -/
theorem typed_advance {activation : Activation σ} (heap_typed : heap.Typed custody types)
    (thread_typed : thread.Typed custody types)
    (activation_typed : activation.Typed custody types)
    (meets : ∀ id callback code stack, activation = .loop id (.registering callback code) stack →
      ∃ state, heap.suspension? callback = some ⟨id, state⟩) :
    Machine.TypedAfter custody types (activation.born? heap) (advance heap thread activation) := by
  have same : Machine.TypedAfter custody types none (heap, thread) :=
    Typed.after ⟨heap_typed, thread_typed⟩
  cases activation_typed with
  | @program code code_typed =>
    cases code with
    | done => exact same
    | _ => exact typed_perform heap_typed thread_typed code_typed fun _ _ _ rest => .program rest
  | @callback code code_typed =>
    cases code with
    | done => exact same
    | _ => exact typed_perform heap_typed thread_typed code_typed fun _ _ _ rest => .callback rest
  | @posting mailbox exit A own holds =>
    -- A mailbox takes exits of one type only, so this one may stand in its slot.
    have filled := heap_typed.updateMailbox mailbox
      (fun box => { box with slot := some exit }) fun B box other _ exit' there => by
        cases own.unique other
        cases there
        exact holds
    exact Typed.after ⟨filled, thread_typed.push (.opening mailbox)⟩
  | opening mailbox =>
    have opened := heap_typed.updateMailbox mailbox
      (fun box => { box with latch := box.latch.countDown }) fun _ _ _ holds => holds
    exact Typed.after ⟨opened, thread_typed⟩
  | loop own focus_typed stack_typed =>
    exact typed_loop heap_typed thread_typed own focus_typed stack_typed fun callback code same =>
      meets _ callback code _ (by rw [same])
  | @notifying exit observers A holds observers_typed =>
    cases observers with
    | nil => exact same
    | cons observer rest =>
      have left := thread_typed.push (.notifying holds fun other mem =>
        observers_typed other (List.mem_cons_of_mem _ mem))
      exact (typed_notify heap_typed left holds (observers_typed observer List.mem_cons_self)).after
  | @draining outer outer_typed =>
    simp only [advance, Activation.born?, Activation.root?]
    split
    next batch rest popped =>
      obtain ⟨queue, pending, front⟩ := Option.bind_eq_some_iff.mp popped
      have queued := thread_typed.pending queue pending
      rw [Queue.toList_of_popFront? front] at queued
      -- The batches that are left were queued before.
      have left : Thread.Typed custody types { thread with pending := some rest } := by
        refine ⟨thread_typed.control, fun other mem batch' mem' => ?_⟩
        cases mem
        exact queued batch' (List.mem_cons_of_mem _ mem')
      exact Typed.after ⟨heap_typed,
        (left.push (.draining outer_typed)).push (queued batch List.mem_cons_self).loop⟩
    next => exact Typed.after ⟨heap_typed, thread_typed.control, outer_typed⟩

theorem typed_takePanic {activation : Activation σ} (heap_typed : heap.Typed custody types)
    (thread_typed : thread.Typed custody types)
    (activation_typed : activation.Typed custody types) (payload : Payload) :
    Machine.Typed custody types (takePanic heap thread payload activation) := by
  have noted := heap_typed.noteDefect thread.id payload
  cases activation_typed with
  | program | notifying => exact ⟨heap_typed, thread_typed⟩
  | callback | posting | opening => exact ⟨noted, thread_typed.setPanicking none⟩
  | loop own focus_typed stack_typed =>
    exact typed_unwindLoop heap_typed thread_typed payload own focus_typed stack_typed
  | draining outer_typed => exact ⟨heap_typed, thread_typed.control, outer_typed⟩

/-- A step of a thread keeps the machine well typed. -/
theorem typed_step (heap_typed : heap.Typed custody types)
    (thread_typed : thread.Typed custody types)
    (meets : ∀ id callback code stack,
      thread.next? = some (.loop id (.registering callback code) stack) →
      ∃ state, heap.suspension? callback = some ⟨id, state⟩) :
    Machine.TypedAfter custody types (thread.next?.bind (Activation.born? heap))
      (step heap thread) := by
  obtain ⟨thread_id, name, role, pending, control, panicking⟩ := thread
  cases control with
  | nil =>
    cases panicking with
    | none => exact Typed.after ⟨heap_typed, thread_typed⟩
    | some payload =>
      refine Typed.after ?_
      simp only [step, crash]
      split
      next _ index =>
        exact ⟨heap_typed.report thread_id .error fun _ => .taskPanicked index payload.text,
          thread_typed.setPanicking none⟩
      next => exact ⟨heap_typed, thread_typed⟩
  | cons activation rest =>
    have left : Thread.Typed custody types ⟨thread_id, name, role, pending, rest, panicking⟩ :=
      ⟨fun other mem => thread_typed.control other (List.mem_cons_of_mem _ mem),
        thread_typed.pending⟩
    have own := thread_typed.control activation List.mem_cons_self
    cases panicking with
    | none =>
      exact typed_advance heap_typed left own fun id callback code stack same =>
        meets id callback code stack (congrArg some same)
    | some payload => exact (typed_takePanic heap_typed left own payload).after

/-- A program that starts an effect, in its next step. -/
theorem typed_step_starts {code : Code σ Unit} {effect : Node σ}
    (heap_typed : heap.Typed custody types) (thread_typed : thread.Typed custody types)
    (next : thread.next? = some (.program code))
    (effect_typed : effect.Typed custody types (.value A))
    (starts : code.Starts custody Anything types () A effect) :
    ∃ types' root, types ≤ types' ∧ Machine.Typed custody types' (step heap thread) ∧
      code.root? heap = some ⟨root, effect, []⟩ ∧ types'.Fiber root A := by
  obtain ⟨calm, rest, control⟩ := Thread.next?_eq_some_iff.mp next
  have left : Thread.Typed custody types { thread with control := rest } :=
    ⟨fun other mem => thread_typed.control other (control ▸ List.mem_cons_of_mem _ mem),
      thread_typed.pending⟩
  have going : code.isOver = false := by cases starts <;> rfl
  rw [step_of_next? heap calm control, advance_of_holds (.program code) going]
  exact typed_perform_starts heap_typed left effect_typed starts fun _ _ _ rest => .program rest

end Machine

/-! ### Steps that make a fiber -/

/-- An answer leaves other code than it came to. -/
theorem Action.answered_ne_self {ν κ α : Type} (code : Action ν κ σ α) (answer : Answer σ) :
    code.answered answer ≠ some code := by
  -- What an answer left as it was would have to be a part of itself.
  induction code
  case done | panic => exact nofun
  all_goals
    rename_i ih
    intro same
    have left := same
    cases answer
    all_goals first
      | cases left
      | replace left := Option.some.inj left
        exact ih _ (by rw [left]; exact same)

namespace Machine

/-- Code that starts a root fiber goes on under the loop of that fiber, if this is run at once. -/
theorem exists_begun_of_root {α : Type} {code : Code σ α} {batch : Batch σ}
    (root : code.root? heap = some batch) (thread : Thread σ) (keep : Code σ α → Activation σ) :
    ∃ begun answer rest, code.answered answer = some rest ∧
      (perform heap thread keep code).2.control = begun ++ keep rest :: thread.control := by
  have started (heap : Heap σ) (rest : Code σ α) (executor : ExecutorId) (effect : Node σ)
      (observers : List (Observer σ)) :
      ∃ begun, (start (newRoot heap executor effect observers) (thread.push (keep rest))
        heap.nextFiber true).2.control = begun ++ keep rest :: thread.control := by
    let root : FiberState σ :=
      { progress := .running observers, environments := [], executor := executor,
        seed := some effect }
    have seeded : root.seed = some effect := rfl
    obtain ⟨begun, control, _⟩ :=
      (executes_start heap (thread.push (keep rest)) seeded true).control.control
    exact ⟨begun, control⟩
  cases code with
  | launch executor effect next =>
    obtain ⟨begun, control⟩ := started heap (next heap.nextFiber) executor effect []
    exact ⟨begun, .fiber heap.nextFiber, _, rfl, control⟩
  | launchWith executor effect callback next =>
    obtain ⟨begun, control⟩ := started heap (next heap.nextFiber) executor effect [.call callback]
    exact ⟨begun, .fiber heap.nextFiber, _, rfl, control⟩
  | submit executor effect type next =>
    obtain ⟨begun, control⟩ := started heap.addMailbox (next heap.nextMailbox) executor effect
      [.answer type heap.nextMailbox]
    exact ⟨begun, .mailbox heap.nextMailbox, _, rfl, control⟩
  | _ => cases root

/-- What makes a fiber has changed by that. -/
theorem exists_begun_of_born {activation : Activation σ} {batch : Batch σ}
    (born : activation.born? heap = some batch) (thread : Thread σ) :
    ∃ begun activation', activation' ≠ activation ∧
      (advance heap thread activation).2.control = begun ++ activation' :: thread.control := by
  -- Code that makes a root fiber goes on with other code, an answer being part of it.
  have code {α : Type} {keep : Code σ α → Activation σ} {code : Code σ α}
      (holds : activation.Holds keep code) (injective : Function.Injective keep)
      (root : code.root? heap = some batch) :
      ∃ begun activation', activation' ≠ activation ∧
        (advance heap thread activation).2.control = begun ++ activation' :: thread.control := by
    obtain ⟨begun, answer, rest, next, control⟩ := exists_begun_of_root root thread keep
    have going : code.isOver = false := by cases code <;> first | rfl | cases root
    refine ⟨begun, keep rest, ?_, by rw [advance_of_holds holds going, control]⟩
    have same : activation = keep code := by cases holds <;> rfl
    rintro back
    rw [same] at back
    exact code.answered_ne_self answer (injective back ▸ next)
  cases activation with
  | program own => exact code (.program own) (fun _ _ => Activation.program.inj) born
  | callback own => exact code (.callback own) (fun _ _ => Activation.callback.inj) born
  | loop id focus stack =>
    cases focus with
    | node current =>
      simp only [Activation.born?] at born
      split at born
      next => cases born
      next undue =>
        cases current with
        | fork effect =>
          obtain ⟨event, reported, child, rfl, next, seed, _, _, forked⟩ :=
            exists_fork_eq heap thread id effect stack
          obtain ⟨begun, control, _⟩ := (executes_start (heap.report thread.id .debug event)
            (refocus thread id (.value ⟨.context,
              (heap.report thread.id .debug event).nextFiber⟩) stack) seed false).control.control
          have forks : advance heap thread (.loop id (.node (.fork effect)) stack) =
              fork heap thread id effect stack := by
            simp only [advance, stepLoop, undue, interpret]
            rfl
          rw [forks, forked]
          refine ⟨begun, .loop id (.value ⟨.context, _⟩) stack, ?_, control⟩
          rintro ⟨⟩
        | _ => cases born
    | thunk own => exact code (.thunk id own stack) (fun _ _ => by simp) born
    | raising own => exact code (.raising id own stack) (fun _ _ => by simp) born
    | building own => exact code (.building id own stack) (fun _ _ => by simp) born
    | registering callback own =>
      exact code (.registering id callback own stack) (fun _ _ => by simp) born
    | _ => cases born
  | _ => cases born

/-- A step that makes a fiber changes its thread. -/
theorem step_ne_of_born {batch : Batch σ}
    (born : thread.next?.bind (Activation.born? heap) = some batch) :
    (step heap thread).2 ≠ thread := by
  obtain ⟨activation, next, born⟩ := Option.bind_eq_some_iff.mp born
  obtain ⟨calm, rest, control⟩ := Thread.next?_eq_some_iff.mp next
  obtain ⟨begun, activation', differs, after⟩ :=
    exists_begun_of_born born { thread with control := rest }
  intro same
  rw [← step_of_next? heap calm control, same, control] at after
  cases begun with
  | nil => exact differs (List.cons.inj after).1.symm
  | cons first others =>
    have lengths := congrArg List.length after
    simp only [List.length_append, List.length_cons] at lengths
    omega

end Machine

end Fibers
