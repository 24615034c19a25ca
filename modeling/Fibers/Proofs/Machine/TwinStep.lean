import Fibers.Proofs.Machine.Request
import Fibers.Proofs.Machine.Twin

/-!
# Steps of twins

Twin threads do the same to twin heaps, as long as what they do does not depend on the places in
which they differ.

## Main results

`Machine.twin_step`: if the innermost loops of twin threads do the same, so do the threads.
`Machine.lockstep_level`: loops with the same focus do the same above different frames, until they
reach these.

## Proof strategy

One lemma for each operation of the machine. `Matching.Coherent` says what is needed of the places
that stand for each other: a fiber that waits at both is resumed at both, and a panic in the middle
of a request ends both or is caught at both. -/

namespace Fibers

variable {σ : Type}

/-- The callback whose registration a loop runs. -/
def Focus.registering? : Focus σ → Option CallbackId
  | .registering callback _ => some callback
  | _ => none

/-- A loop that runs a registration runs that of a suspension of its own fiber. -/
def Focus.Owns (id : FiberId) (heap : Heap σ) (focus : Focus σ) : Prop :=
  ∀ callback, focus.registering? = some callback →
    ∃ state, heap.suspension? callback = some ⟨id, state⟩

/-- What happens to a place from outside happens to its twin. -/
structure Matching.Coherent (twins : Matching σ) : Prop where
  refl : ∀ id place, twins id place place
  resumed : ∀ {id callback stack stack'},
    twins id (.suspended callback stack) (.suspended callback stack') → ∀ value,
      twins id (.active (.node (.succeed value)) stack) (.active (.node (.succeed value)) stack')
  registering : ∀ {id focus focus' stack stack'},
    twins id (.active focus stack) (.active focus' stack') →
      focus'.registering? = focus.registering?
  caught : ∀ {id focus focus' stack stack'},
    twins id (.active focus stack) (.active focus' stack') → ∀ payload,
      Option.Rel (fun next next' => twins id (.active next stack) (.active next' stack'))
        (focus.caught payload) (focus'.caught payload)

theorem Matching.Coherent.flip {twins : Matching σ} (h : twins.Coherent) : twins.flip.Coherent where
  refl := h.refl
  resumed := fun place value => h.resumed place value
  registering := fun place => (h.registering place).symm
  caught := fun place payload => rel_flip (h.caught place payload) fun _ _ place => place

theorem Activation.twin_refl {twins : Matching σ} (coherent : twins.Coherent)
    (activation : Activation σ) : activation.Twin twins activation := by
  have queues (queue : Queue (Batch σ)) : queue.Twin (Batch.Twin twins) queue :=
    queue_twin_refl (fun batch => ⟨rfl, coherent.refl _ _⟩) queue
  cases activation with
  | loop => exact .loop (coherent.refl _ _)
  | draining outer => exact .draining (rel_refl queues outer)
  | program | callback | posting | opening | notifying => constructor

namespace Machine

/-- Twin heaps and twin threads. -/
structure Twin (twins : Matching σ) (after after' : Heap σ × Thread σ) : Prop where
  heap : after.1.Twin twins after'.1
  thread : after.2.Twin twins after'.2

variable {twins : Matching σ} {heap heap' : Heap σ} {thread thread' : Thread σ} {id : FiberId}

/-! ### Handing work around -/

theorem twin_execute (heaps : heap.Twin twins heap') (threads : thread.Twin twins thread')
    (executor : ExecutorId) {task task' : Task σ} (tasks : task.Twin twins task') :
    Twin twins (execute heap thread executor task) (execute heap' thread' executor task') := by
  have same := heaps.executor? executor
  unfold execute
  generalize heap.executor? executor = state, heap'.executor? executor = state' at same ⊢
  cases same with
  | none => exact ⟨heaps, threads⟩
  | @some state state' same =>
    obtain ⟨name, discipline, waiting⟩ := state
    obtain ⟨name', discipline', waiting'⟩ := state'
    cases same.discipline
    cases discipline with
    | inline => exact ⟨heaps, threads.run tasks⟩
    | hold => exact ⟨heaps.enqueue executor tasks, threads⟩
    | discard => exact ⟨heaps, threads⟩
    | refuse payload => exact ⟨heaps, threads.raise payload⟩

theorem twin_start (heaps : heap.Twin twins heap') (threads : thread.Twin twins thread')
    (own : FiberId.ofIndex id.index = id) (root : Bool) :
    Twin twins (start heap thread id root) (start heap' thread' id root) := by
  have same := heaps.fiber? id
  unfold start
  generalize heap.fiber? id = fiber, heap'.fiber? id = fiber' at same ⊢
  cases same with
  | none => exact ⟨heaps, threads⟩
  | @some fiber fiber' same =>
    obtain ⟨progress, flags, environments, executor, seed⟩ := fiber
    obtain ⟨progress', flags', environments', executor', seed'⟩ := fiber'
    cases same.executor
    have seeds := same.seed
    dsimp only at seeds
    cases seeds with
    | none => exact ⟨heaps, threads⟩
    | some place =>
      have started := (heaps.updateFiber id (f := fun fiber => { fiber with seed := none })
        fun _ _ same => { same with seed := .none }).report thread.id .debug fun _ =>
          .fiberStarted id (heap.executorName executor)
      dsimp only
      rw [threads.id, heaps.executorName_eq]
      exact twin_execute started threads executor ⟨⟨rfl, own ▸ place⟩, rfl⟩

theorem twin_newRoot (coherent : twins.Coherent) (heaps : heap.Twin twins heap')
    (executor : ExecutorId) (effect : Node σ) (observers : List (Observer σ)) :
    (newRoot heap executor effect observers).Twin twins
      (newRoot heap' executor effect observers) :=
  heaps.addFiber ⟨rfl, rfl, rfl, rfl, .some (coherent.refl _ _)⟩

theorem twin_resume (heaps : heap.Twin twins heap') (threads : thread.Twin twins thread')
    {value : Erased} {stack stack' : List (Frame σ)}
    (place : twins id (.active (.node (.succeed value)) stack)
      (.active (.node (.succeed value)) stack')) :
    Twin twins (resume heap thread id value stack) (resume heap' thread' id value stack') := by
  have told : (heap.report thread.id .trace fun _ => .fiberResumed id stack.length).Twin twins
      (heap'.report thread.id .trace fun _ => .fiberResumed id stack'.length) :=
    heaps.of_counts (Heap.counts_report _ _ _ rfl) (Heap.counts_report _ _ _ rfl)
  have tasks : Task.Twin twins ⟨⟨id, .succeed value, stack⟩, false⟩
      ⟨⟨id, .succeed value, stack'⟩, false⟩ := ⟨⟨rfl, place⟩, rfl⟩
  have pending := threads.pending
  unfold resume
  rw [threads.id]
  dsimp only
  generalize thread.pending = queue, thread'.pending = queue' at pending ⊢
  cases pending with
  | none => exact ⟨told, threads.run tasks⟩
  | some =>
    rw [told.executorOf_eq]
    exact twin_execute told threads _ tasks

theorem twin_completeCallback (coherent : twins.Coherent) (heaps : heap.Twin twins heap')
    (threads : thread.Twin twins thread') (callback : CallbackId) (value : Erased) :
    Twin twins (completeCallback heap thread callback value)
      (completeCallback heap' thread' callback value) := by
  have same := heaps.suspension? callback
  unfold completeCallback
  generalize present : heap.suspension? callback = suspension,
    heap'.suspension? callback = suspension' at same ⊢
  cases same with
  | none => exact ⟨heaps, threads⟩
  | @some suspension suspension' same =>
    obtain ⟨fiber, state⟩ := suspension
    obtain ⟨fiber', state'⟩ := suspension'
    cases same.fiber
    have states := same.state
    dsimp only at states
    cases states with
    | registering => exact ⟨heaps.setRendezvous callback fun _ _ => .completed value, threads⟩
    | parked place =>
      exact twin_resume (heaps.setRendezvous callback fun _ _ => .resumed) threads
        (coherent.resumed place value)
    | completed | resumed | abandoned => exact ⟨heaps, threads⟩

theorem twin_completeFiber (heaps : heap.Twin twins heap') (threads : thread.Twin twins thread')
    (id : FiberId) (exit : Exit Erased) :
    Twin twins (completeFiber heap thread id exit) (completeFiber heap' thread' id exit) := by
  have same := heaps.fiber? id
  unfold completeFiber
  generalize heap.fiber? id = fiber, heap'.fiber? id = fiber' at same ⊢
  cases same with
  | none => exact ⟨heaps, threads.raise _⟩
  | @some fiber fiber' same =>
    obtain ⟨progress, flags, environments, executor, seed⟩ := fiber
    obtain ⟨progress', flags', environments', executor', seed'⟩ := fiber'
    cases same.progress
    cases progress with
    | running observers =>
      dsimp only
      rw [threads.id]
      have ended := heaps.updateFiber id (f := fun fiber => { fiber with progress := .done exit })
        fun _ _ same => { same with progress := rfl }
      exact ⟨ended.report thread.id .debug fun _ =>
          .fiberCompleted id exit.isSuccess observers.length,
        threads.push (.notifying exit observers)⟩
    | done other => exact ⟨heaps, threads.raise _⟩

theorem twin_observe (heaps : heap.Twin twins heap') (threads : thread.Twin twins thread')
    (id : FiberId) (observer : Observer σ) :
    Twin twins (observe heap thread id observer) (observe heap' thread' id observer) := by
  have same := heaps.fiber? id
  unfold observe
  generalize heap.fiber? id = fiber, heap'.fiber? id = fiber' at same ⊢
  cases same with
  | none => exact ⟨heaps, threads⟩
  | @some fiber fiber' same =>
    obtain ⟨progress, flags, environments, executor, seed⟩ := fiber
    obtain ⟨progress', flags', environments', executor', seed'⟩ := fiber'
    cases same.progress
    cases progress with
    | running observers =>
      refine ⟨heaps.updateFiber id fun first first' same => ?_, threads⟩
      rw [same.progress]
      split
      · exact { same with progress := rfl }
      · exact same
    | done exit => exact ⟨heaps, threads.push (.notifying exit [observer])⟩

theorem twin_notify (coherent : twins.Coherent) (heaps : heap.Twin twins heap')
    (threads : thread.Twin twins thread') (exit : Exit Erased) (observer : Observer σ) :
    Twin twins (notify heap thread exit observer) (notify heap' thread' exit observer) := by
  cases observer with
  | resume type callback => exact twin_completeCallback coherent heaps threads callback _
  | call callback =>
    obtain ⟨run⟩ := callback
    exact ⟨heaps, threads.push (.callback _)⟩
  | answer type mailbox => exact ⟨heaps, threads.push (.posting _ _)⟩

theorem twin_requestInterrupt (heaps : heap.Twin twins heap')
    (threads : thread.Twin twins thread') (id : FiberId) :
    (requestInterrupt heap thread id).Twin twins (requestInterrupt heap' thread' id) := by
  have same := heaps.fiber? id
  unfold requestInterrupt
  rw [threads.id]
  generalize heap.fiber? id = fiber, heap'.fiber? id = fiber' at same ⊢
  cases same with
  | none => exact heaps
  | some same =>
    dsimp only
    rw [same.flags]
    split
    · exact heaps.updateFlags id _
    · exact (heaps.updateFlags id _).report _ _ _

/-! ### User code -/

/-- Requests do not depend on what is done with their answers. -/
theorem twin_perform {α β : Type} (coherent : twins.Coherent) (heaps : heap.Twin twins heap')
    (threads : thread.Twin twins thread') {keep keep' : Code σ β → Activation σ} {code : Code σ α}
    {next next' : α → Code σ β} (going : code.isOver = false)
    (keeps : ∀ rest : Code σ α,
      (keep (rest.bind next)).Twin twins (keep' (rest.bind next'))) :
    Twin twins (perform heap thread keep (code.bind next))
      (perform heap' thread' keep' (code.bind next')) := by
  have pushed (rest : Code σ α) : (thread.push (keep (rest.bind next))).Twin twins
      (thread'.push (keep' (rest.bind next'))) := threads.push (keeps rest)
  -- A root fiber gets the same number at both, and is started with the same batch.
  have launched {observers : List (Observer σ)} {heap heap' : Heap σ} {rest : Code σ α}
      (heaps : heap.Twin twins heap') (executor : ExecutorId) (root : Node σ) :
      Twin twins (start (newRoot heap executor root observers)
          (thread.push (keep (rest.bind next))) heap.nextFiber true)
        (start (newRoot heap' executor root observers)
          (thread'.push (keep' (rest.bind next'))) heap.nextFiber true) :=
    twin_start (twin_newRoot coherent heaps executor root observers) (pushed rest) rfl true
  cases code with
  | done | panic => cases going
  | get rest =>
    simp only [Action.bind, perform]
    rw [heaps.world]
    exact ⟨heaps, pushed _⟩
  | modify change rest =>
    exact ⟨{ heaps with world := congrArg change heaps.world }, pushed _⟩
  | complete callback value rest =>
    exact twin_completeCallback coherent heaps (pushed _) callback value
  | completeLater delay callback value rest =>
    refine ⟨{ heaps with timers := ?_ }, pushed _⟩
    simp only [Action.bind, perform]
    rw [heaps.now, heaps.timers]
  | observe fiber type callback rest => exact twin_observe heaps (pushed _) fiber _
  | poll fiber rest =>
    simp only [Action.bind, perform]
    rw [heaps.poll_eq]
    exact ⟨heaps, pushed _⟩
  | interrupt fiber rest => exact ⟨twin_requestInterrupt heaps threads fiber, pushed _⟩
  | launch executor root rest =>
    simp only [Action.bind, perform]
    rw [heaps.nextFiber_eq]
    exact launched heaps executor root
  | launchWith executor root callback rest =>
    simp only [Action.bind, perform]
    rw [heaps.nextFiber_eq]
    exact launched heaps executor root
  | submit executor root type rest =>
    simp only [Action.bind, perform]
    rw [heaps.nextFiber_eq, heaps.nextMailbox_eq]
    exact launched heaps.addMailbox executor root
  | wait mailbox deadline rest =>
    simp only [Action.bind, perform]
    rw [heaps.isOpen_eq, heaps.slot_eq, heaps.now]
    split
    · exact ⟨heaps, pushed _⟩
    · split
      · exact ⟨heaps, pushed _⟩
      · exact ⟨heaps, pushed (.wait mailbox deadline rest)⟩
  | runTask executor newest rest =>
    have popped := (heaps.waiting executor).pop? newest
    simp only [Action.bind, perform]
    generalize (heap.waiting executor).pop? newest = task,
      (heap'.waiting executor).pop? newest = task' at popped ⊢
    cases popped with
    | none => exact ⟨heaps, pushed _⟩
    | some same => exact ⟨heaps.setWaiting executor same.2, (pushed _).run same.1⟩
  | discardTasks executor rest =>
    simp only [Action.bind, perform]
    rw [(heaps.waiting executor).size_eq]
    exact ⟨heaps.setWaiting executor .nil, pushed _⟩
  | threadName rest =>
    simp only [Action.bind, perform]
    rw [threads.name]
    exact ⟨heaps, pushed _⟩
  | clock rest =>
    simp only [Action.bind, perform]
    rw [heaps.now]
    exact ⟨heaps, pushed _⟩
  | report event rest =>
    simp only [Action.bind, perform]
    rw [threads.id]
    exact ⟨heaps.report thread.id event.severity fun _ => event, pushed _⟩

/-- The same code in twin activations. -/
theorem twin_perform_same {α : Type} (coherent : twins.Coherent) (heaps : heap.Twin twins heap')
    (threads : thread.Twin twins thread') {keep keep' : Code σ α → Activation σ} {code : Code σ α}
    (going : code.isOver = false) (keeps : ∀ rest, (keep rest).Twin twins (keep' rest)) :
    Twin twins (perform heap thread keep code) (perform heap' thread' keep' code) := by
  have all (rest : Code σ α) : (keep (rest.bind .done)).Twin twins (keep' (rest.bind .done)) := by
    rw [Action.bind_done]
    exact keeps rest
  have same := twin_perform coherent heaps threads going all
  rwa [Action.bind_done] at same

/-! ### Loops -/

/-- Frames above which a fiber may stand on either side. -/
structure Level (twins : Matching σ) (id : FiberId)
    (levels : List (Frame σ) → List (Frame σ) → Prop) : Prop where
  active : ∀ {stack stack'}, levels stack stack' → ∀ focus,
    twins id (.active focus stack) (.active focus stack')
  suspended : ∀ {stack stack'}, levels stack stack' → ∀ callback,
    twins id (.suspended callback stack) (.suspended callback stack')
  push : ∀ {stack stack'}, levels stack stack' → ∀ frame,
    levels (frame :: stack) (frame :: stack')

theorem level_eq (coherent : twins.Coherent) (id : FiberId) : Level twins id Eq where
  active := fun same _ => same ▸ coherent.refl _ _
  suspended := fun same _ => same ▸ coherent.refl _ _
  push := fun same frame => congrArg (frame :: ·) same

/-- Loops at two places do the same in one step. -/
structure Lockstep (twins : Matching σ) (id : FiberId) (focus : Focus σ) (stack : List (Frame σ))
    (focus' : Focus σ) (stack' : List (Frame σ)) : Prop where
  registering : focus'.registering? = focus.registering?
  twin : ∀ {heap heap' thread thread'}, heap.Twin twins heap' → thread.Twin twins thread' →
    focus.Owns id heap →
    Twin twins (stepLoop heap thread id stack focus) (stepLoop heap' thread' id stack' focus')

section Level

variable {levels : List (Frame σ) → List (Frame σ) → Prop} {stack stack' : List (Frame σ)}

theorem twin_refocus (threads : thread.Twin twins thread') {focus focus' : Focus σ}
    (place : twins id (.active focus stack) (.active focus' stack')) :
    (refocus thread id focus stack).Twin twins (refocus thread' id focus' stack') :=
  threads.push (.loop place)

theorem twin_fork (coherent : twins.Coherent) (heaps : heap.Twin twins heap')
    (threads : thread.Twin twins thread') (level : Level twins id levels)
    (same : levels stack stack') (effect : Node σ) :
    Twin twins (fork heap thread id effect stack) (fork heap' thread' id effect stack') := by
  unfold fork
  rw [heaps.nextFiber_eq, heaps.environments_eq, heaps.executorOf_eq, threads.id]
  have added : Heap.Twin twins
      (heap.addFiber
        { environments := heap.environments id, executor := heap.executorOf id,
          seed := some effect })
      (heap'.addFiber
        { environments := heap.environments id, executor := heap.executorOf id,
          seed := some effect }) :=
    heaps.addFiber ⟨rfl, rfl, rfl, rfl, .some (coherent.refl _ _)⟩
  exact twin_start (added.report _ _ _) (twin_refocus threads (level.active same _)) rfl false

theorem twin_interpret (coherent : twins.Coherent) (heaps : heap.Twin twins heap')
    (threads : thread.Twin twins thread') (level : Level twins id levels)
    (same : levels stack stack') (current : Node σ) :
    Twin twins (interpret heap thread id stack current)
      (interpret heap' thread' id stack' current) := by
  cases current with
  | succeed | sync | fail =>
    exact ⟨heaps, twin_refocus threads (level.active same _)⟩
  | flatMap effect continuation =>
    have pushed := level.push same (.apply continuation)
    simp only [interpret]
    rw [threads.id]
    exact ⟨heaps.of_counts (Heap.counts_report _ _ _ rfl) (Heap.counts_report _ _ _ rfl),
      twin_refocus threads (level.active pushed _)⟩
  | fold effect handler =>
    have pushed := level.push same (.fold handler)
    simp only [interpret]
    rw [threads.id]
    exact ⟨heaps.of_counts (Heap.counts_report _ _ _ rfl) (Heap.counts_report _ _ _ rfl),
      twin_refocus threads (level.active pushed _)⟩
  | async register =>
    simp only [interpret]
    rw [heaps.nextCallback_eq]
    exact ⟨heaps.addSuspension id, twin_refocus threads (level.active same _)⟩
  | fork effect => exact twin_fork coherent heaps threads level same effect
  | shift executor =>
    simp only [interpret]
    rw [threads.id, heaps.executorName_eq]
    exact twin_execute ((heaps.setExecutor id executor).report _ _ _) threads executor
      ⟨⟨rfl, level.active same _⟩, rfl⟩
  | withStatus effect status =>
    simp only [interpret]
    rw [heaps.status_eq]
    exact ⟨heaps.updateFlags id (·.setStatus status),
      twin_refocus threads (level.active (level.push same _) _)⟩
  | provide effect environment =>
    exact ⟨heaps.enterScope id environment,
      twin_refocus threads (level.active (level.push same _) _)⟩
  | access continuation =>
    simp only [interpret]
    rw [heaps.environments_eq]
    split <;> exact ⟨heaps, twin_refocus threads (level.active same _)⟩
  | restoreStatus status =>
    exact ⟨heaps.updateFlags id (·.setStatus status), twin_refocus threads (level.active same _)⟩
  | leaveScope => exact ⟨heaps.leaveScope id, twin_refocus threads (level.active same _)⟩

theorem twin_beginInterruption (heaps : heap.Twin twins heap')
    (threads : thread.Twin twins thread') (level : Level twins id levels)
    (same : levels stack stack') (current : Node σ) :
    Twin twins (beginInterruption heap thread id stack current)
      (beginInterruption heap' thread' id stack' current) := by
  have begun := (heaps.updateFlags id InterruptFlags.beginFinalizing).report thread.id .debug
    fun _ => .interruptionTakingEffect id current.kind
  unfold beginInterruption
  rw [threads.id]
  exact ⟨begun, twin_refocus threads (level.active (level.push same _) _)⟩

theorem twin_park (heaps : heap.Twin twins heap') (threads : thread.Twin twins thread')
    (level : Level twins id levels) (same : levels stack stack') {callback : CallbackId}
    {state : Rendezvous σ} (own : heap.suspension? callback = some ⟨id, state⟩) :
    Twin twins (park heap thread id callback stack) (park heap' thread' id callback stack') := by
  have twin := heaps.suspension? callback
  have parked : (heap.setRendezvous callback (.parked stack)).Twin twins
      (heap'.setRendezvous callback (.parked stack')) :=
    heaps.setRendezvous callback fun suspension there => by
      cases own.symm.trans there
      exact .parked (level.suspended same callback)
  have left := parked.report thread.id .trace fun _ => .fiberSuspended id
  unfold park
  rw [threads.id]
  rw [own] at twin ⊢
  generalize heap'.suspension? callback = suspension' at twin ⊢
  cases twin with
  | @some _ suspension' twin =>
    obtain ⟨fiber', state'⟩ := suspension'
    have states := twin.state
    dsimp only at states
    cases states with
    | completed value =>
      exact ⟨heaps.setRendezvous callback fun _ _ => .resumed,
        twin_refocus threads (level.active same _)⟩
    | registering | parked | resumed | abandoned => exact ⟨left, threads⟩

/-- A panic ends the loops of both threads, or is caught by both. -/
theorem twin_unwindLoop (coherent : twins.Coherent) (heaps : heap.Twin twins heap')
    (threads : thread.Twin twins thread') {focus focus' : Focus σ}
    (place : twins id (.active focus stack) (.active focus' stack')) (payload : Payload) :
    Twin twins (unwindLoop heap thread payload id stack focus)
      (unwindLoop heap' thread' payload id stack' focus') := by
  have whole (heap : Heap σ) (thread : Thread σ) (stack : List (Frame σ)) (focus : Focus σ) :
      unwindLoop heap thread payload id stack focus =
        match focus.caught payload with
        | none => (heap, thread)
        | some next =>
          (match focus.registering? with
            | some callback => (heap.noteDefect thread.id payload).setRendezvous callback .abandoned
            | none => heap.noteDefect thread.id payload,
            refocus { thread with panicking := none } id next stack) := by
    cases focus <;> rfl
  have calmed : Thread.Twin twins { thread with panicking := none }
      { thread' with panicking := none } := { threads with panicking := rfl }
  have noted : (heap.noteDefect thread.id payload).Twin twins
      (heap'.noteDefect thread'.id payload) := threads.id ▸ heaps.noteDefect _ payload
  have caught := coherent.caught place payload
  rw [whole, whole, coherent.registering place]
  generalize focus.caught payload = next, focus'.caught payload = next' at caught ⊢
  cases caught with
  | none => exact ⟨heaps, threads⟩
  | some place =>
    dsimp only
    refine ⟨?_, twin_refocus calmed place⟩
    dsimp only
    split
    · exact noted.setRendezvous _ fun _ _ => .abandoned
    · exact noted

/-- Loops with the same focus do the same, unless a value or a cause reaches the frames in which
they differ. -/
theorem lockstep_level (coherent : twins.Coherent) (level : Level twins id levels)
    (same : levels stack stack') {focus : Focus σ}
    (value : ∀ value, focus = .value value → stack = [] ∧ stack' = [] ∨
      ∃ frame rest rest', stack = frame :: rest ∧ stack' = frame :: rest' ∧ levels rest rest')
    (cause : ∀ cause, focus = .cause cause →
      Option.Rel (fun found found' => found'.1 = found.1 ∧ levels found.2 found'.2)
        (unwind stack) (unwind stack')) :
    Lockstep twins id focus stack focus stack' := by
  refine ⟨rfl, fun {heap heap' thread thread'} heaps threads owns => ?_⟩
  -- A request does not look at the frames, and a panic is caught at the top loop.
  have requests {α : Type} {code : Code σ α} {keep : Code σ α → Focus σ}
      (going : code.isOver = false) (holds : ∀ stack, (Activation.loop id (keep code) stack).Holds
        (fun rest => .loop id (keep rest) stack) code) :
      Twin twins (advance heap thread (.loop id (keep code) stack))
        (advance heap' thread' (.loop id (keep code) stack')) := by
    rw [advance_of_holds (holds stack) going, advance_of_holds (holds stack') going]
    exact twin_perform_same coherent heaps threads going fun rest =>
      .loop (level.active same _)
  have caught (payload : Payload) := twin_unwindLoop coherent heaps threads
    (level.active same focus) payload
  cases focus with
  | node current =>
    simp only [stepLoop, heaps.shouldInterrupt_eq]
    split
    · exact twin_beginInterruption heaps threads level same current
    · exact twin_interpret coherent heaps threads level same current
  | value v =>
    -- Either both fibers end, or the value meets the same frame on both sides.
    rcases value v rfl with ⟨rfl, rfl⟩ | ⟨frame, rest, rest', rfl, rfl, under⟩
    · exact twin_completeFiber heaps threads id _
    · simp only [stepLoop, deliver]
      rw [threads.id]
      exact ⟨heaps.of_counts (Heap.counts_report _ _ _ rfl) (Heap.counts_report _ _ _ rfl),
        twin_refocus threads (level.active under _)⟩
  | cause c =>
    have found := cause c rfl
    simp only [stepLoop, fail]
    generalize unwind stack = found, unwind stack' = found' at found ⊢
    cases found with
    | none => exact twin_completeFiber heaps threads id _
    | @some found found' same =>
      obtain ⟨handler, rest⟩ := found
      obtain ⟨handler', rest'⟩ := found'
      -- The same handler catches the cause, above frames that may still differ.
      obtain ⟨rfl, under⟩ := same
      exact ⟨heaps, twin_refocus threads (level.active under _)⟩
  | thunk code =>
    rcases code.done_or_panics_or_goes with ⟨result, rfl⟩ | ⟨payload, rfl⟩ | going
    · exact ⟨heaps, twin_refocus threads (level.active same _)⟩
    · exact caught payload
    · exact requests going fun stack => .thunk id code stack
  | raising code =>
    rcases code.done_or_panics_or_goes with ⟨result, rfl⟩ | ⟨payload, rfl⟩ | going
    · exact ⟨heaps, twin_refocus threads (level.active same _)⟩
    · exact caught payload
    · exact requests going fun stack => .raising id code stack
  | building code =>
    rcases code.done_or_panics_or_goes with ⟨result, rfl⟩ | ⟨payload, rfl⟩ | going
    · exact ⟨heaps, twin_refocus threads (level.active same _)⟩
    · exact caught payload
    · exact requests going fun stack => .building id code stack
  | registering callback code =>
    rcases code.done_or_panics_or_goes with ⟨result, rfl⟩ | ⟨payload, rfl⟩ | going
    · obtain ⟨state, own⟩ := owns callback rfl
      exact twin_park heaps threads level same own
    · exact caught payload
    · exact requests going fun stack => .registering id callback code stack

/-- A loop does the same as itself. -/
theorem lockstep_refl (coherent : twins.Coherent) (id : FiberId) (focus : Focus σ)
    (stack : List (Frame σ)) : Lockstep twins id focus stack focus stack := by
  refine lockstep_level coherent (level_eq coherent id) rfl (fun _ _ => ?_) fun _ _ => ?_
  · cases stack with
    | nil => exact .inl ⟨rfl, rfl⟩
    | cons frame rest => exact .inr ⟨frame, rest, rest, rfl, rfl, rfl⟩
  · exact rel_refl (fun _ => ⟨rfl, rfl⟩) _

/-- Causes do the same above frames that unwind to the same handler. -/
theorem lockstep_cause (coherent : twins.Coherent) (id : FiberId) (cause : Cause)
    (same : unwind stack = unwind stack') :
    Lockstep twins id (.cause cause) stack (.cause cause) stack' := by
  refine ⟨rfl, fun {heap heap' thread thread'} heaps threads _ => ?_⟩
  simp only [stepLoop, fail]
  rw [same]
  cases unwind stack' with
  | none => exact twin_completeFiber heaps threads id _
  | some found => exact ⟨heaps, twin_refocus threads (coherent.refl _ _)⟩

/-- User code does the same whatever is done with its result, as long as it goes on. -/
theorem lockstep_building {α : Type} (coherent : twins.Coherent) {code : Code σ α}
    {next next' : α → Code σ (Node σ)} (unfinished : ∀ result, code ≠ .done result)
    (places : ∀ rest : Code σ α, twins id (.active (.building (rest.bind next)) stack)
      (.active (.building (rest.bind next')) stack')) :
    Lockstep twins id (.building (code.bind next)) stack (.building (code.bind next')) stack' := by
  refine ⟨rfl, fun {heap heap' thread thread'} heaps threads _ => ?_⟩
  rcases code.done_or_panics_or_goes with ⟨result, rfl⟩ | ⟨payload, rfl⟩ | going
  · exact absurd rfl (unfinished result)
  · exact twin_unwindLoop coherent heaps threads (places (.panic payload)) payload
  · have bound {next : α → Code σ (Node σ)} : (code.bind next).isOver = false := by
      cases code with
      | done | panic => cases going
      | _ => rfl
    show Twin twins (advance heap thread (.loop id (.building (code.bind next)) stack))
      (advance heap' thread' (.loop id (.building (code.bind next')) stack'))
    rw [advance_of_holds (.building id _ stack) bound,
      advance_of_holds (.building id _ stack') bound]
    exact twin_perform coherent heaps threads going fun rest => .loop (places rest)

end Level

/-! ### Threads -/

theorem twin_takePanic (coherent : twins.Coherent) (heaps : heap.Twin twins heap')
    (threads : thread.Twin twins thread') (payload : Payload)
    {activation activation' : Activation σ} (twin : activation.Twin twins activation') :
    Twin twins (takePanic heap thread payload activation)
      (takePanic heap' thread' payload activation') := by
  have noted : (heap.noteDefect thread.id payload).Twin twins
      (heap'.noteDefect thread'.id payload) := threads.id ▸ heaps.noteDefect _ payload
  cases twin with
  | program | notifying => exact ⟨heaps, threads⟩
  | callback | posting | opening => exact ⟨noted, { threads with panicking := rfl }⟩
  | loop place => exact twin_unwindLoop coherent heaps threads place payload
  | draining queue => exact ⟨heaps, { threads with pending := queue }⟩

theorem twin_crash (heaps : heap.Twin twins heap') (threads : thread.Twin twins thread')
    (payload : Payload) :
    Twin twins (crash heap thread payload) (crash heap' thread' payload) := by
  obtain ⟨number, name, role, pending, control, panicking⟩ := thread
  obtain ⟨number', name', role', pending', control', panicking'⟩ := thread'
  cases threads.id
  cases threads.role
  cases role with
  | main | helper => exact ⟨heaps, threads⟩
  | worker executor index =>
    exact ⟨heaps.report number .error fun _ => .taskPanicked index payload.text,
      { threads with panicking := rfl }⟩

/-- Loops apart, an activation does the same as its twin. -/
theorem twin_advance (coherent : twins.Coherent) (heaps : heap.Twin twins heap')
    (threads : thread.Twin twins thread') {activation activation' : Activation σ}
    (twin : activation.Twin twins activation')
    (loops : ∀ id focus stack focus' stack', activation = .loop id focus stack →
      activation' = .loop id focus' stack' →
      focus.Owns id heap ∧ Lockstep twins id focus stack focus' stack') :
    Twin twins (advance heap thread activation) (advance heap' thread' activation') := by
  cases twin with
  | program code =>
    rcases code.done_or_panics_or_goes with ⟨result, rfl⟩ | ⟨payload, rfl⟩ | going
    · exact ⟨heaps, threads⟩
    · exact ⟨heaps, (threads.push (.program _)).raise payload⟩
    · rw [advance_of_holds (.program code) going, advance_of_holds (.program code) going]
      exact twin_perform_same coherent heaps threads going .program
  | callback code =>
    rcases code.done_or_panics_or_goes with ⟨result, rfl⟩ | ⟨payload, rfl⟩ | going
    · exact ⟨heaps, threads⟩
    · exact ⟨heaps, (threads.push (.callback _)).raise payload⟩
    · rw [advance_of_holds (.callback code) going, advance_of_holds (.callback code) going]
      exact twin_perform_same coherent heaps threads going .callback
  | posting mailbox exit => exact ⟨heaps.updateMailbox _ _, threads.push (.opening mailbox)⟩
  | opening mailbox => exact ⟨heaps.updateMailbox _ _, threads⟩
  | loop place =>
    obtain ⟨owns, lockstep⟩ := loops _ _ _ _ _ rfl rfl
    exact lockstep.twin heaps threads owns
  | notifying exit observers =>
    cases observers with
    | nil => exact ⟨heaps, threads⟩
    | cons observer rest =>
      exact twin_notify coherent heaps (threads.push (.notifying exit rest)) exit observer
  | @draining outer outer' queue =>
    have pending := threads.pending
    -- The queues hold twins of each other, and so the first batches are twins as well.
    have popped : Option.Rel (fun popped popped' =>
        Batch.Twin twins popped.1 popped'.1 ∧ Queue.Twin (Batch.Twin twins) popped.2 popped'.2)
        (thread.pending.bind Queue.popFront?) (thread'.pending.bind Queue.popFront?) := by
      generalize thread.pending = waiting, thread'.pending = waiting' at pending ⊢
      cases pending with
      | none => exact .none
      | some same => exact same.popFront?
    unfold advance
    dsimp only
    generalize thread.pending.bind Queue.popFront? = first,
      thread'.pending.bind Queue.popFront? = first' at popped ⊢
    cases popped with
    | none => exact ⟨heaps, { threads with pending := queue }⟩
    | @some first first' same =>
      obtain ⟨batch, rest⟩ := first
      obtain ⟨batch', rest'⟩ := first'
      obtain ⟨batches, rests⟩ := same
      have left : Thread.Twin twins { thread with pending := some rest }
          { thread' with pending := some rest' } := { threads with pending := .some rests }
      have loop : (Activation.loop batch.fiber (.node batch.current) batch.stack).Twin twins
          (.loop batch'.fiber (.node batch'.current) batch'.stack) := by
        rw [batches.fiber]
        exact .loop batches.place
      exact ⟨heaps, (left.push (.draining queue)).push loop⟩

/-- Twin threads do the same if their innermost loops do. -/
theorem twin_step (coherent : twins.Coherent) (heaps : heap.Twin twins heap')
    (threads : thread.Twin twins thread')
    (loops : ∀ id focus stack focus' stack', thread.next? = some (.loop id focus stack) →
      thread'.next? = some (.loop id focus' stack') →
      focus.Owns id heap ∧ Lockstep twins id focus stack focus' stack') :
    Twin twins (step heap thread) (step heap' thread') := by
  obtain ⟨number, name, role, pending, control, panicking⟩ := thread
  obtain ⟨number', name', role', pending', control', panicking'⟩ := thread'
  cases threads.panicking
  have controls := threads.control
  dsimp only at controls
  cases controls with
  | nil =>
    cases panicking with
    | none => exact ⟨heaps, threads⟩
    | some payload => exact twin_crash heaps threads payload
  | @cons activation activation' rest rest' twin others =>
    have taken : Thread.Twin twins ⟨number, name, role, pending, rest, panicking⟩
        ⟨number', name', role', pending', rest', panicking⟩ := { threads with control := others }
    cases panicking with
    | none =>
      refine twin_advance coherent heaps taken twin fun id focus stack focus' stack' own own' => ?_
      subst own own'
      exact loops id focus stack focus' stack' rfl rfl
    | some payload => exact twin_takePanic coherent heaps taken payload twin

end Machine

end Fibers
