import Fibers.Proofs.Machine.Guard

/-!
# Arrivals

A thread is given batches to run: by an executor that runs every task at once, by a completion that
resumes a fiber, and by user code that takes a waiting task. `Activation.arrival?` says which batch
comes in a step, and `Thread.run` what the thread does with it.

## Main results

`Machine.dispatch_advance`: nothing but the arrival of a step changes the batches that are queued
on a thread or begins a loop there, and only the first batches of root fibers are isolated.
`Machine.Over`: how a loop comes to the end of its batch.
-/

namespace Fibers

variable {σ : Type}

/-! ### What arrives -/

/-- Whether an executor runs every task at once. -/
def Heap.isInline (heap : Heap σ) (executor : ExecutorId) : Bool :=
  match heap.executor? executor with
  | some { discipline := .inline, .. } => true
  | _ => false

theorem Heap.isInline_of_executors {heap heap' : Heap σ} (same : heap'.executors = heap.executors)
    (executor : ExecutorId) : heap'.isInline executor = heap.isInline executor := by
  rw [isInline, isInline, executor?, executor?, same]

/-- The task in which a fiber that waits for a callback goes on, if it does so on this thread. It
does if no loop is running there, or if its executor runs every task at once. -/
def Machine.resumed? (heap : Heap σ) (running : Bool) (callback : CallbackId) (value : Erased) :
    Option (Task σ) :=
  match heap.suspension? callback with
  | some { fiber, state := .parked stack } =>
    if !running || heap.isInline (heap.executorOf fiber) then
      some ⟨⟨fiber, .succeed value, stack⟩, false⟩
    else none
  | _ => none

/-- The first batch of the root fiber that user code starts by its next request. -/
def Action.root? {α : Type} (heap : Heap σ) : Code σ α → Option (Batch σ)
  | .launch _ root _ => some ⟨heap.nextFiber, root, []⟩
  | .launchWith _ root _ _ => some ⟨heap.nextFiber, root, []⟩
  | .submit _ root _ _ => some ⟨heap.nextFiber, root, []⟩
  | _ => none

/-- The task that comes to a thread by the next request of user code on it. -/
def Action.arrival? {α : Type} (heap : Heap σ) (running : Bool) : Code σ α → Option (Task σ)
  | .complete callback value _ => Machine.resumed? heap running callback value
  | .launch executor root _ | .launchWith executor root _ _ | .submit executor root _ _ =>
    if heap.isInline executor then some ⟨⟨heap.nextFiber, root, []⟩, true⟩ else none
  | .runTask executor newest _ => ((heap.waiting executor).pop? newest).map Prod.fst
  | _ => none

namespace Activation

/-- The first batch of the root fiber that an activation starts in its next step. -/
def root? (heap : Heap σ) : Activation σ → Option (Batch σ)
  | .program code | .callback code | .loop _ (.registering _ code) _ => code.root? heap
  | .loop _ (.thunk code) _ => code.root? heap
  | .loop _ (.raising code) _ => code.root? heap
  | .loop _ (.building code) _ => code.root? heap
  | _ => none

/-- The task that comes to a thread in the next step of an activation on it. -/
def arrival? (heap : Heap σ) (running : Bool) : Activation σ → Option (Task σ)
  | .program code | .callback code | .loop _ (.registering _ code) _ => code.arrival? heap running
  | .loop _ (.thunk code) _ => code.arrival? heap running
  | .loop _ (.raising code) _ => code.arrival? heap running
  | .loop _ (.building code) _ => code.arrival? heap running
  | .loop id (.node current) stack =>
    if heap.shouldInterrupt id then none
    else match current with
      | .fork effect =>
        if heap.isInline (heap.executorOf id) then some ⟨⟨heap.nextFiber, effect, []⟩, false⟩
        else none
      | .shift executor =>
        if heap.isInline executor then some ⟨⟨id, Node.unit, stack⟩, false⟩ else none
      | _ => none
  | .notifying exit (.resume type waiter :: _) =>
    Machine.resumed? heap running waiter ⟨.exit type, exit.recover type⟩
  | _ => none

theorem Holds.root? {activation : Activation σ} {α : Type} {keep : Code σ α → Activation σ}
    {code : Code σ α} (holds : activation.Holds keep code) (heap : Heap σ) :
    activation.root? heap = code.root? heap := by
  cases holds <;> rfl

theorem Holds.arrival? {activation : Activation σ} {α : Type} {keep : Code σ α → Activation σ}
    {code : Code σ α} (holds : activation.Holds keep code) (heap : Heap σ) (running : Bool) :
    activation.arrival? heap running = code.arrival? heap running := by
  cases holds <;> rfl

/-- Whether an activation runs batches: a loop, or the drain around it. -/
def drives : Activation σ → Bool
  | .loop _ _ _ | .draining _ => true
  | _ => false

end Activation

/-! ### What a thread does with it -/

/-- A thread runs the task that comes to it, if there is one, and begins nothing else that runs
batches. -/
inductive Thread.Receives (thread : Thread σ) : Option (Task σ) → Thread σ → Prop where
  | nothing {thread' : Thread σ} {begun : List (Activation σ)}
      (idle : ∀ activation ∈ begun, activation.drives = false)
      (control : thread'.control = begun ++ thread.control)
      (pending : thread'.pending = thread.pending) : Receives thread none thread'
  | task {thread' : Thread σ} (task : Task σ)
      (control : thread'.control = (thread.run task).control)
      (pending : thread'.pending = (thread.run task).pending)
      (calm : thread'.panicking = thread.panicking) : Receives thread (some task) thread'

theorem Thread.Receives.refl (thread : Thread σ) : thread.Receives none thread :=
  .nothing (List.forall_mem_nil _) rfl rfl

theorem Thread.Receives.push {activation : Activation σ} (idle : activation.drives = false)
    (thread : Thread σ) : thread.Receives none (thread.push activation) :=
  .nothing (List.forall_mem_singleton.mpr idle) rfl rfl

theorem Thread.receives_run (thread : Thread σ) (task : Task σ) :
    thread.Receives (some task) (thread.run task) := by
  refine .task task rfl rfl ?_
  unfold Thread.run
  split <;> rfl

/-- Of all isolated tasks that wait at executors, one at most is new: the first batch of a root
fiber. -/
def Heap.Gathers (root : Option (Batch σ)) (heap heap' : Heap σ) : Prop :=
  ∀ executor, ∀ task ∈ (heap'.waiting executor).toList, task.isolated = true →
    task ∈ (heap.waiting executor).toList ∨ root = some task.batch

theorem Heap.waiting_of_executors {heap heap' : Heap σ} (same : heap'.executors = heap.executors)
    (executor : ExecutorId) : heap'.waiting executor = heap.waiting executor := by
  rw [waiting, waiting, executor?, executor?, same]

theorem Heap.gathers_of_executors {heap heap' : Heap σ} (root : Option (Batch σ))
    (same : heap'.executors = heap.executors) : heap.Gathers root heap' := by
  intro executor task mem _
  rw [waiting_of_executors same] at mem
  exact .inl mem

theorem Heap.Gathers.of_executors {heap before after : Heap σ} {root : Option (Batch σ)}
    (h : before.Gathers root after) (same : before.executors = heap.executors) :
    heap.Gathers root after := by
  intro executor task mem isolated
  rw [← waiting_of_executors same]
  exact h executor task mem isolated

/-- The tasks of one executor are exchanged. -/
theorem Heap.waiting_setWaiting (heap : Heap σ) (executor other : ExecutorId)
    (waiting : Queue (Task σ)) :
    (heap.setWaiting executor waiting).waiting other = heap.waiting other ∨
      (heap.setWaiting executor waiting).waiting other = waiting ∧
        heap.waiting other = heap.waiting executor := by
  simp only [Heap.waiting, executor?, setWaiting, Array.getElem?_modify]
  by_cases own : executor.index = other.index
  · rw [if_pos own, own]
    cases heap.executors[other.index]? with
    | none => exact .inl rfl
    | some state => exact .inr ⟨rfl, rfl⟩
  · rw [if_neg own]
    exact .inl rfl

theorem Heap.gathers_setWaiting {heap : Heap σ} {executor : ExecutorId} {waiting : Queue (Task σ)}
    (fewer : ∀ task ∈ waiting.toList, task ∈ (heap.waiting executor).toList)
    (root : Option (Batch σ)) : heap.Gathers root (heap.setWaiting executor waiting) := by
  intro other task mem _
  rcases heap.waiting_setWaiting executor other waiting with same | ⟨set, own⟩
  · rw [same] at mem
    exact .inl mem
  · rw [set] at mem
    rw [own]
    exact .inl (fewer task mem)

theorem Heap.gathers_enqueue {heap : Heap σ} {executor : ExecutorId} {task : Task σ}
    {root : Option (Batch σ)} (first : task.isolated = true → root = some task.batch) :
    heap.Gathers root (heap.enqueue executor task) := by
  intro other queued mem isolated
  simp only [waiting, executor?, enqueue, Array.getElem?_modify] at mem ⊢
  split at mem
  next present =>
    split at present
    next own =>
      obtain ⟨state, known, rfl⟩ := Option.map_eq_some_iff.mp present
      rw [known]
      rw [Queue.toList_push, List.mem_append, List.mem_singleton] at mem
      rcases mem with old | rfl
      · exact .inl old
      · exact .inr (first isolated)
    next =>
      rw [present]
      exact .inl mem
  next => simp [Queue.toList] at mem

namespace Machine

/-- An operation gives a thread the task that comes to it, and executors the others. -/
structure Dispatch (root : Option (Batch σ)) (arrival : Option (Task σ)) (heap : Heap σ)
    (thread : Thread σ) (after : Heap σ × Thread σ) : Prop where
  thread : thread.Receives arrival after.2
  waiting : heap.Gathers root after.1

variable (heap : Heap σ) (thread : Thread σ)

theorem Dispatch.refl (root : Option (Batch σ)) : Dispatch root none heap thread (heap, thread) :=
  ⟨.refl thread, heap.gathers_of_executors root rfl⟩

theorem dispatch_execute (executor : ExecutorId) (task : Task σ) (root : Option (Batch σ))
    (first : task.isolated = true → root = some task.batch) :
    Dispatch root (if heap.isInline executor then some task else none) heap thread
      (execute heap thread executor task) := by
  unfold execute Heap.isInline
  cases heap.executor? executor with
  | none => exact .refl heap thread root
  | some state =>
    obtain ⟨name, discipline, waiting⟩ := state
    cases discipline with
    | inline => exact ⟨thread.receives_run task, heap.gathers_of_executors root rfl⟩
    | hold => exact ⟨.refl thread, Heap.gathers_enqueue first⟩
    | discard => exact .refl heap thread root
    | refuse payload =>
      exact ⟨.nothing (List.forall_mem_nil _) rfl rfl, heap.gathers_of_executors root rfl⟩

theorem dispatch_start {id : FiberId} {fiber : FiberState σ} {effect : Node σ}
    (present : heap.fiber? id = some fiber) (seed : fiber.seed = some effect) (isolated : Bool)
    (root : Option (Batch σ)) (first : isolated = true → root = some ⟨id, effect, []⟩) :
    Dispatch root (if heap.isInline fiber.executor then some ⟨⟨id, effect, []⟩, isolated⟩ else none)
      heap thread (start heap thread id isolated) := by
  obtain ⟨progress, flags, environments, executor, _⟩ := fiber
  cases seed
  rw [start, present]
  dsimp only
  have same : ((heap.updateFiber id fun fiber => { fiber with seed := none }).report thread.id
      .debug fun _ => .fiberStarted id (heap.executorName executor)).executors = heap.executors :=
    Heap.executors_report _ _ _ _
  rw [← Heap.isInline_of_executors same]
  obtain ⟨received, gathered⟩ :=
    dispatch_execute _ thread executor ⟨⟨id, effect, []⟩, isolated⟩ root first
  exact ⟨received, gathered.of_executors same⟩

theorem executorOf_report (reporter : ThreadId) (severity : Severity) (event : Unit → Event)
    (id : FiberId) :
    (heap.report reporter severity event).executorOf id = heap.executorOf id := by
  rw [Heap.executorOf, Heap.executorOf, Heap.fiber?, Heap.fiber?, (heap.tables_report _ _ _).1]

theorem dispatch_completeCallback (callback : CallbackId) (value : Erased) :
    Dispatch none (resumed? heap thread.pending.isSome callback value) heap thread
      (completeCallback heap thread callback value) := by
  unfold completeCallback resumed?
  cases known : heap.suspension? callback with
  | none => exact .refl heap thread none
  | some suspension =>
    obtain ⟨fiber, state⟩ := suspension
    cases state with
    | registering => exact ⟨.refl thread, heap.gathers_of_executors none rfl⟩
    | completed | resumed | abandoned => exact .refl heap thread none
    | parked stack =>
      have same : ((heap.setRendezvous callback .resumed).report thread.id .trace fun _ =>
          .fiberResumed fiber stack.length).executors = heap.executors :=
        Heap.executors_report _ _ _ _
      simp only [resume]
      cases pending : thread.pending with
      | none => exact ⟨thread.receives_run _, heap.gathers_of_executors none same⟩
      | some queue =>
        -- The report and the end of the suspension change no executor.
        have own : ((heap.setRendezvous callback .resumed).report thread.id .trace fun _ =>
            .fiberResumed fiber stack.length).executorOf fiber = heap.executorOf fiber :=
          executorOf_report _ _ _ _ _
        have first : (⟨⟨fiber, .succeed value, stack⟩, false⟩ : Task σ).isolated = true →
            (none : Option (Batch σ)) = some ⟨fiber, .succeed value, stack⟩ := nofun
        obtain ⟨received, gathered⟩ := dispatch_execute
          ((heap.setRendezvous callback .resumed).report thread.id .trace fun _ =>
            .fiberResumed fiber stack.length) thread (heap.executorOf fiber) _ none first
        rw [own]
        rw [Heap.isInline_of_executors same] at received
        exact ⟨by simpa using received, gathered.of_executors same⟩

theorem dispatch_observe (id : FiberId) (observer : Observer σ) :
    Dispatch none none heap thread (observe heap thread id observer) := by
  unfold observe
  split
  · exact ⟨.refl thread, heap.gathers_of_executors none rfl⟩
  · exact ⟨.push rfl thread, heap.gathers_of_executors none rfl⟩
  · exact .refl heap thread none

theorem dispatch_newRoot (executor : ExecutorId) (effect : Node σ) (observers : List (Observer σ)) :
    Dispatch (some ⟨heap.nextFiber, effect, []⟩)
      (if heap.isInline executor then some ⟨⟨heap.nextFiber, effect, []⟩, true⟩ else none) heap
      thread (start (newRoot heap executor effect observers) thread heap.nextFiber true) := by
  have present : (newRoot heap executor effect observers).fiber? heap.nextFiber =
      some
        { progress := .running observers, environments := [], executor, seed := some effect } :=
    heap.fiber?_addFiber _
  obtain ⟨received, gathered⟩ := dispatch_start _ thread present rfl true _ fun _ => rfl
  exact ⟨received, gathered.of_executors rfl⟩

theorem executors_requestInterrupt (id : FiberId) :
    (requestInterrupt heap thread id).executors = heap.executors := by
  unfold requestInterrupt
  split
  next =>
    dsimp only
    split
    · rfl
    · exact Heap.executors_report _ _ _ _
  next => rfl

/-- A request of user code leaves its activation under the batch that comes with it. -/
theorem dispatch_perform {α : Type} (keep : Code σ α → Activation σ) (code : Code σ α) :
    ∃ rest, Dispatch (code.root? heap) (code.arrival? heap thread.pending.isSome) heap
      (thread.push (keep rest))
      (perform heap thread keep code) := by
  have quiet (heap' : Heap σ) (rest : Code σ α) (same : heap'.executors = heap.executors) :
      Dispatch none none heap (thread.push (keep rest)) (heap', thread.push (keep rest)) :=
    ⟨.refl _, heap.gathers_of_executors none same⟩
  cases code with
  | panic payload =>
    exact ⟨.panic payload, .nothing (List.forall_mem_nil _) rfl rfl,
      heap.gathers_of_executors none rfl⟩
  | complete callback value next =>
    exact ⟨_, dispatch_completeCallback heap (thread.push (keep (next ⟨⟩))) callback value⟩
  | observe fiber type callback next => exact ⟨_, dispatch_observe heap _ fiber _⟩
  | interrupt fiber next => exact ⟨_, quiet _ _ (executors_requestInterrupt heap thread fiber)⟩
  | launch executor root next => exact ⟨_, dispatch_newRoot heap _ executor root []⟩
  | launchWith executor root callback next => exact ⟨_, dispatch_newRoot heap _ executor root _⟩
  | submit executor root type next =>
    obtain ⟨received, gathered⟩ := dispatch_newRoot heap.addMailbox
      (thread.push (keep (next heap.nextMailbox))) executor root [.answer type heap.nextMailbox]
    exact ⟨_, received, gathered.of_executors rfl⟩
  | wait mailbox deadline next =>
    simp only [perform]
    split
    · exact ⟨_, quiet _ _ rfl⟩
    · split <;> exact ⟨_, quiet _ _ rfl⟩
  | runTask executor newest next =>
    simp only [perform, Action.arrival?]
    cases popped : (heap.waiting executor).pop? newest with
    | none => exact ⟨_, quiet _ _ rfl⟩
    | some result =>
      obtain ⟨task, rest⟩ := result
      obtain ⟨before, after, waiting, left⟩ := Queue.exists_split_of_pop? popped
      refine ⟨_, Thread.receives_run _ task, Heap.gathers_setWaiting (fun other mem => ?_) none⟩
      rw [waiting]
      rw [left] at mem
      exact List.mem_append.mpr ((List.mem_append.mp mem).imp_right (List.mem_cons_of_mem _))
  | discardTasks executor next =>
    exact ⟨_, .refl _, Heap.gathers_setWaiting (fun _ mem => by simp [Queue.toList] at mem) none⟩
  | report event next => exact ⟨_, quiet _ _ (heap.executors_report _ _ _)⟩
  | _ => exact ⟨_, quiet _ _ rfl⟩

/-! ### Steps -/

/-- A loop has come to the end of its batch. -/
inductive Over (id : FiberId) (stack : List (Frame σ)) (heap' : Heap σ) : Focus σ → Prop where
  /-- The fiber has ended. -/
  | completed {focus : Focus σ} {exit : Exit Erased}
      (ends : (Activation.loop id focus stack).ends? = some (id, exit))
      (ended : heap'.poll id = some exit) : Over id stack heap' focus
  /-- The frames wait for a callback. -/
  | suspended {callback : CallbackId} {result : Unit}
      (parked : heap'.suspension? callback = some { fiber := id, state := .parked stack }) :
      Over id stack heap' (.registering callback (.done result))
  /-- The fiber moves to another executor. -/
  | moved {executor : ExecutorId} : Over id stack heap' (.node (.shift executor))

/-- What is left of an activation after a step, below what the step begins. -/
structure Left (heap : Heap σ) (thread : Thread σ) (activation : Activation σ)
    (own : List (Activation σ)) (after : Heap σ × Thread σ) : Prop where
  leaves : activation.Leaves own
  dispatch : Dispatch (activation.root? heap) (activation.arrival? heap thread.pending.isSome) heap
    { thread with control := own ++ thread.control } after
  ends : ∀ id focus stack, activation = .loop id focus stack → own = [] →
    Over id stack after.1 focus
variable {heap thread} {activation : Activation σ}

theorem exists_left_perform {α : Type} {keep : Code σ α → Activation σ} {code : Code σ α}
    (holds : activation.Holds keep code) :
    ∃ own, Left heap thread activation own (perform heap thread keep code) := by
  obtain ⟨rest, dispatch⟩ := dispatch_perform heap thread keep code
  refine ⟨[keep rest], holds.leaves rest, ?_, fun _ _ _ _ none => by cases none⟩
  rw [holds.root?, holds.arrival?]
  exact dispatch

theorem exists_left_refocus {id : FiberId} {focus focus' : Focus σ} {stack stack' : List (Frame σ)}
    {heap' : Heap σ} (same : heap'.executors = heap.executors)
    (quiet : (Activation.loop id focus stack).arrival? heap thread.pending.isSome = none) :
    ∃ own, Left heap thread (.loop id focus stack) own
      (heap', refocus thread id focus' stack') := by
  refine ⟨[.loop id focus' stack'], .loop _ _ _ _ _, ?_, fun _ _ _ _ none => by cases none⟩
  rw [quiet]
  exact ⟨.refl _, Heap.gathers_of_executors _ same⟩

/-- The panic of user code becomes a defect of its fiber, whose loop goes on. -/
theorem exists_left_unwindLoop {id : FiberId} {focus next : Focus σ} {stack : List (Frame σ)}
    {payload : Payload} (caught : focus.caught? payload = some next)
    (quiet : (Activation.loop id focus stack).arrival? heap thread.pending.isSome = none) :
    ∃ own, Left heap thread (.loop id focus stack) own
      (unwindLoop heap thread payload id stack focus) := by
  refine ⟨[.loop id next stack], .loop _ _ _ _ _, ?_, fun _ _ _ _ none => by cases none⟩
  rw [quiet]
  cases focus with
  | thunk | raising | building | registering =>
    cases caught
    exact ⟨.nothing (List.forall_mem_nil _) rfl rfl,
      Heap.gathers_of_executors _ (Heap.executors_report _ _ _ _)⟩
  | node | value | cause => cases caught

theorem exists_left_fork {id : FiberId} {effect : Node σ} {stack : List (Frame σ)}
    (undue : heap.shouldInterrupt id = false) :
    ∃ own, Left heap thread (.loop id (.node (.fork effect)) stack) own
      (fork heap thread id effect stack) := by
  refine ⟨[.loop id (.value ⟨.context, heap.nextFiber⟩) stack], .loop _ _ _ _ _, ?_,
    fun _ _ _ _ none => by cases none⟩
  obtain ⟨event, reported, child, rfl, next, seed, _, executor, forked⟩ :=
    exists_fork_eq heap thread id effect stack
  have present := (heap.report thread.id .debug event).fiber?_addFiber child
  have same : ((heap.report thread.id .debug event).addFiber child).executors = heap.executors :=
    heap.executors_report thread.id .debug event
  have arrival : (Activation.loop id (.node (.fork effect)) stack).arrival? heap
      thread.pending.isSome =
      if heap.isInline (heap.executorOf id) then some ⟨⟨heap.nextFiber, effect, []⟩, false⟩
      else none := by simp [Activation.arrival?, undue]
  obtain ⟨received, gathered⟩ := dispatch_start _ (refocus thread id
    (.value ⟨.context, (heap.report thread.id .debug event).nextFiber⟩) stack) present seed false
    none (by rintro ⟨⟩)
  rw [executor, Heap.isInline_of_executors same, next] at received
  rw [forked, arrival, next]
  rw [next] at gathered
  exact ⟨received, gathered.of_executors same⟩

theorem exists_left_interpret {id : FiberId} {current : Node σ} {stack : List (Frame σ)}
    (undue : heap.shouldInterrupt id = false) :
    ∃ own, Left heap thread (.loop id (.node current) stack) own
      (interpret heap thread id stack current) := by
  cases current with
  | shift executor =>
    refine ⟨[], .gone _, ?_, ?_⟩
    · have arrival : (Activation.loop id (.node (.shift executor)) stack).arrival? heap
          thread.pending.isSome =
          if heap.isInline executor then some ⟨⟨id, Node.unit, stack⟩, false⟩ else none := by
        simp [Activation.arrival?, undue]
      have same : ((heap.setExecutor id executor).report thread.id .trace fun _ =>
          .executorShifted id (heap.executorName executor)).executors = heap.executors :=
        Heap.executors_report _ _ _ _
      obtain ⟨received, gathered⟩ := dispatch_execute _ thread executor
        ⟨⟨id, Node.unit, stack⟩, false⟩ none nofun
      rw [Heap.isInline_of_executors same] at received
      rw [arrival]
      exact ⟨received, gathered.of_executors same⟩
    · rintro _ _ _ ⟨rfl, rfl, rfl⟩ _
      exact .moved
  | fork effect => exact exists_left_fork undue
  | flatMap | fold =>
    exact exists_left_refocus (heap.executors_report _ _ _) (by simp [Activation.arrival?, undue])
  | access continuation =>
    simp only [interpret]
    split <;> exact exists_left_refocus rfl (by simp [Activation.arrival?, undue])
  | _ => exact exists_left_refocus rfl (by simp [Activation.arrival?, undue])

theorem exists_left_completeFiber {id : FiberId} {fiber : FiberState σ} {focus : Focus σ}
    {stack : List (Frame σ)} (present : heap.fiber? id = some fiber) (running : fiber.exit? = none)
    {exit : Exit Erased} (ends : (Activation.loop id focus stack).ends? = some (id, exit))
    (quiet : (Activation.loop id focus stack).arrival? heap thread.pending.isSome = none) :
    ∃ own, Left heap thread (.loop id focus stack) own (completeFiber heap thread id exit) := by
  have progress := progress_completeFiber heap thread id present running exit
  rw [if_pos rfl] at progress
  have ended : (completeFiber heap thread id exit).1.poll id = some exit := by
    rw [← Heap.exit?_progress, progress]
    rfl
  refine ⟨[], .gone _, ?_, ?_⟩
  · obtain ⟨state, flags, environments, executor, seed⟩ := fiber
    cases state with
    | done => cases running
    | running observers =>
      rw [quiet, completeFiber, present]
      exact ⟨.push rfl thread, Heap.gathers_of_executors _ (Heap.executors_report _ _ _ _)⟩
  · rintro _ _ _ ⟨rfl, rfl, rfl⟩ _
    exact .completed ends ended

theorem exists_left_park {id : FiberId} {callback : CallbackId} {result : Unit}
    {stack : List (Frame σ)}
    (meets : (Activation.loop id (.registering callback (.done result)) stack).Meets heap) :
    ∃ own, Left heap thread (.loop id (.registering callback (.done result)) stack) own
      (park heap thread id callback stack) := by
  unfold park
  split
  next => exact exists_left_refocus rfl rfl
  next =>
    refine ⟨[], .gone _, ⟨.refl thread, Heap.gathers_of_executors _ ?_⟩, ?_⟩
    · exact Heap.executors_report _ _ _ _
    · rintro _ _ _ ⟨rfl, rfl, rfl⟩ _
      obtain ⟨⟨fiber, state⟩, present, own, _⟩ := meets
      obtain rfl : fiber = id := own
      refine .suspended ?_
      rw [Heap.suspension?, (Heap.tables_report _ _ _ _).2]
      refine (heap.suspension?_setRendezvous callback callback _).trans ?_
      rw [if_pos rfl, present]
      rfl

theorem exists_left_stepLoop {id : FiberId} {fiber : FiberState σ} {focus : Focus σ}
    {stack : List (Frame σ)} (present : heap.fiber? id = some fiber) (running : fiber.exit? = none)
    (meets : (Activation.loop id focus stack).Meets heap) :
    ∃ own, Left heap thread (.loop id focus stack) own (stepLoop heap thread id stack focus) := by
  have turn := turns_stepLoop heap thread id stack focus
  generalize stepLoop heap thread id stack focus = next at turn ⊢
  cases turn with
  | interrupts due =>
    exact exists_left_refocus (Heap.executors_report _ _ _ _) (by simp [Activation.arrival?, due])
  | interprets undue => exact exists_left_interpret undue
  | delivers => exact exists_left_refocus (heap.executors_report _ _ _) rfl
  | succeeds => exact exists_left_completeFiber present running rfl rfl
  | handles => exact exists_left_refocus rfl rfl
  | fails missing =>
    exact exists_left_completeFiber present running (by simp [Activation.ends?, missing]) rfl
  | hands ended => cases ended <;> exact exists_left_refocus rfl rfl
  | parks => exact exists_left_park meets
  | panics panics => cases panics <;> exact exists_left_unwindLoop rfl rfl
  | requests holds => exact exists_left_perform holds

/-- A step of a thread that is not panicking, unless it is that of a drain. -/
theorem exists_left_advance (steady : ∀ id focus stack, activation = .loop id focus stack →
      ∃ fiber, heap.fiber? id = some fiber ∧ fiber.exit? = none)
    (meets : activation.Meets heap) (busy : ∀ outer, activation ≠ .draining outer) :
    ∃ own, Left heap thread activation own (advance heap thread activation) := by
  have gone {activation : Activation σ} {heap' : Heap σ}
      (plain : ∀ id focus stack, activation ≠ .loop id focus stack)
      (same : heap'.executors = heap.executors)
      (quiet : activation.arrival? heap thread.pending.isSome = none) :
      ∃ own, Left heap thread activation own (heap', thread) :=
    ⟨[], .gone _, quiet ▸ ⟨.refl thread, Heap.gathers_of_executors _ same⟩,
      fun id focus stack looped => absurd looped (plain id focus stack)⟩
  cases activation with
  | program code =>
    cases code with
    | done result => exact gone nofun rfl rfl
    | _ => exact exists_left_perform (.program _)
  | callback code =>
    cases code with
    | done result => exact gone nofun rfl rfl
    | _ => exact exists_left_perform (.callback _)
  | posting mailbox exit =>
    exact ⟨[.opening mailbox], .opening _ _, ⟨.refl _, Heap.gathers_of_executors _ rfl⟩,
      fun _ _ _ looped => by cases looped⟩
  | opening mailbox => exact gone nofun rfl rfl
  | loop id focus stack =>
    obtain ⟨fiber, present, running⟩ := steady id focus stack rfl
    exact exists_left_stepLoop present running meets
  | notifying exit observers =>
    cases observers with
    | nil => exact gone nofun rfl rfl
    | cons observer rest =>
      refine ⟨[.notifying exit rest], .notifying _ _ _, ?_, fun _ _ _ looped => by cases looped⟩
      cases observer with
      | resume type callback =>
        exact dispatch_completeCallback heap (thread.push (.notifying exit rest)) callback _
      | call callback =>
        obtain ⟨run⟩ := callback
        exact ⟨.push rfl _, Heap.gathers_of_executors _ rfl⟩
      | answer type mailbox => exact ⟨.push rfl _, Heap.gathers_of_executors _ rfl⟩
  | draining outer => exact absurd rfl (busy outer)

/-- Only user code starts a root fiber on its own thread, or takes the first batch of one from an
executor. -/
theorem holds_of_isolated {running : Bool} {task : Task σ}
    (arrival : activation.arrival? heap running = some task) (isolated : task.isolated = true) :
    ∃ (α : Type) (keep : Code σ α → Activation σ) (code : Code σ α),
      activation.Holds keep code ∧ code.arrival? heap running = some task ∧
        code.isOver = false := by
  have going {α : Type} {code : Code σ α} (arrival : code.arrival? heap running = some task) :
      code.isOver = false := by
    cases code with
    | done | panic => cases arrival
    | _ => rfl
  have shared {callback : CallbackId} {value : Erased}
      (arrival : resumed? heap running callback value = some task) : False := by
    unfold resumed? at arrival
    split at arrival
    · split at arrival
      · cases arrival
        cases isolated
      · cases arrival
    · cases arrival
  cases activation with
  | program code => exact ⟨_, _, code, .program code, arrival, going arrival⟩
  | callback code => exact ⟨_, _, code, .callback code, arrival, going arrival⟩
  | loop id focus stack =>
    cases focus with
    | node current =>
      simp only [Activation.arrival?] at arrival
      split at arrival
      · cases arrival
      · split at arrival
        · split at arrival <;> cases arrival
          cases isolated
        · split at arrival <;> cases arrival
          cases isolated
        · cases arrival
    | value | cause => cases arrival
    | thunk code => exact ⟨_, _, code, .thunk id code stack, arrival, going arrival⟩
    | raising code => exact ⟨_, _, code, .raising id code stack, arrival, going arrival⟩
    | building code => exact ⟨_, _, code, .building id code stack, arrival, going arrival⟩
    | registering callback code =>
      exact ⟨_, _, code, .registering id callback code stack, arrival, going arrival⟩
  | notifying exit observers =>
    cases observers with
    | nil => cases arrival
    | cons observer rest =>
      cases observer with
      | resume type callback => exact (shared arrival).elim
      | call | answer => cases arrival
  | posting | opening | draining => cases arrival

/-- An isolated task is the first batch of a root fiber that is made in this step, or comes from an
executor. -/
theorem root_of_isolated {α : Type} {code : Code σ α} {running : Bool} {task : Task σ}
    (arrival : code.arrival? heap running = some task) (isolated : task.isolated = true) :
    code.root? heap = some task.batch ∨
      ∃ executor, task ∈ (heap.waiting executor).toList := by
  cases code with
  | complete callback value next =>
    simp only [Action.arrival?, resumed?] at arrival
    split at arrival
    · split at arrival
      · cases arrival
        cases isolated
      · cases arrival
    · cases arrival
  | launch | launchWith | submit =>
    simp only [Action.arrival?] at arrival
    split at arrival
    · cases arrival
      exact .inl rfl
    · cases arrival
  | runTask executor newest next =>
    obtain ⟨⟨_, rest⟩, popped, rfl⟩ := Option.map_eq_some_iff.mp arrival
    obtain ⟨before, after, waiting, _⟩ := Queue.exists_split_of_pop? popped
    exact .inr ⟨executor, waiting ▸ List.mem_append_cons_self⟩
  | _ => cases arrival

theorem executors_takePanic (heap : Heap σ) (thread : Thread σ) (payload : Payload)
    (activation : Activation σ) :
    (takePanic heap thread payload activation).1.executors = heap.executors := by
  cases activation with
  | loop id focus stack =>
    cases focus with
    | node | value | cause => rfl
    | thunk | raising | building | registering => exact Heap.executors_report _ _ _ _
  | callback | posting | opening => exact Heap.executors_report _ _ _ _
  | program | notifying | draining => rfl

/-- A panic that a thread takes changes its queue only at the end of a drain. -/
theorem pending_takePanic (heap : Heap σ) (thread : Thread σ) (payload : Payload)
    {activation : Activation σ} (busy : ∀ outer, activation ≠ .draining outer) :
    (takePanic heap thread payload activation).2.pending = thread.pending := by
  cases activation with
  | loop id focus stack => cases focus <;> rfl
  | draining outer => exact absurd rfl (busy outer)
  | program | callback | posting | opening | notifying => rfl

end Machine

end Fibers
