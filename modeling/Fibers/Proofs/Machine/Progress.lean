import Fibers.Proofs.Machine.Handover
import Fibers.Proofs.Machine.Loop

/-!
# Ends and registrations

A fiber runs, with its observers waiting in the order in which they came, until it ends with its
exit.

## Main result

`Machine.progress_advance`: a step ends the fiber whose loop has run out of frames, or registers the
one observer that user code comes with. Nothing else changes who has ended and who waits for whom.
-/

namespace Fibers

variable {σ : Type}

/-! ### Progress -/

namespace Progress

/-- The observers that wait for the exit of a fiber. -/
def observers : Progress σ → List (Observer σ)
  | .running observers => observers
  | .done _ => []

/-- The exit of a fiber, if it is done. -/
def exit? : Progress σ → Option (Exit Erased)
  | .running _ => none
  | .done exit => some exit

/-- One more observer comes, behind the others; a fiber that has ended keeps nobody waiting. -/
def register (observer : Observer σ) : Progress σ → Progress σ
  | .running observers => .running (observers ++ [observer])
  | .done exit => .done exit

@[simp] theorem exit?_register (observer : Observer σ) (progress : Progress σ) :
    (progress.register observer).exit? = progress.exit? := by
  cases progress <;> rfl

theorem observers_register (observer : Observer σ) {progress : Progress σ}
    (running : progress.exit? = none) :
    (progress.register observer).observers = progress.observers ++ [observer] := by
  cases progress with
  | running => rfl
  | done => cases running

end Progress

namespace Heap

/-- How far a fiber is. Nobody waits for one that is yet to be made. -/
def progress (heap : Heap σ) (id : FiberId) : Progress σ :=
  (heap.fiber? id).elim (.running []) FiberState.progress

/-- The observers that wait for the exit of a fiber. -/
def observers (heap : Heap σ) (id : FiberId) : List (Observer σ) := (heap.progress id).observers

theorem exit?_progress (heap : Heap σ) (id : FiberId) :
    (heap.progress id).exit? = heap.poll id := by
  unfold progress poll
  cases heap.fiber? id with
  | none => rfl
  | some fiber =>
    obtain ⟨progress, _⟩ := fiber
    cases progress <;> rfl

theorem progress_congr (heap : Heap σ) {target id : FiberId} (own : target.index = id.index) :
    heap.progress target = heap.progress id := by
  rw [progress, progress, heap.fiber?_congr own]

theorem poll_congr (heap : Heap σ) {target id : FiberId} (own : target.index = id.index) :
    heap.poll target = heap.poll id := by
  rw [← exit?_progress, ← exit?_progress, heap.progress_congr own]

theorem progress_of_fibers {heap heap' : Heap σ} (same : heap'.fibers = heap.fibers)
    (id : FiberId) :
    heap'.progress id = heap.progress id := by
  rw [progress, progress, fiber?, fiber?, same]

@[simp] theorem progress_report (heap : Heap σ) (thread : ThreadId) (severity : Severity)
    (event : Unit → Event) (id : FiberId) :
    (heap.report thread severity event).progress id = heap.progress id :=
  progress_of_fibers (heap.tables_report thread severity event).1 id

@[simp] theorem progress_noteDefect (heap : Heap σ) (thread : ThreadId) (payload : Payload)
    (id : FiberId) : (heap.noteDefect thread payload).progress id = heap.progress id := by
  rw [noteDefect, progress_report]
  rfl

theorem progress_updateFiber (heap : Heap σ) (fiber id : FiberId)
    {f : FiberState σ → FiberState σ} (kept : ∀ state, (f state).progress = state.progress) :
    (heap.updateFiber fiber f).progress id = heap.progress id := by
  rw [progress, progress, fiber?, fiber?, fibers_updateFiber]
  cases heap.fibers[id.index]? with
  | none => rw [Option.map_none, ite_self]
  | some state =>
    split
    · exact kept state
    · rfl

theorem progress_addFiber (heap : Heap σ) (fiber : FiberState σ) (id : FiberId) :
    (heap.addFiber fiber).progress id =
      if heap.nextFiber.index = id.index then fiber.progress else heap.progress id := by
  have next : heap.nextFiber.index = heap.fibers.size := rfl
  rw [progress, progress, fiber?, fiber?, addFiber, Array.getElem?_push, next]
  by_cases own : id.index = heap.fibers.size
  · rw [if_pos own, if_pos own.symm]
    rfl
  · rw [if_neg own, if_neg (Ne.symm own)]

theorem progress_nextFiber (heap : Heap σ) {id : FiberId} (next : heap.nextFiber.index = id.index) :
    heap.progress id = .running [] := by
  have missing : heap.fiber? id = none :=
    Array.getElem?_eq_none_iff.mpr (le_of_eq next)
  rw [progress, missing]
  rfl

end Heap

/-! ### What a step is about to do -/

/-- The fiber with which user code registers an observer by its next request, and the observer. -/
def Action.registered? {α : Type} (heap : Heap σ) : Code σ α → Option (FiberId × Observer σ)
  | .observe fiber type callback _ =>
    if (heap.fiber? fiber).isSome then some (fiber, .resume type callback) else none
  | .launchWith _ _ callback _ => some (heap.nextFiber, .call callback)
  | .submit _ _ type _ => some (heap.nextFiber, .answer type heap.nextMailbox)
  | _ => none

namespace Activation

/-- The fiber with which the next step registers an observer, and the observer. -/
def registered? (heap : Heap σ) : Activation σ → Option (FiberId × Observer σ)
  | .program code | .callback code | .loop _ (.registering _ code) _ => code.registered? heap
  | .loop _ (.thunk code) _ => code.registered? heap
  | .loop _ (.raising code) _ => code.registered? heap
  | .loop _ (.building code) _ => code.registered? heap
  | _ => none

theorem Holds.registered? {activation : Activation σ} {α : Type} {keep : Code σ α → Activation σ}
    {code : Code σ α} (holds : activation.Holds keep code) (heap : Heap σ) :
    activation.registered? heap = code.registered? heap := by
  cases holds <;> rfl

/-- The fiber that the next step ends, and its exit. -/
def ends? : Activation σ → Option (FiberId × Exit Erased)
  | .loop id (.value value) [] => some (id, .success value)
  | .loop id (.cause cause) stack =>
    match unwind stack with
    | some _ => none
    | none => some (id, .failure cause)
  | _ => none

theorem Holds.ends? {activation : Activation σ} {α : Type} {keep : Code σ α → Activation σ}
    {code : Code σ α} (holds : activation.Holds keep code) : activation.ends? = none := by
  cases holds <;> rfl

theorem loop_of_ends? {activation : Activation σ} {id : FiberId} {exit : Exit Erased}
    (ends : activation.ends? = some (id, exit)) :
    ∃ focus stack, activation = .loop id focus stack := by
  unfold ends? at ends
  split at ends
  next =>
    cases ends
    exact ⟨_, _, rfl⟩
  next =>
    split at ends
    next => cases ends
    next =>
      cases ends
      exact ⟨_, _, rfl⟩
  next => cases ends

theorem ends?_of_registered? {heap : Heap σ} {activation : Activation σ}
    {registration : FiberId × Observer σ}
    (registered : activation.registered? heap = some registration) :
    activation.ends? = none := by
  cases activation with
  | loop id focus stack =>
    cases focus with
    | node | value | cause => cases registered
    | thunk | raising | building | registering => rfl
  | _ => rfl

end Activation

/-- The progress of a fiber after a registration, if there is one. -/
def Heap.progressWith (heap : Heap σ) (registration : Option (FiberId × Observer σ))
    (id : FiberId) : Progress σ :=
  match registration with
  | some (target, observer) =>
    if target.index = id.index then (heap.progress id).register observer else heap.progress id
  | none => heap.progress id

theorem Heap.progressWith_nextFiber (heap : Heap σ) (observer : Observer σ) (id : FiberId) :
    (if heap.nextFiber.index = id.index then .running [observer] else heap.progress id) =
      heap.progressWith (some (heap.nextFiber, observer)) id := by
  unfold progressWith
  dsimp only
  split
  next next =>
    rw [heap.progress_nextFiber next]
    rfl
  next => rfl

/-- Who registers with a fiber that has ended is told its exit, and nobody else is. -/
def Heap.answered? (heap : Heap σ) (registration : Option (FiberId × Observer σ)) :
    Option (Exit Erased × List (Observer σ)) :=
  registration.bind fun (id, observer) => (heap.poll id).map fun exit => (exit, [observer])

/-- The exit that is announced in the next step of an activation, and to whom. -/
def Heap.announced? (heap : Heap σ) (activation : Activation σ) :
    Option (Exit Erased × List (Observer σ)) :=
  match activation.ends? with
  | some (id, exit) => some (exit, heap.observers id)
  | none => heap.answered? (activation.registered? heap)

theorem Heap.answered?_nextFiber (heap : Heap σ) (observer : Observer σ) :
    heap.answered? (some (heap.nextFiber, observer)) = none := by
  have running : heap.poll heap.nextFiber = none := by
    rw [← heap.exit?_progress, heap.progress_nextFiber rfl]
    rfl
  simp [answered?, running]

/-- The progress of a fiber after an activation has made a step. -/
def Heap.progressAfter (heap : Heap σ) (activation : Activation σ) (id : FiberId) : Progress σ :=
  match activation.ends? with
  | some (ended, exit) => if ended.index = id.index then .done exit else heap.progress id
  | none => heap.progressWith (activation.registered? heap) id

theorem Heap.progressAfter_of_registered {heap : Heap σ} {activation : Activation σ}
    {target id : FiberId} {observer : Observer σ}
    (registered : activation.registered? heap = some (target, observer))
    (own : target.index = id.index) :
    heap.progressAfter activation id = (heap.progress id).register observer := by
  rw [progressAfter, Activation.ends?_of_registered? registered, registered]
  exact if_pos own

theorem Heap.announced?_of_registered {heap : Heap σ} {activation : Activation σ}
    {target id : FiberId} {observer : Observer σ} {exit : Exit Erased}
    (registered : activation.registered? heap = some (target, observer))
    (own : target.index = id.index) (ended : heap.poll id = some exit) :
    heap.announced? activation = some (exit, [observer]) := by
  have told : heap.poll target = some exit := (heap.poll_congr own).trans ended
  simp [announced?, Activation.ends?_of_registered? registered, registered, answered?, told]

/-- An exit is announced when its fiber ends, or to somebody who asks for it later. -/
theorem Heap.announced?_cases {heap : Heap σ} {activation : Activation σ} {exit : Exit Erased}
    {observers : List (Observer σ)}
    (announced : heap.announced? activation = some (exit, observers)) :
    (∃ id, activation.ends? = some (id, exit) ∧ observers = heap.observers id) ∨
      ∃ id observer, activation.registered? heap = some (id, observer) ∧
        heap.poll id = some exit ∧ observers = [observer] := by
  unfold announced? at announced
  cases ends : activation.ends? with
  | some ending =>
    obtain ⟨id, last⟩ := ending
    rw [ends] at announced
    cases announced
    exact .inl ⟨id, rfl, rfl⟩
  | none =>
    rw [ends] at announced
    obtain ⟨⟨id, observer⟩, registered, told⟩ := Option.bind_eq_some_iff.mp announced
    obtain ⟨_, ended, whom⟩ := Option.map_eq_some_iff.mp told
    cases whom
    exact .inr ⟨id, observer, registered, ended, rfl⟩

namespace Machine

variable (heap : Heap σ) (thread : Thread σ) (id : FiberId)

/-! ### Operations -/

theorem progress_execute (executor : ExecutorId) (task : Task σ) :
    (execute heap thread executor task).1.progress id = heap.progress id :=
  Heap.progress_of_fibers (executes_execute heap thread executor task).fibers id

theorem progress_start {fiber : FiberState σ} {effect : Node σ} (seed : fiber.seed = some effect)
    (root : Bool) :
    (start (heap.addFiber fiber) thread heap.nextFiber root).1.progress id =
      if heap.nextFiber.index = id.index then fiber.progress else heap.progress id := by
  have launched : (heap.launch fiber).progress id = (heap.addFiber fiber).progress id :=
    (heap.addFiber fiber).progress_updateFiber _ id fun _ => rfl
  have fibers := (executes_start heap thread seed root).fibers
  exact (Heap.progress_of_fibers fibers id).trans (launched.trans (heap.progress_addFiber fiber id))

theorem progress_completeCallback (callback : CallbackId) (value : Erased) :
    (completeCallback heap thread callback value).1.progress id = heap.progress id := by
  unfold completeCallback
  split
  next => rfl
  next fiber stack _ =>
    have fibers := (executes_resume (heap.setRendezvous callback .resumed) thread fiber value
      stack).fibers
    exact Heap.progress_of_fibers fibers id
  next => rfl

theorem progress_requestInterrupt (target : FiberId) :
    (requestInterrupt heap thread target).progress id = heap.progress id := by
  have raised : (heap.updateFlags target InterruptFlags.request).progress id = heap.progress id :=
    heap.progress_updateFiber target id fun _ => rfl
  unfold requestInterrupt
  split
  next =>
    dsimp only
    split
    next => exact raised
    next => exact (Heap.progress_report _ _ _ _ id).trans raised
  next => rfl

theorem progress_observe {target : FiberId} {fiber : FiberState σ}
    (present : heap.fiber? target = some fiber) (observer : Observer σ) :
    (observe heap thread target observer).1.progress id =
      heap.progressWith (some (target, observer)) id := by
  obtain ⟨progress, flags, environments, executor, seed⟩ := fiber
  unfold Heap.progressWith observe
  rw [present]
  cases progress with
  | running observers =>
    simp only [Heap.progress, Heap.fiber?, Heap.fibers_updateFiber]
    split
    next own =>
      rw [Heap.fiber?, own] at present
      rw [present]
      rfl
    next => rfl
  | done exit =>
    dsimp only
    split
    next own =>
      rw [← heap.progress_congr own, Heap.progress, present]
      rfl
    next => rfl

theorem progress_completeFiber {ended : FiberId} {fiber : FiberState σ}
    (present : heap.fiber? ended = some fiber) (running : fiber.exit? = none) (exit : Exit Erased) :
    (completeFiber heap thread ended exit).1.progress id =
      if ended.index = id.index then .done exit else heap.progress id := by
  obtain ⟨progress, flags, environments, executor, seed⟩ := fiber
  cases progress with
  | done => cases running
  | running observers =>
    rw [completeFiber, present]
    refine (Heap.progress_report _ _ _ _ id).trans ?_
    rw [Heap.progress, Heap.progress, Heap.fiber?, Heap.fibers_updateFiber]
    split
    next own =>
      rw [Heap.fiber?, own] at present
      rw [present]
      rfl
    next => rfl

theorem progress_newRoot (executor : ExecutorId) (root : Node σ) (observers : List (Observer σ)) :
    (start (newRoot heap executor root observers) thread heap.nextFiber true).1.progress id =
      if heap.nextFiber.index = id.index then .running observers else heap.progress id :=
  progress_start heap thread id rfl true

/-- A request of user code registers the observer that it comes with. -/
theorem progress_perform {α : Type} (keep : Code σ α → Activation σ) (code : Code σ α) :
    (perform heap thread keep code).1.progress id =
      heap.progressWith (code.registered? heap) id := by
  cases code with
  | complete callback value next =>
    exact progress_completeCallback heap (thread.push (keep (next ⟨⟩))) id callback value
  | observe fiber type callback next =>
    cases present : heap.fiber? fiber with
    | none => simp [perform, observe, present, Action.registered?, Heap.progressWith]
    | some state =>
      rw [Action.registered?, present]
      exact progress_observe heap _ id present _
  | interrupt fiber next => exact progress_requestInterrupt heap thread id fiber
  | launch executor root next =>
    refine (progress_newRoot heap _ id executor root []).trans ?_
    split
    next next => exact (heap.progress_nextFiber next).symm
    next => rfl
  | launchWith executor root callback next =>
    have made := progress_newRoot heap (thread.push (keep (next heap.nextFiber))) id executor root
      [.call callback]
    exact made.trans (heap.progressWith_nextFiber _ id)
  | submit executor root type next =>
    have made := progress_newRoot heap.addMailbox (thread.push (keep (next heap.nextMailbox))) id
      executor root [.answer type heap.nextMailbox]
    exact made.trans (heap.progressWith_nextFiber _ id)
  | wait mailbox deadline next =>
    rw [perform]
    split
    · rfl
    · split <;> rfl
  | runTask executor newest next =>
    rw [perform]
    split <;> rfl
  | report event next => exact heap.progress_report thread.id event.severity _ id
  | _ => rfl

/-! ### Steps -/

theorem progress_interpret (fiber : FiberId) (stack : List (Frame σ)) (current : Node σ) :
    (interpret heap thread fiber stack current).1.progress id = heap.progress id := by
  have kept : ∀ {f : FiberState σ → FiberState σ}, (∀ state, (f state).progress = state.progress) →
      (heap.updateFiber fiber f).progress id = heap.progress id :=
    heap.progress_updateFiber fiber id
  cases current with
  | flatMap | fold => exact heap.progress_report thread.id _ _ id
  | fork effect =>
    -- The child is made without observers, as if it had been there before.
    obtain ⟨event, reported, child, rfl, next, seed, alone, _, forked⟩ :=
      exists_fork_eq heap thread fiber effect stack
    rw [interpret, forked, progress_start _ _ id seed, alone, next, Heap.progress_report]
    split
    next next => exact (heap.progress_nextFiber next).symm
    next => rfl
  | shift executor =>
    refine (progress_execute _ thread id executor _).trans ?_
    exact (Heap.progress_report _ _ _ _ id).trans (kept fun _ => rfl)
  | withStatus | provide | restoreStatus | leaveScope => exact kept fun _ => rfl
  | access continuation =>
    rw [interpret]
    split <;> rfl
  | _ => rfl

theorem progress_unwindLoop (payload : Payload) (fiber : FiberId) (stack : List (Frame σ))
    (focus : Focus σ) :
    (unwindLoop heap thread payload fiber stack focus).1.progress id = heap.progress id := by
  cases focus with
  | node | value | cause => rfl
  | thunk | raising | building | registering => exact heap.progress_noteDefect thread.id payload id

theorem progress_stepLoop {own : FiberId} {fiber : FiberState σ}
    (present : heap.fiber? own = some fiber) (running : fiber.exit? = none) (stack : List (Frame σ))
    (focus : Focus σ) :
    (stepLoop heap thread own stack focus).1.progress id =
      heap.progressAfter (.loop own focus stack) id := by
  have turn := turns_stepLoop heap thread own stack focus
  generalize stepLoop heap thread own stack focus = next at turn ⊢
  cases turn with
  | interrupts =>
    refine (Heap.progress_report _ _ _ _ id).trans ?_
    exact heap.progress_updateFiber own id fun _ => rfl
  | interprets => exact progress_interpret heap thread id own stack _
  | delivers => exact heap.progress_report thread.id _ _ id
  | succeeds => exact progress_completeFiber heap thread id present running (.success _)
  | handles found =>
    simp only [Heap.progressAfter, Activation.ends?, found]
    rfl
  | fails missing =>
    simp only [Heap.progressAfter, Activation.ends?, missing]
    exact progress_completeFiber heap thread id present running (.failure _)
  | hands ended => cases ended <;> rfl
  | parks =>
    unfold park
    split
    next => rfl
    next => exact Heap.progress_report _ _ _ _ id
  | panics panics => cases panics <;> exact progress_unwindLoop heap thread id _ own stack _
  | requests holds => cases holds <;> exact progress_perform heap thread id _ _

/-- A step of a thread that is not panicking, if its innermost loop belongs to a running fiber. -/
theorem progress_advance {activation : Activation σ}
    (running : ∀ own focus stack, activation = .loop own focus stack →
      ∃ fiber, heap.fiber? own = some fiber ∧ fiber.exit? = none) :
    (advance heap thread activation).1.progress id = heap.progressAfter activation id := by
  cases activation with
  | program code =>
    cases code with
    | done => rfl
    | _ => exact progress_perform heap thread id _ _
  | callback code =>
    cases code with
    | done => rfl
    | _ => exact progress_perform heap thread id _ _
  | loop own focus stack =>
    obtain ⟨fiber, present, running⟩ := running own focus stack rfl
    exact progress_stepLoop heap thread id present running stack focus
  | notifying exit observers =>
    cases observers with
    | nil => rfl
    | cons observer rest =>
      cases observer with
      | resume type callback => exact progress_completeCallback heap _ id callback _
      | call callback =>
        obtain ⟨run⟩ := callback
        rfl
      | answer => rfl
  | draining outer =>
    simp only [advance]
    split <;> rfl
  | posting | opening => rfl

theorem progress_takePanic (payload : Payload) (activation : Activation σ) :
    (takePanic heap thread payload activation).1.progress id = heap.progress id := by
  cases activation with
  | loop own focus stack => exact progress_unwindLoop heap thread id payload own stack focus
  | callback | posting | opening => exact heap.progress_noteDefect thread.id payload id
  | program | notifying | draining => rfl

theorem progress_crash (payload : Payload) :
    (crash heap thread payload).1.progress id = heap.progress id := by
  unfold crash
  split
  next => exact heap.progress_report thread.id _ _ id
  next => rfl

end Machine

end Fibers
