import Fibers.Machine.World
import Fibers.Proofs.Tally
import Mathlib.Algebra.Order.BigOperators.Group.List

/-!
# Where fibers stand

The control state of a fiber is nowhere in particular: it may be the seed of a fiber that has not
started, a batch queued on a thread, a batch in a waiting task, a loop, or frames left with a
suspension. `places` collects what all of these say about one fiber. A `Place` does not tell a
queued batch from a loop about to poll, so handing a batch from one to the other keeps the place.
-/

namespace Fibers

variable {σ : Type}

/-- The point that a fiber has reached. -/
inductive Place (σ : Type) where
  /-- About to poll, in the middle of a step, or with an outcome for its frames. -/
  | active (focus : Focus σ) (stack : List (Frame σ))
  /-- Waiting for a callback. -/
  | suspended (callback : CallbackId) (stack : List (Frame σ))

/-- The frames under a place. -/
def Place.stack : Place σ → List (Frame σ)
  | .active _ stack => stack
  | .suspended _ stack => stack

/-! ## The five holders of a place -/

/-- The place in the seed of a fiber that has not started. -/
def FiberState.places (id : FiberId) (index : Nat) (fiber : FiberState σ) : Multiset (Place σ) :=
  match fiber.seed with
  | some effect => if FiberId.ofIndex index = id then {.active (.node effect) []} else 0
  | none => 0

/-- The place in a batch. -/
def Batch.places (id : FiberId) (batch : Batch σ) : Multiset (Place σ) :=
  if batch.fiber = id then {.active (.node batch.current) batch.stack} else 0

/-- The places in the tasks that wait at an executor. -/
def Executor.places (id : FiberId) (executor : Executor σ) : Multiset (Place σ) :=
  (executor.waiting.toList.map fun task => task.batch.places id).sum

/-- The place in the frames left with a suspension. -/
def Suspension.places (id : FiberId) (index : Nat) (suspension : Suspension σ) :
    Multiset (Place σ) :=
  match suspension.state with
  | .parked stack => if suspension.fiber = id then {.suspended ⟨index⟩ stack} else 0
  | _ => 0

/-- The places in the batches queued on a thread. -/
def queuedPlaces (id : FiberId) (queue : Option (Queue (Batch σ))) : Multiset (Place σ) :=
  (queue.elim [] Queue.toList |>.map (Batch.places id)).sum

/-- The place of a loop, or those in a queue set aside by a drain. -/
def Activation.places (id : FiberId) : Activation σ → Multiset (Place σ)
  | .loop fiber focus stack => if fiber = id then {.active focus stack} else 0
  | .draining outer => queuedPlaces id outer
  | _ => 0

/-! ## Collecting them -/

/-- The places of a fiber that are in the heap. -/
def Heap.places (heap : Heap σ) (id : FiberId) : Multiset (Place σ) :=
  tally (FiberState.places id) heap.fibers + tally (fun _ => Executor.places id) heap.executors +
    tally (Suspension.places id) heap.suspensions

/-- The places of a fiber that are on a thread. -/
def Thread.places (thread : Thread σ) (id : FiberId) : Multiset (Place σ) :=
  queuedPlaces id thread.pending + (thread.control.map (Activation.places id)).sum

/-- All threads of a machine, the caller's own first. -/
def World.threads (world : World σ) : List (Thread σ) := world.main :: world.others.toList

/-- All places of a fiber. -/
def World.places (world : World σ) (id : FiberId) : Multiset (Place σ) :=
  world.heap.places id + (world.threads.map fun thread => thread.places id).sum

/-- Whether a fiber has been made. -/
def Heap.Knows (heap : Heap σ) (id : FiberId) : Prop :=
  ∃ index < heap.fibers.size, id = .ofIndex index

theorem Heap.Knows.exists_fiber {heap : Heap σ} {id : FiberId} (h : heap.Knows id) :
    ∃ fiber, heap.fiber? id = some fiber := by
  obtain ⟨index, small, rfl⟩ := h
  exact ⟨_, Array.getElem?_eq_getElem small⟩

theorem Heap.fiber?_congr (heap : Heap σ) {id other : FiberId} (same : id.index = other.index) :
    heap.fiber? id = heap.fiber? other := by
  rw [fiber?, fiber?, same]

/-! ## Threads -/

@[simp] theorem queuedPlaces_push (id : FiberId) (queue : Queue (Batch σ)) (batch : Batch σ) :
    queuedPlaces id (some (queue.push batch)) = queuedPlaces id (some queue) + batch.places id := by
  simp [queuedPlaces]

theorem queuedPlaces_popFront {id : FiberId} {queue rest : Queue (Batch σ)} {batch : Batch σ}
    (h : queue.popFront? = some (batch, rest)) :
    queuedPlaces id (some queue) = batch.places id + queuedPlaces id (some rest) := by
  simp [queuedPlaces, Queue.toList_of_popFront? h]

theorem queuedPlaces_of_popFront_none {id : FiberId} {queue : Option (Queue (Batch σ))}
    (h : queue.bind Queue.popFront? = none) : queuedPlaces id queue = 0 := by
  cases queue with
  | none => rfl
  | some queue =>
    have empty := (Queue.popFront?_eq_none_iff queue).mp h
    simp [queuedPlaces, empty]

@[simp] theorem Thread.places_push (thread : Thread σ) (activation : Activation σ) (id : FiberId) :
    (thread.push activation).places id = activation.places id + thread.places id := by
  simp only [Thread.places, Thread.push, List.map_cons, List.sum_cons]
  rw [add_left_comm]

theorem Thread.places_of_control {thread : Thread σ} {activation : Activation σ}
    {rest : List (Activation σ)} (h : thread.control = activation :: rest) (id : FiberId) :
    thread.places id = activation.places id + { thread with control := rest }.places id := by
  simp only [Thread.places, h, List.map_cons, List.sum_cons]
  rw [add_left_comm]

theorem Activation.places_le {activation : Activation σ} {thread : Thread σ}
    (mem : activation ∈ thread.control) (id : FiberId) :
    activation.places id ≤ thread.places id :=
  (List.le_sum_of_mem (List.mem_map_of_mem mem)).trans (Multiset.le_add_left _ _)

/-- Whether an activation is a loop of a fiber. -/
def Activation.Runs (id : FiberId) : Activation σ → Prop
  | .loop fiber _ _ => fiber = id
  | _ => False

theorem Activation.Runs.places_ne_zero {id : FiberId} {activation : Activation σ}
    (h : activation.Runs id) : activation.places id ≠ 0 := by
  cases activation with
  | loop fiber focus stack =>
    have own : fiber = id := h
    rw [Activation.places, if_pos own]
    exact Multiset.singleton_ne_zero _
  | _ => cases h

/-- The activations that are in the middle of a request: those under another one and, while the
thread is panicking, the innermost one too. -/
def Thread.covered (thread : Thread σ) : List (Activation σ) :=
  if thread.panicking.isSome then thread.control else thread.control.tail

theorem Thread.mem_control_of_covered {thread : Thread σ} {activation : Activation σ}
    (h : activation ∈ thread.covered) : activation ∈ thread.control := by
  unfold Thread.covered at h
  split at h
  · exact h
  · exact List.mem_of_mem_tail h

/-- Whatever is under an activation is in the middle of a request. -/
theorem Thread.mem_covered_of_control {thread : Thread σ} {activation other : Activation σ}
    {rest : List (Activation σ)} (control : thread.control = activation :: rest)
    (mem : other ∈ rest) : other ∈ thread.covered := by
  unfold Thread.covered
  rw [control]
  split
  · exact List.mem_cons_of_mem _ mem
  · exact mem

theorem Thread.covered_of_calm {thread : Thread σ} (calm : thread.panicking = none) :
    thread.covered = thread.control.tail := by
  rw [Thread.covered, calm]
  rfl

theorem Thread.covered_of_idle {thread : Thread σ} (idle : thread.control = []) :
    thread.covered = thread.control := by
  rw [Thread.covered, idle, List.tail_nil, ite_self]

/-- Running a task brings its batch onto the thread, whether it is queued or begins a loop. -/
@[simp] theorem Thread.places_run (thread : Thread σ) (task : Task σ) (id : FiberId) :
    (thread.run task).places id = task.batch.places id + thread.places id := by
  unfold Thread.run
  split
  next pending =>
    simp only [Thread.places, pending, queuedPlaces_push]
    rw [add_right_comm, add_comm]
  next =>
    have fresh : queuedPlaces id (some ({} : Queue (Batch σ))) = 0 := rfl
    simp only [Thread.places, fresh, List.map_cons, List.sum_cons, Activation.places, zero_add,
      Batch.places]

/-! ## Tables of the heap -/

@[simp] theorem Heap.places_report (heap : Heap σ) (thread : ThreadId) (severity : Severity)
    (event : Unit → Event) (id : FiberId) :
    (heap.report thread severity event).places id = heap.places id := by
  unfold Heap.report
  split <;> rfl

@[simp] theorem Heap.places_noteDefect (heap : Heap σ) (thread : ThreadId) (payload : Payload)
    (id : FiberId) : (heap.noteDefect thread payload).places id = heap.places id := by
  rw [Heap.noteDefect, Heap.places_report]
  rfl

/-- A change that keeps the seed of a fiber keeps every place. -/
theorem Heap.places_updateFiber (heap : Heap σ) (fiber id : FiberId)
    (f : FiberState σ → FiberState σ) (seed : ∀ state, (f state).seed = state.seed) :
    (heap.updateFiber fiber f).places id = heap.places id := by
  have fibers : tally (FiberState.places id) (heap.fibers.modify fiber.index f) =
      tally (FiberState.places id) heap.fibers :=
    tally_modify _ _ fun state _ => by simp only [FiberState.places, seed]
  unfold Heap.places Heap.updateFiber
  rw [fibers]

@[simp] theorem Heap.places_updateFlags (heap : Heap σ) (fiber id : FiberId)
    (f : InterruptFlags → InterruptFlags) :
    (heap.updateFlags fiber f).places id = heap.places id :=
  heap.places_updateFiber fiber id _ fun _ => rfl

@[simp] theorem Heap.places_enterScope (heap : Heap σ) (fiber id : FiberId) (value : Erased) :
    (heap.enterScope fiber value).places id = heap.places id :=
  heap.places_updateFiber fiber id _ fun _ => rfl

@[simp] theorem Heap.places_leaveScope (heap : Heap σ) (fiber id : FiberId) :
    (heap.leaveScope fiber).places id = heap.places id :=
  heap.places_updateFiber fiber id _ fun _ => rfl

@[simp] theorem Heap.places_setExecutor (heap : Heap σ) (fiber id : FiberId)
    (executor : ExecutorId) : (heap.setExecutor fiber executor).places id = heap.places id :=
  heap.places_updateFiber fiber id _ fun _ => rfl

@[simp] theorem Heap.places_addSuspension (heap : Heap σ) (fiber id : FiberId) :
    (heap.addSuspension fiber).places id = heap.places id := by
  simp [Heap.places, Heap.addSuspension, Suspension.places]

theorem Suspension.places_of_not_parked (id : FiberId) (index : Nat) {suspension : Suspension σ}
    (h : ∀ stack, suspension.state ≠ .parked stack) : suspension.places id index = 0 := by
  unfold Suspension.places
  split
  next stack parked => exact absurd parked (h stack)
  next => rfl

/-- What a suspension holds is exchanged when its state changes. -/
theorem Heap.places_setRendezvous {heap : Heap σ} {callback : CallbackId}
    {suspension : Suspension σ} (known : heap.suspension? callback = some suspension)
    (state : Rendezvous σ) (id : FiberId) :
    ∃ rest, heap.places id = suspension.places id callback.index + rest ∧
      (heap.setRendezvous callback state).places id =
        { suspension with state := state }.places id callback.index + rest := by
  obtain ⟨rest, before, after⟩ := exists_tally_modify (Suspension.places id) known
  refine ⟨tally (FiberState.places id) heap.fibers +
    tally (fun _ => Executor.places id) heap.executors + rest, ?_, ?_⟩
  · rw [Heap.places, before]
    abel
  · simp only [Heap.places, Heap.setRendezvous, after]
    abel

/-- What an executor holds is exchanged when its waiting tasks change. -/
theorem Heap.places_modifyExecutor {heap : Heap σ} {index : Nat} {executor : Executor σ}
    (known : heap.executors[index]? = some executor) (f : Executor σ → Executor σ)
    (id : FiberId) :
    ∃ rest, heap.places id = executor.places id + rest ∧
      { heap with executors := heap.executors.modify index f }.places id =
        (f executor).places id + rest := by
  obtain ⟨rest, before, after⟩ := exists_tally_modify (fun _ => Executor.places id) known
  refine ⟨tally (FiberState.places id) heap.fibers + rest +
    tally (Suspension.places id) heap.suspensions, ?_, ?_⟩
  · rw [Heap.places, before]
    abel
  · simp only [Heap.places, after]
    abel

theorem Heap.places_enqueue {heap : Heap σ} {executor : ExecutorId} {state : Executor σ}
    (known : heap.executor? executor = some state) (task : Task σ) (id : FiberId) :
    (heap.enqueue executor task).places id = task.batch.places id + heap.places id := by
  obtain ⟨rest, before, after⟩ := Heap.places_modifyExecutor known
    (fun state => { state with waiting := state.waiting.push task }) id
  rw [Heap.enqueue, after, before]
  simp only [Executor.places, Queue.toList_push, List.map_append, List.map_cons, List.map_nil,
    List.sum_append, List.sum_cons, List.sum_nil]
  abel

theorem Queue.exists_split_of_pop? {α : Type} {queue rest : Queue α} {newest : Bool} {a : α}
    (h : queue.pop? newest = some (a, rest)) :
    ∃ before after, queue.toList = before ++ a :: after ∧ rest.toList = before ++ after := by
  unfold Queue.pop? at h
  split at h
  next => exact ⟨rest.toList, [], Queue.toList_of_popBack? h, (List.append_nil _).symm⟩
  next => exact ⟨[], rest.toList, Queue.toList_of_popFront? h, rfl⟩

/-- The tasks that wait at an executor change, and the fibers in them with them. -/
theorem Heap.exists_places_setWaiting {heap : Heap σ} {executor : ExecutorId}
    {state : Executor σ} (known : heap.executor? executor = some state) (rest : Queue (Task σ))
    (id : FiberId) :
    ∃ others, heap.places id = state.places id + others ∧
      (heap.setWaiting executor rest).places id =
        ({ state with waiting := rest } : Executor σ).places id + others :=
  Heap.places_modifyExecutor known (fun state => { state with waiting := rest }) id

/-- A task that is taken takes its place from the heap. -/
theorem Heap.places_of_waiting {heap : Heap σ} {executor : ExecutorId}
    {before after : List (Task σ)} {task : Task σ} {rest : Queue (Task σ)}
    (waiting : (heap.waiting executor).toList = before ++ task :: after)
    (left : rest.toList = before ++ after) (id : FiberId) :
    heap.places id = task.batch.places id + (heap.setWaiting executor rest).places id := by
  cases known : heap.executor? executor with
  | none => simp [Heap.waiting, known, Queue.toList] at waiting
  | some state =>
    obtain ⟨others, whole, changed⟩ := Heap.exists_places_setWaiting known rest id
    have waiting : state.waiting.toList = before ++ task :: after := by
      simpa only [Heap.waiting, known] using waiting
    rw [whole, changed]
    simp only [Executor.places, waiting, left, List.map_append, List.map_cons, List.sum_append,
      List.sum_cons]
    abel

theorem Heap.places_setWaiting_le {heap : Heap σ} {executor : ExecutorId}
    {rest : Queue (Task σ)} (left : rest.toList.Sublist (heap.waiting executor).toList)
    (id : FiberId) : (heap.setWaiting executor rest).places id ≤ heap.places id := by
  cases known : heap.executor? executor with
  | none =>
    rw [Heap.places, Heap.setWaiting, tally_modify_of_none _ _ known]
    exact le_rfl
  | some state =>
    obtain ⟨others, whole, changed⟩ := Heap.exists_places_setWaiting known rest id
    have left : rest.toList.Sublist state.waiting.toList := by
      simpa only [Heap.waiting, known] using left
    rw [whole, changed]
    refine add_le_add_left ?_ others
    exact (left.map fun task => task.batch.places id).sum_le_sum fun _ _ => Multiset.zero_le _

end Fibers
