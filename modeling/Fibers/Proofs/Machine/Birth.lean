import Fibers.Proofs.Machine.Refusal

/-!
# New fibers

A fiber is made by a request of user code or by a fork, and its effect is handed to an executor at
once.

## Main result

`Machine.bears_step`: a fiber that is made in a step begins with its effect and without frames,
unless its executor does not take it.

## Proof strategy

Every other operation keeps the number of fibers, so it leaves an unknown fiber unknown.
-/

namespace Fibers

variable {σ : Type}

theorem Heap.knows_iff_of_size {heap heap' : Heap σ}
    (same : heap'.fibers.size = heap.fibers.size) (id : FiberId) :
    heap'.Knows id ↔ heap.Knows id := by
  rw [Knows, Knows, same]

/-! ### Operations that make no fiber -/

@[simp] theorem Heap.size_report (heap : Heap σ) (thread : ThreadId) (severity : Severity)
    (event : Unit → Event) :
    (heap.report thread severity event).fibers.size = heap.fibers.size := by
  rw [(heap.tables_report thread severity event).1]

@[simp] theorem Heap.size_noteDefect (heap : Heap σ) (thread : ThreadId) (payload : Payload) :
    (heap.noteDefect thread payload).fibers.size = heap.fibers.size := by
  rw [noteDefect, size_report]

@[simp] theorem Heap.size_updateFiber (heap : Heap σ) (id : FiberId)
    (f : FiberState σ → FiberState σ) :
    (heap.updateFiber id f).fibers.size = heap.fibers.size := Array.size_modify

namespace Machine

variable {heap : Heap σ} {thread : Thread σ} {id : FiberId}

theorem size_execute (executor : ExecutorId) (task : Task σ) :
    (execute heap thread executor task).1.fibers.size = heap.fibers.size := by
  rw [(executes_execute heap thread executor task).fibers]

theorem size_completeCallback (callback : CallbackId) (value : Erased) :
    (completeCallback heap thread callback value).1.fibers.size = heap.fibers.size := by
  unfold completeCallback
  split
  next => rfl
  next fiber stack _ => rw [(executes_resume _ thread fiber value stack).fibers]; rfl
  next => rfl

theorem size_requestInterrupt (target : FiberId) :
    (requestInterrupt heap thread target).fibers.size = heap.fibers.size := by
  have raised : (heap.updateFlags target InterruptFlags.request).fibers.size = heap.fibers.size :=
    heap.size_updateFiber target _
  unfold requestInterrupt
  split
  next =>
    dsimp only
    split
    next => exact raised
    next => exact (Heap.size_report _ _ _ _).trans raised
  next => rfl

theorem size_observe (target : FiberId) (observer : Observer σ) :
    (observe heap thread target observer).1.fibers.size = heap.fibers.size := by
  unfold observe
  split
  next => exact heap.size_updateFiber target _
  next => rfl
  next => rfl

theorem size_notify (exit : Exit Erased) (observer : Observer σ) :
    (notify heap thread exit observer).1.fibers.size = heap.fibers.size := by
  cases observer with
  | resume type callback => exact size_completeCallback callback _
  | call callback =>
    obtain ⟨run⟩ := callback
    rfl
  | answer => rfl

theorem size_completeFiber (ended : FiberId) (exit : Exit Erased) :
    (completeFiber heap thread ended exit).1.fibers.size = heap.fibers.size := by
  unfold completeFiber
  split
  next => exact (Heap.size_report _ _ _ _).trans (heap.size_updateFiber ended _)
  next => rfl

theorem size_unwindLoop (payload : Payload) (owner : FiberId) (stack : List (Frame σ))
    (focus : Focus σ) :
    (unwindLoop heap thread payload owner stack focus).1.fibers.size = heap.fibers.size := by
  cases focus with
  | node | value | cause => rfl
  | thunk | raising | building | registering => exact heap.size_noteDefect thread.id payload

theorem size_park (owner : FiberId) (callback : CallbackId) (stack : List (Frame σ)) :
    (park heap thread owner callback stack).1.fibers.size = heap.fibers.size := by
  unfold park
  split
  next => rfl
  next => exact Heap.size_report _ _ _ _

/-! ### Operations that may make one -/

/-- After an operation a fiber is still unknown, or it begins with its effect, or its executor did
not take it. -/
inductive Bears (id : FiberId) (after : Heap σ × Thread σ) : Prop where
  | unknown (unknown : ¬after.1.Knows id)
  | begun (effect : Node σ) (place : held after.1 after.2 id = {.active (.node effect) []})
  | untaken (nowhere : held after.1 after.2 id = 0)

theorem bears_of_size {after : Heap σ × Thread σ} (unknown : ¬heap.Knows id)
    (same : after.1.fibers.size = heap.fibers.size) : Bears id after :=
  .unknown (mt (Heap.knows_iff_of_size same id).mp unknown)

theorem bears_start (heap : Heap σ) {fiber : FiberState σ} {effect : Node σ}
    (seed : fiber.seed = some effect) (nowhere : held heap thread id = 0) (root : Bool) :
    Bears id (start (heap.addFiber fiber) thread heap.nextFiber root) := by
  obtain ⟨gained, onThread, inHeap⟩ := (executes_start heap thread seed root).places id
  obtain ⟨none, alone⟩ := add_eq_zero.mp nowhere
  rw [alone, add_zero] at onThread
  rw [heap.places_launch, none, add_zero, ← onThread] at inHeap
  rcases inHeap with handed | lost
  · rw [Batch.places] at handed
    split at handed
    next => exact .begun effect handed
    next => exact .untaken handed
  · exact .untaken lost

/-- A request of user code makes at most one fiber. -/
theorem bears_perform {α : Type} {keep : Code σ α → Activation σ} (code : Code σ α)
    (unknown : ¬heap.Knows id) (nowhere : held heap thread id = 0)
    (other : ∀ rest, (keep rest).places id = 0) : Bears id (perform heap thread keep code) := by
  have alone (rest : Code σ α) : held heap (thread.push (keep rest)) id = 0 := by
    rw [held_push, other, nowhere, add_zero]
  cases code with
  | complete callback value next =>
    exact bears_of_size unknown (size_completeCallback callback value)
  | observe fiber type callback next => exact bears_of_size unknown (size_observe fiber _)
  | interrupt fiber next => exact bears_of_size unknown (size_requestInterrupt fiber)
  | launch | launchWith => exact bears_start heap rfl (alone _) true
  | submit executor root type next =>
    exact bears_start heap.addMailbox rfl (alone (next heap.nextMailbox)) true
  | wait mailbox deadline next =>
    refine bears_of_size unknown ?_
    rw [perform]
    split
    · rfl
    · split <;> rfl
  | runTask executor newest next =>
    refine bears_of_size unknown ?_
    rw [perform]
    split <;> rfl
  | report event next => exact bears_of_size unknown (heap.size_report thread.id _ _)
  | _ => exact bears_of_size unknown rfl

theorem bears_interpret {owner : FiberId} (stack : List (Frame σ)) (current : Node σ)
    (unknown : ¬heap.Knows id) (nowhere : held heap thread id = 0) (other : owner ≠ id) :
    Bears id (interpret heap thread owner stack current) := by
  cases current with
  | fork effect =>
    obtain ⟨event, reported, child, rfl, next, seed, _, _, forked⟩ :=
      exists_fork_eq heap thread owner effect stack
    rw [interpret, forked]
    refine bears_start _ seed ?_ false
    rw [refocus, held_push, Activation.places, if_neg other, zero_add, held, Heap.places_report]
    exact nowhere
  | flatMap | fold => exact bears_of_size unknown (heap.size_report thread.id _ _)
  | shift executor =>
    refine bears_of_size unknown ((size_execute executor _).trans ?_)
    exact (Heap.size_report _ _ _ _).trans (heap.size_updateFiber owner _)
  | withStatus | provide | restoreStatus | leaveScope =>
    exact bears_of_size unknown (heap.size_updateFiber owner _)
  | access continuation =>
    refine bears_of_size unknown ?_
    rw [interpret]
    split <;> rfl
  | _ => exact bears_of_size unknown rfl

theorem bears_stepLoop {owner : FiberId} {stack : List (Frame σ)} {focus : Focus σ}
    (unknown : ¬heap.Knows id) (nowhere : held heap thread id = 0) (other : owner ≠ id) :
    Bears id (stepLoop heap thread owner stack focus) := by
  have put (next : Focus σ) (frames : List (Frame σ)) :
      Bears id (heap, refocus thread owner next frames) := .unknown unknown
  have turn := turns_stepLoop heap thread owner stack focus
  generalize stepLoop heap thread owner stack focus = next at turn ⊢
  cases turn with
  | interrupts =>
    refine bears_of_size unknown ((Heap.size_report _ _ _ _).trans ?_)
    exact heap.size_updateFiber owner _
  | interprets => exact bears_interpret stack _ unknown nowhere other
  | delivers => exact bears_of_size unknown (heap.size_report thread.id _ _)
  | succeeds | fails => exact bears_of_size unknown (size_completeFiber owner _)
  | handles | hands => exact put _ _
  | parks => exact bears_of_size unknown (size_park owner _ stack)
  | panics => exact bears_of_size unknown (size_unwindLoop _ owner stack _)
  | requests holds =>
    refine bears_perform _ unknown nowhere fun rest => ?_
    cases holds <;> exact if_neg other

/-! ### Every step -/

theorem bears_advance {activation : Activation σ} (unknown : ¬heap.Knows id)
    (nowhere : held heap thread id = 0) (apart : activation.places id = 0) :
    Bears id (advance heap thread activation) := by
  have same (thread : Thread σ) : Bears id (heap, thread) := .unknown unknown
  unfold advance
  split
  next => exact same _
  next code _ => exact bears_perform code unknown nowhere fun _ => rfl
  next => exact same _
  next code _ => exact bears_perform code unknown nowhere fun _ => rfl
  next => exact bears_of_size unknown rfl
  next => exact bears_of_size unknown rfl
  next owner focus stack =>
    have other : owner ≠ id := by
      rintro rfl
      rw [Activation.places, if_pos rfl] at apart
      exact Multiset.singleton_ne_zero _ apart
    exact bears_stepLoop unknown nowhere other
  next => exact same _
  next exit observer rest => exact bears_of_size unknown (size_notify exit observer)
  next outer => split <;> exact same _

/-- A fiber that is made in a step begins with its effect and without frames, unless its executor
does not take it. -/
theorem bears_step (unknown : ¬heap.Knows id) (nowhere : held heap thread id = 0) :
    Bears id (step heap thread) := by
  have same : Bears id (heap, thread) := .unknown unknown
  unfold step
  split
  next => exact same
  next payload _ _ =>
    refine bears_of_size unknown ?_
    unfold crash
    split
    next => exact heap.size_report thread.id _ _
    next => rfl
  next activation rest control calm =>
    rw [held, Thread.places_of_control control] at nowhere
    obtain ⟨inHeap, onThread⟩ := add_eq_zero.mp nowhere
    obtain ⟨apart, others⟩ := add_eq_zero.mp onThread
    exact bears_advance unknown (add_eq_zero.mpr ⟨inHeap, others⟩) apart
  next activation rest payload _ _ =>
    refine bears_of_size unknown ?_
    cases activation with
    | loop owner focus stack => exact size_unwindLoop payload owner stack focus
    | callback | posting | opening => exact heap.size_noteDefect thread.id payload
    | program | notifying | draining => rfl

end Machine

end Fibers
