import Fibers.Proofs.Machine.Meeting
import Fibers.Proofs.Machine.Refusal

/-!
# What reaches another fiber

A step of a thread runs the fiber whose loop is innermost. The other fibers stand where they stood,
on this thread or elsewhere, unless a callback is completed for which one of them waits.

## Main result

`Machine.displaces_step`: a step moves a fiber that it does not run only by completing a callback,
and takes it away only if it gives up tasks or batches.

## Proof strategy

A loop that is put back, a task of another fiber and a new fiber leave the places of a fiber as they
are (`held_push`, `held_of_executes`), so what is left are the requests that complete a callback or
give up tasks, and the panic that goes through a drain.
-/

namespace Fibers

variable {σ : Type}

/-- A thread is at a step of a loop of a fiber, or has to unwind it. -/
def Thread.Runs (thread : Thread σ) (id : FiberId) : Prop :=
  ∃ focus stack rest, thread.control = .loop id focus stack :: rest

/-- A thread is about to complete a callback. -/
def Thread.Completes (thread : Thread σ) (callback : CallbackId) (value : Erased) : Prop :=
  ∃ activation, thread.next? = some activation ∧
    activation.completes? = some (callback, value)

/-- A thread is about to give up work that it does not run: user code empties the queue of an
executor, or a panic goes through a drain with batches behind it. -/
inductive Thread.Sheds (thread : Thread σ) : Prop where
  | tasks {activation : Activation σ} {α : Type} {keep : Code σ α → Activation σ}
      {executor : ExecutorId} {code : Nat → Code σ α} (next : thread.next? = some activation)
      (holds : activation.Holds keep (.discardTasks executor code))
  | batches {payload : Payload} {outer : Option (Queue (Batch σ))} {rest : List (Activation σ)}
      (panicking : thread.panicking = some payload)
      (control : thread.control = .draining outer :: rest)

/-- What a step of a thread does to the places of a fiber that it does not run. -/
inductive Thread.Displaces (thread : Thread σ) (heap : Heap σ) (id : FiberId)
    (before after : Multiset (Place σ)) : Prop where
  | stays (same : after = before)
  /-- The fiber goes on with the value, unless its executor does not take it. -/
  | resumed {callback : CallbackId} {value : Erased} {stack : List (Frame σ)}
      {rest : Multiset (Place σ)} (completes : thread.Completes callback value)
      (parked : heap.suspension? callback = some ⟨id, .parked stack⟩)
      (was : before = .suspended callback stack ::ₘ rest)
      (goes : after = .active (.node (.succeed value)) stack ::ₘ rest ∨ after = rest)
  | shed (sheds : thread.Sheds) (le : after ≤ before)

namespace Machine

variable {heap heap' : Heap σ} {thread thread' top : Thread σ} {id owner : FiberId}

/-! ### Work of other fibers -/

theorem held_of_executes {task : Task σ} (executes : Executes heap thread task heap' thread')
    (other : task.batch.fiber ≠ id) : held heap' thread' id = held heap thread id := by
  obtain ⟨gained, onThread, inHeap⟩ := executes.places id
  rw [Batch.places, if_neg other, zero_add, or_self] at inHeap
  rw [held, onThread, ← add_assoc, inHeap, held]

theorem held_start {fiber : FiberState σ} {effect : Node σ} (seed : fiber.seed = some effect)
    (knows : heap.Knows id) (root : Bool) :
    held (start (heap.addFiber fiber) thread heap.nextFiber root).1
        (start (heap.addFiber fiber) thread heap.nextFiber root).2 id = held heap thread id := by
  have other : heap.nextFiber ≠ id := by
    intro same
    exact heap.not_knows_nextFiber (same ▸ knows)
  rw [held_of_executes (executes_start heap thread seed root) other, held, heap.places_launch, held]

theorem held_setRendezvous_of_other {callback : CallbackId} {suspension : Suspension σ}
    (present : heap.suspension? callback = some suspension) (other : suspension.fiber ≠ id)
    (state : Rendezvous σ) (thread : Thread σ) :
    held (heap.setRendezvous callback state) thread id = held heap thread id := by
  obtain ⟨rest, before, after⟩ := Heap.places_setRendezvous present state id
  have none (state : Rendezvous σ) :
      (Suspension.mk suspension.fiber state).places id callback.index = 0 := by
    unfold Suspension.places
    split
    · exact if_neg other
    · rfl
  rw [held, after, held, before, none state, none suspension.state]

/-! ### Callbacks -/

theorem displaces_completeCallback {callback : CallbackId} {value : Erased}
    (completes : top.Completes callback value) :
    top.Displaces heap id (held heap thread id)
      (held (completeCallback heap thread callback value).1
        (completeCallback heap thread callback value).2 id) := by
  cases present : heap.suspension? callback with
  | none =>
    rw [completeCallback, present]
    exact .stays rfl
  | some suspension =>
    obtain ⟨fiber, state⟩ := suspension
    rw [completeCallback, present]
    cases state with
    | registering =>
      -- The value waits for the registration, which holds no place.
      obtain ⟨rest, before, after⟩ := Heap.places_setRendezvous present (.completed value) id
      apply Thread.Displaces.stays
      rw [held, after, held, before]
      rfl
    | parked stack =>
      have executes := executes_resume (heap.setRendezvous callback .resumed) thread fiber value
        stack
      by_cases own : fiber = id
      · subst own
        obtain ⟨rest, before, after⟩ := Heap.places_setRendezvous present .resumed fiber
        obtain ⟨gained, onThread, inHeap⟩ := executes.places fiber
        rw [show _ = rest from after.trans (zero_add rest), Batch.places, if_pos rfl] at inHeap
        rw [Suspension.places_parked] at before
        have whole : held heap thread fiber =
            .suspended callback stack ::ₘ (rest + thread.places fiber) := by
          rw [held, before, add_assoc, Multiset.singleton_add]
        apply Thread.Displaces.resumed completes present whole
        simp only [held, onThread]
        rw [← add_assoc]
        rcases inHeap with moved | lost
        · left
          rw [moved, add_assoc, Multiset.singleton_add]
        · right
          rw [lost]
      · apply Thread.Displaces.stays
        exact (held_of_executes executes own).trans
          (held_setRendezvous_of_other present own .resumed thread)
    | completed | resumed | abandoned => exact .stays rfl

theorem displaces_notify {exit : Exit Erased} {observer : Observer σ} {rest : List (Observer σ)}
    (next : top.next? = some (.notifying exit (observer :: rest))) :
    top.Displaces heap id (held heap thread id)
      (held (notify heap thread exit observer).1 (notify heap thread exit observer).2 id) := by
  cases observer with
  | resume type callback => exact displaces_completeCallback ⟨_, next, rfl⟩
  | call callback =>
    cases callback
    apply Thread.Displaces.stays
    rw [notify, held_push]
    exact zero_add _
  | answer type mailbox =>
    apply Thread.Displaces.stays
    rw [notify, held_push]
    exact zero_add _

/-! ### User code -/

theorem held_push_of_none {activation : Activation σ} (none : activation.places id = 0) :
    held heap (thread.push activation) id = held heap thread id := by
  rw [held_push, none, zero_add]

/-- User code of others moves a fiber only by completing a callback. -/
theorem displaces_perform {α : Type} {activation : Activation σ} {keep : Code σ α → Activation σ}
    {code : Code σ α} (knows : heap.Knows id) (next : top.next? = some activation)
    (holds : activation.Holds keep code) (none : activation.places id = 0) :
    top.Displaces heap id (held heap thread id)
      (held (perform heap thread keep code).1 (perform heap thread keep code).2 id) := by
  -- Whatever the code goes on as, it is not in the fiber either.
  have kept (rest : Code σ α) : (keep rest).places id = 0 := by
    have card := holds.card_places rest id
    rw [none, Multiset.card_zero] at card
    exact Multiset.card_eq_zero.mp card
  have pushed (rest : Code σ α) :
      held heap (thread.push (keep rest)) id = held heap thread id := held_push_of_none (kept rest)
  cases code with
  | done | get | modify | completeLater | poll | threadName | clock => exact .stays (pushed _)
  | panic payload => exact .stays (pushed _)
  | complete callback value rest =>
    rw [← pushed (rest ⟨⟩)]
    apply displaces_completeCallback
    exact ⟨activation, next, holds.completes?⟩
  | observe fiber type callback rest =>
    apply Thread.Displaces.stays
    simp only [perform, observe]
    split
    · rw [held, heap.places_updateFiber fiber id _ (fun state => by split <;> rfl)]
      exact pushed _
    · rw [held_push_of_none rfl]
      exact pushed _
    · exact pushed _
  | interrupt fiber rest =>
    apply Thread.Displaces.stays
    rw [← pushed (rest ⟨⟩), perform, held, (kept_requestInterrupt heap thread fiber).places, held]
  | launch | launchWith =>
    apply Thread.Displaces.stays
    exact (held_start rfl knows true).trans (pushed _)
  | submit executor root type rest =>
    apply Thread.Displaces.stays
    have knows' : heap.addMailbox.Knows id := knows
    exact (held_start rfl knows' true).trans (pushed _)
  | wait mailbox deadline rest =>
    apply Thread.Displaces.stays
    simp only [perform]
    split
    · exact pushed _
    · split
      · exact pushed _
      · exact pushed _
  | runTask executor newest rest =>
    apply Thread.Displaces.stays
    simp only [perform]
    split
    next task left popped =>
      -- The batch was in the heap and is on the thread now.
      obtain ⟨before, after, waiting, left⟩ := Queue.exists_split_of_pop? popped
      rw [held, Thread.places_run, ← add_assoc, add_comm _ (task.batch.places id),
        ← heap.places_of_waiting waiting left]
      exact pushed _
    next => exact pushed _
  | discardTasks executor rest =>
    apply Thread.Displaces.shed (.tasks next holds)
    rw [← pushed (rest (heap.waiting executor).size)]
    -- All tasks of the executor are given up.
    have none : (({} : Queue (Task σ)).toList).Sublist (heap.waiting executor).toList :=
      List.nil_sublist _
    apply add_le_add_left
    exact heap.places_setWaiting_le none id
  | report event rest =>
    apply Thread.Displaces.stays
    rw [perform, held, heap.places_report]
    exact pushed _

/-! ### Loops of others -/

variable {stack : List (Frame σ)}

theorem held_refocus (other : owner ≠ id) (focus : Focus σ) :
    held heap (refocus thread owner focus stack) id = held heap thread id :=
  held_push_of_none (if_neg other)

theorem held_interpret (other : owner ≠ id) (knows : heap.Knows id) (current : Node σ) :
    held (interpret heap thread owner stack current).1
      (interpret heap thread owner stack current).2 id = held heap thread id := by
  have put (focus : Focus σ) (frames : List (Frame σ)) :
      held heap (refocus thread owner focus frames) id = held heap thread id := held_refocus other _
  cases current with
  | succeed | sync | fail => exact put _ _
  | flatMap | fold =>
    rw [interpret, held, heap.places_report]
    exact put _ _
  | async register =>
    rw [interpret, held, heap.places_addSuspension]
    exact put _ _
  | fork effect =>
    obtain ⟨event, reported, child, rfl, next, seed, _, _, forked⟩ :=
      exists_fork_eq heap thread owner effect stack
    have knows' : (heap.report thread.id .debug event).Knows id :=
      ((heap.kept_report _ _ _).known id).mp knows
    rw [interpret, forked, held_start seed knows' false, held, heap.places_report]
    exact put _ _
  | shift executor =>
    rw [interpret, held_of_executes (executes_execute _ _ _ _) other, held, Heap.places_report,
      Heap.places_setExecutor, held]
  | withStatus | restoreStatus =>
    rw [interpret, held, heap.places_updateFlags]
    exact put _ _
  | provide =>
    rw [interpret, held, heap.places_enterScope]
    exact put _ _
  | leaveScope =>
    rw [interpret, held, heap.places_leaveScope]
    exact put _ _
  | access =>
    simp only [interpret]
    split
    · exact put _ _
    · exact put _ _

theorem held_completeFiber (ended : FiberId) (exit : Exit Erased) :
    held (completeFiber heap thread ended exit).1 (completeFiber heap thread ended exit).2 id =
      held heap thread id := by
  unfold completeFiber
  split
  · have kept := heap.places_updateFiber ended id
      (fun fiber => { fiber with progress := .done exit }) fun _ => rfl
    rw [held_push_of_none rfl, held, Heap.places_report, kept, held]
  · rfl

/-- A loop of another fiber that meets its own suspension. -/
theorem held_meets (other : owner ≠ id) {callback : CallbackId} {code : Code σ Unit}
    (meets : (Activation.loop owner (.registering callback code) stack).Meets heap)
    (state : Rendezvous σ) (thread : Thread σ) :
    held (heap.setRendezvous callback state) thread id = held heap thread id := by
  obtain ⟨suspension, present, own, _⟩ := meets
  exact held_setRendezvous_of_other present (own ▸ other) state thread

theorem held_unwindLoop (other : owner ≠ id) {focus : Focus σ}
    (meets : (Activation.loop owner focus stack).Meets heap) (payload : Payload) :
    held (unwindLoop heap thread payload owner stack focus).1
      (unwindLoop heap thread payload owner stack focus).2 id = held heap thread id := by
  cases focus with
  | node | value | cause => rfl
  | thunk | raising | building =>
    rw [unwindLoop, held_refocus other, held, Heap.places_noteDefect]
    rfl
  | registering callback code =>
    rw [unwindLoop, held_refocus other]
    have noted : (Activation.loop owner (.registering callback code) stack).Meets
        (heap.noteDefect thread.id payload) := by
      obtain ⟨suspension, present, own⟩ := meets
      refine ⟨suspension, ?_, own⟩
      rw [Heap.suspension?, Heap.noteDefect, (Heap.tables_report _ _ _ _).2]
      exact present
    rw [held_meets other noted, held, Heap.places_noteDefect]
    rfl

/-- A loop of another fiber moves a fiber only by completing a callback. -/
theorem displaces_stepLoop {focus : Focus σ} (other : owner ≠ id) (knows : heap.Knows id)
    (next : top.next? = some (.loop owner focus stack))
    (meets : (Activation.loop owner focus stack).Meets heap) :
    top.Displaces heap id (held heap thread id)
      (held (stepLoop heap thread owner stack focus).1
        (stepLoop heap thread owner stack focus).2 id) := by
  have none : (Activation.loop owner focus stack).places id = 0 := if_neg other
  -- What the loop puts back is of its own fiber, so nothing of another fiber moves.
  have put (focus : Focus σ) (frames : List (Frame σ)) :
      held heap (refocus thread owner focus frames) id = held heap thread id := held_refocus other _
  have turn := turns_stepLoop heap thread owner stack focus
  generalize stepLoop heap thread owner stack focus = stepped at turn ⊢
  cases turn with
  | interrupts =>
    apply Thread.Displaces.stays
    rw [beginInterruption, held, Heap.places_report, heap.places_updateFlags]
    exact put _ _
  | interprets => exact .stays (held_interpret other knows _)
  | delivers =>
    apply Thread.Displaces.stays
    rw [held, heap.places_report]
    exact put _ _
  | succeeds | fails => exact .stays (held_completeFiber owner _)
  | handles | hands => exact .stays (put _ _)
  | parks =>
    apply Thread.Displaces.stays
    unfold park
    split
    · rw [held_refocus other, held_meets other meets]
    · rw [held, Heap.places_report]
      exact held_meets other meets _ _
  | panics => exact .stays (held_unwindLoop other meets _)
  | requests holds => exact displaces_perform knows next holds none

/-! ### Every step -/

theorem displaces_advance {activation : Activation σ} {rest : List (Activation σ)}
    (calm : thread.panicking = none) (control : thread.control = activation :: rest)
    (other : ¬thread.Runs id) (knows : heap.Knows id) (meets : activation.Meets heap) :
    thread.Displaces heap id (held heap thread id)
      (held (advance heap { thread with control := rest } activation).1
        (advance heap { thread with control := rest } activation).2 id) := by
  have next : thread.next? = some activation := Thread.next?_eq_some_iff.mpr ⟨calm, rest, control⟩
  -- What the activation itself holds of the fiber is counted apart.
  have whole : held heap thread id =
      activation.places id + held heap { thread with control := rest } id := by
    rw [held, Thread.places_of_control control, held, add_left_comm]
  cases activation with
  | program code =>
    rw [whole, show (Activation.program code).places id = 0 from rfl, zero_add]
    cases code with
    | done => exact .stays rfl
    | _ => exact displaces_perform knows next (.program _) rfl
  | callback code =>
    rw [whole, show (Activation.callback code).places id = 0 from rfl, zero_add]
    cases code with
    | done => exact .stays rfl
    | _ => exact displaces_perform knows next (.callback _) rfl
  | posting mailbox exit =>
    rw [whole]
    exact .stays (held_push _ _ _ id)
  | opening mailbox =>
    rw [whole]
    exact .stays (zero_add _).symm
  | loop owner focus stack =>
    have apart : owner ≠ id := by
      rintro rfl
      exact other ⟨focus, stack, rest, control⟩
    rw [whole, show (Activation.loop owner focus stack).places id = 0 from if_neg apart, zero_add]
    exact displaces_stepLoop apart knows next meets
  | notifying exit observers =>
    rw [whole, show (Activation.notifying exit observers).places id = 0 from rfl, zero_add]
    cases observers with
    | nil => exact .stays rfl
    | cons observer rest' =>
      have none : (Activation.notifying exit rest' : Activation σ).places id = 0 := rfl
      rw [← held_push_of_none none]
      exact displaces_notify next
  | draining outer =>
    apply Thread.Displaces.stays
    rw [whole]
    simp only [advance]
    split
    next batch queue popped =>
      obtain ⟨pending, waiting, popped⟩ := Option.bind_eq_some_iff.mp popped
      simp only [held, Thread.places, Thread.push, waiting, queuedPlaces_popFront popped,
        List.map_cons, List.sum_cons, Activation.places, Batch.places]
      abel
    next none =>
      simp only [held, Thread.places, queuedPlaces_of_popFront_none none, Activation.places]
      abel

/-- A step moves a fiber that it does not run only by completing a callback, and takes it away only
if it gives up work. -/
theorem displaces_step (other : ¬thread.Runs id) (knows : heap.Knows id)
    (meets : ∀ activation ∈ thread.control, activation.Meets heap) :
    thread.Displaces heap id (held heap thread id)
      (held (step heap thread).1 (step heap thread).2 id) := by
  cases control : thread.control with
  | nil =>
    apply Thread.Displaces.stays
    cases panicking : thread.panicking with
    | none => rw [step, control, panicking]
    | some payload =>
      rw [step, control, panicking]
      simp only [crash]
      split
      · rw [held, heap.places_report]
        rfl
      · rfl
  | cons activation rest =>
    have whole : held heap thread id =
        activation.places id + held heap { thread with control := rest } id := by
      rw [held, Thread.places_of_control control, held, add_left_comm]
    have own := meets activation (control ▸ List.mem_cons_self)
    cases panicking : thread.panicking with
    | none =>
      rw [step_of_next? heap panicking control]
      exact displaces_advance panicking control other knows own
    | some payload =>
      rw [step, control, panicking]
      cases activation with
      | program | notifying =>
        rw [whole]
        exact .stays (zero_add _).symm
      | callback | posting | opening =>
        apply Thread.Displaces.stays
        rw [whole]
        simp only [takePanic, held, Heap.places_noteDefect]
        exact (zero_add _).symm
      | loop owner focus stack =>
        have apart : owner ≠ id := by
          rintro rfl
          exact other ⟨focus, stack, rest, control⟩
        -- The loop catches the panic, or is unwound, for its own fiber only.
        apply Thread.Displaces.stays
        rw [whole, show (Activation.loop owner focus stack).places id = 0 from if_neg apart,
          zero_add]
        exact held_unwindLoop apart own payload
      | draining outer =>
        apply Thread.Displaces.shed (.batches panicking control)
        -- The batches behind the drain are gone; those that it had set aside are back.
        have left : held heap thread id =
            held heap { thread with control := rest, pending := outer } id +
              queuedPlaces id thread.pending := by
          rw [whole]
          simp only [held, Thread.places, Activation.places]
          abel
        rw [left]
        exact Multiset.le_add_right _ _

end Machine

end Fibers
