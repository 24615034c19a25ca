import Fibers.Proofs.Machine.Birth
import Fibers.Proofs.World.Boundary
import Fibers.Proofs.World.Termination

/-!
# How a fiber begins and how it is lost

A fiber that has not ended is somewhere, from the step in which it is made, unless somebody has
given up its work.

## Main results

`World.Run.begins`: a new fiber stands at its effect, without frames. `World.Run.loses`: a fiber
that has not ended goes only where an executor does not take its batch, where tasks are dropped, and
where a panic goes through the interpreter.
-/

namespace Fibers

variable {σ : Type}

namespace World

variable {run : Nat → World σ} {id : FiberId} {n i : Nat} {thread : Thread σ} {place : Place σ}

/-! ### Beginnings -/

/-- A new fiber stands at its effect, without frames, unless its executor has not taken it. -/
theorem Run.begins (h : Run run) (unknown : ¬(run n).heap.Knows id)
    (known : (run (n + 1)).heap.Knows id) :
    (run (n + 1)).places id = 0 ∨
      ∃ effect, (run (n + 1)).places id = {.active (.node effect) []} := by
  rcases h.steps_or_rests n with ⟨i, thread, steps⟩ | ⟨fibers, _, _⟩
  · obtain ⟨others, was, is⟩ := steps.replaces.exists_places id
    have none : (run n).places id = 0 := (h.owned n).known id unknown
    rw [none] at was
    obtain ⟨nowhere, alone⟩ := add_eq_zero.mp was.symm
    rw [is, alone, add_zero, steps.heap]
    rw [steps.heap] at known
    cases Machine.bears_step unknown nowhere with
    | unknown unknown => exact absurd known unknown
    | begun effect place => exact .inr ⟨effect, place⟩
    | untaken nowhere => exact .inl nowhere
  · exact absurd ((Heap.knows_iff_of_size (by rw [fibers]) id).mp known) unknown

/-! ### Losses -/

/-- How a fiber is lost that stands at a place. -/
inductive Loses (world world' : World σ) (id : FiberId) : Place σ → Prop where
  /-- The executor that it moves to does not take its batch. -/
  | shifted {executor : ExecutorId} (stack : List (Frame σ))
      (declines : ¬world.heap.Takes executor) :
      Loses world world' id (.active (.node (.shift executor)) stack)
  /-- Its executor does not take the batch that goes on with the value of a callback. -/
  | resumed (callback : CallbackId) (stack : List (Frame σ))
      (declines : ¬world.heap.Takes (world.heap.executorOf id)) :
      Loses world world' id (.suspended callback stack)
  /-- A panic goes through its loop, or through a drain with batches behind it. -/
  | panicked (place : Place σ) {thread : Thread σ} (known : thread ∈ world.threads)
      (panicking : thread.panicking.isSome)
      (top : thread.Runs id ∨ ∃ outer rest, thread.control = .draining outer :: rest) :
      Loses world world' id place
  /-- A task of it is dropped. -/
  | dropped {executor : ExecutorId} {task : Task σ} {rest : Queue (Task σ)}
      (waits : task ∈ (world.heap.waiting executor).toList) (own : task.batch.fiber = id)
      (left : rest.toList.Sublist (world.heap.waiting executor).toList)
      (heap : world'.heap = world.heap.setWaiting executor rest) :
      Loses world world' id (.active (.node task.batch.current) task.batch.stack)

/-- The only place of a fiber goes with the tasks that an executor is relieved of. -/
theorem exists_task {heap : Heap σ} {executor : ExecutorId} {rest : Queue (Task σ)}
    (there : heap.places id = {place}) (gone : (heap.setWaiting executor rest).places id = 0) :
    ∃ task ∈ (heap.waiting executor).toList, task.batch.fiber = id ∧
      place = .active (.node task.batch.current) task.batch.stack := by
  cases known : heap.executor? executor with
  | none =>
    have same : (heap.setWaiting executor rest).places id = heap.places id := by
      rw [Heap.places, Heap.setWaiting, tally_modify_of_none _ _ known, Heap.places]
    exact absurd (there.symm.trans (same.symm.trans gone)) (Multiset.singleton_ne_zero _)
  | some state =>
    obtain ⟨others, whole, changed⟩ := Heap.exists_places_setWaiting known rest id
    obtain ⟨_, rfl⟩ := add_eq_zero.mp (changed.symm.trans gone)
    rw [add_zero, there] at whole
    have mem : place ∈ state.places id := whole ▸ Multiset.mem_singleton_self place
    obtain ⟨task, waits, mem⟩ := exists_mem_of_mem_sum mem
    refine ⟨task, by simpa only [Heap.waiting, known] using waits, ?_⟩
    rw [Batch.places] at mem
    split at mem
    next own => exact ⟨own, Multiset.mem_singleton.mp mem⟩
    next => simp at mem

/-- User code drops the tasks of an executor. -/
theorem StepsAt.loses_of_discardTasks (steps : StepsAt run n i thread)
    (there : (run n).places id = {place}) (gone : (run (n + 1)).places id = 0)
    {activation : Activation σ} {α : Type} {keep : Code σ α → Activation σ}
    {executor : ExecutorId} {code : Nat → Code σ α} (next : thread.next? = some activation)
    (holds : activation.Holds keep (.discardTasks executor code)) :
    Loses (run n) (run (n + 1)) id place := by
  obtain ⟨calm, rest, control⟩ := Thread.next?_eq_some_iff.mp next
  have step : Machine.step (run n).heap thread =
      ((run n).heap.setWaiting executor {}, ({ thread with control := rest } : Thread σ).push
        (keep (code ((run n).heap.waiting executor).size))) := by
    rw [Machine.step_of_next? _ calm control, Machine.advance_of_holds holds rfl, Machine.perform]
  have heap : (run (n + 1)).heap = (run n).heap.setWaiting executor {} := by rw [steps.heap, step]
  obtain ⟨others, was, is⟩ := steps.replaces.exists_places id
  rw [gone, heap, step, Machine.held, Thread.places_push] at is
  obtain ⟨held, alone⟩ := add_eq_zero.mp is.symm
  obtain ⟨inHeap, onThread⟩ := add_eq_zero.mp held
  obtain ⟨kept, below⟩ := add_eq_zero.mp onThread
  -- The code holds no place, before or after.
  have none : activation.places id = 0 := by
    rw [← Multiset.card_eq_zero, ← holds.card_places, Multiset.card_eq_zero]
    exact kept
  rw [there, Machine.held, Thread.places_of_control control, none, below, alone, add_zero,
    add_zero, add_zero] at was
  obtain ⟨task, waits, own, rfl⟩ := exists_task was.symm inHeap
  refine .dropped waits own ?_ heap
  exact List.nil_sublist _

/-- A fiber that moves to an executor that takes tasks stands in one of them. -/
theorem StepsAt.takes_of_shift (steps : StepsAt run n i thread) {executor : ExecutorId}
    {stack : List (Frame σ)} (next : thread.next? = some (.loop id (.node (.shift executor)) stack))
    (undue : (run n).heap.shouldInterrupt id = false) (takes : (run n).heap.Takes executor) :
    (run (n + 1)).places id ≠ 0 := by
  obtain ⟨calm, rest, control⟩ := Thread.next?_eq_some_iff.mp next
  have step := Machine.step_of_undue calm control undue
  simp only [Machine.interpret] at step
  obtain ⟨others, _, is⟩ := steps.replaces.exists_places id
  rw [is, steps.heap, step, Machine.held_execute_of_takes, Batch.places, if_pos rfl, add_assoc]
  · exact fun none => Multiset.singleton_ne_zero _ (add_eq_zero.mp none).1
  · obtain ⟨state, known, takes⟩ := takes
    refine ⟨state, ?_, takes⟩
    rw [Heap.executor?, Heap.executors_report]
    exact known

/-- A loop that takes a step loses its fiber only where a panic goes through it, and where it moves
to an executor that does not take it. -/
theorem StepsAt.loses_of_control (steps : StepsAt run n i thread) (h : Run run) {focus : Focus σ}
    {stack : List (Frame σ)} {rest : List (Activation σ)}
    (control : thread.control = .loop id focus stack :: rest)
    (gone : (run (n + 1)).places id = 0) (running : (run (n + 1)).heap.poll id = none) :
    Loses (run n) (run (n + 1)) id (.active focus stack) := by
  have known := List.mem_of_getElem? steps.before
  cases panicking : thread.panicking with
  | some payload =>
    exact .panicked _ known (by rw [panicking]; rfl) (.inl ⟨focus, stack, rest, control⟩)
  | none =>
    -- What is left of the loop would be the place of the fiber.
    have none {focus' : Focus σ} {stack' : List (Frame σ)} :
        .loop id focus' stack' ∉ (Machine.step (run n).heap thread).2.control := fun mem =>
      Multiset.singleton_ne_zero _
        ((places_of_loop (h.owned (n + 1)) (List.mem_of_getElem? steps.after) mem).symm.trans gone)
    obtain ⟨own, left⟩ := steps.left h panicking control nofun
    obtain ⟨begun, control'⟩ := exists_begun_of_receives left.dispatch.thread
    have leaves := left.leaves
    cases leaves with
    | loop _ _ focus' _ stack' =>
      refine absurd ?_ (@none focus' stack')
      rw [control']
      exact List.mem_append_right _ List.mem_cons_self
    | gone =>
      have next : thread.next? = some (.loop id focus stack) :=
        Thread.next?_eq_some_iff.mpr ⟨panicking, rest, control⟩
      have finished := left.ends id focus stack rfl rfl
      rw [← steps.heap] at finished
      cases finished with
      | completed ends ended => cases running.symm.trans ended
      | suspended parked =>
        exact absurd ((places_of_parked (h.owned (n + 1)) parked).symm.trans gone)
          (Multiset.singleton_ne_zero _)
      | @moved executor =>
        cases due : (run n).heap.shouldInterrupt id with
        | true =>
          refine absurd ?_ (@none (.node (.failNow .interrupt))
            (.apply (.constant (.shift executor)) :: stack))
          rw [Machine.step_of_due panicking control due]
          exact List.mem_cons_self
        | false =>
          exact .shifted stack fun takes => steps.takes_of_shift next due takes gone

/-- A fiber that has not ended goes only where its work is given up. -/
theorem Run.loses (h : Run run) (there : (run n).places id = {place})
    (gone : (run (n + 1)).places id = 0) (running : (run (n + 1)).heap.poll id = none) :
    Loses (run n) (run (n + 1)) id place := by
  have knows := ((h.owned n).placed there).1
  have still : (run (n + 1)).places id ≠ (run n).places id := fun same =>
    Multiset.singleton_ne_zero _ (there.symm.trans (same.symm.trans gone))
  -- Only a step of its own, one that sheds its place, or a drop takes the fiber away.
  cases h.step n with
  | @act thread heap threads =>
    obtain ⟨i, known, set⟩ := threads.get
    have steps : StepsAt run n i thread := ⟨known, heap, set⟩
    by_cases runs : thread.Runs id
    · obtain ⟨focus, stack, rest, control⟩ := runs
      cases Multiset.singleton_inj.mp (there.symm.trans (steps.places_of_control h control))
      exact steps.loses_of_control h control gone running
    · cases steps.place h runs knows there with
      | stays same => exact absurd (same.symm.trans gone) (Multiset.singleton_ne_zero _)
      | @resumed callback value stack completes waits goes =>
        subst waits
        -- Its callback has been completed, so only an executor can have refused it.
        obtain ⟨activation, next, completes⟩ := completes
        have parked := suspension?_of_places there
        have completion : CompletesAt run i n callback value :=
          ⟨thread, activation, steps, next, completes⟩
        cases completion.resumption h parked with
        | directly _ _ tops =>
          exact absurd ((tops.places (h.owned (n + 1))).symm.trans gone)
            (Multiset.singleton_ne_zero _)
        | handed _ _ place => exact absurd (place.symm.trans gone) (Multiset.singleton_ne_zero _)
        | refused _ _ refuses _ => exact .resumed callback stack refuses
      | shed sheds _ =>
        cases sheds with
        | tasks next holds => exact steps.loses_of_discardTasks there gone next holds
        | @batches payload outer rest panicking control =>
          exact .panicked place (List.mem_of_getElem? known) (by rw [panicking]; rfl)
            (.inr ⟨outer, rest, control⟩)
  | @take thread executor _ _ task rest idle calm waiting left heap threads =>
    -- A task that is taken has moved from the heap to the thread.
    obtain ⟨others, was, is⟩ := threads.exists_places id
    refine absurd ?_ still
    rw [is, was, heap, Machine.held, Machine.held, Thread.places_run,
      Heap.places_of_waiting waiting left]
    abel
  | @drop executor rest left heap threads =>
    -- An executor drops tasks from outside; the only place of the fiber was in one of them.
    have was : (run n).heap.places id + _ = {place} := there
    have is : (run (n + 1)).heap.places id + _ = 0 := gone
    rw [threads] at is
    obtain ⟨inHeap, none⟩ := add_eq_zero.mp is
    rw [none, add_zero] at was
    obtain ⟨task, waits, own, rfl⟩ := exists_task was (heap ▸ inHeap)
    exact .dropped waits own left heap
  | @begin thread idle codes heap threads =>
    obtain ⟨others, was, is⟩ := threads.exists_places id
    refine absurd ?_ still
    rw [is, was, heap, Machine.held, Machine.held, Thread.places, Thread.places, idle,
      sum_places_of_programs]
    rfl
  | @spawn thread fresh codes control heap threads =>
    refine absurd ?_ still
    have none : thread.places id = 0 := by
      rw [Thread.places, fresh, control, sum_places_of_programs]
      rfl
    rw [places, places, heap, threads, List.map_append, List.sum_append, List.map_singleton,
      List.sum_singleton, none, add_zero]
  | @engage executor empty heap threads =>
    refine absurd ?_ still
    have none : executor.places id = 0 := by rw [Executor.places, empty]; rfl
    rw [places, places, threads, heap, Heap.places, Heap.places]
    simp only [tally_push, none, add_zero]
  | outside fibers executors suspensions threads =>
    refine absurd ?_ still
    rw [places, places, threads, Heap.places, Heap.places, fibers, executors, suspensions]

end World

end Fibers
