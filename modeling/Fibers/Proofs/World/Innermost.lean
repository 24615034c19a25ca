import Fibers.Proofs.Machine.Request
import Fibers.Proofs.World.Follow

/-!
# The innermost loop of a thread

A loop on top of a thread that is not panicking is what the thread advances next. Nothing else can
come between: it stays there until its thread takes a step.

## Main results

`World.Step.tops`: what one step of a machine may do to such a loop. `World.Raises.step`: a cause in
such a loop gets to the innermost handler. `World.tops_of_shows`: a fiber that is in the middle of
nothing, and not about to poll, is in such a loop.
-/

namespace Fibers

variable {σ : Type}

/-- A fiber that is still running ends with the exit that it is given. -/
theorem Machine.poll_completeFiber {heap : Heap σ} {id : FiberId} {fiber : FiberState σ}
    (present : heap.fiber? id = some fiber) (running : fiber.exit? = none) (thread : Thread σ)
    (exit : Exit Erased) : (completeFiber heap thread id exit).1.poll id = some exit := by
  obtain ⟨progress, flags, environments, executor, seed⟩ := fiber
  cases progress with
  | done => cases running
  | running observers =>
    refine Heap.poll_eq_some_iff.mpr ?_
    rw [completeFiber, present]
    simp only
    rw [Heap.fiber?] at present
    rw [Heap.fiber?, (Heap.tables_report _ _ _ _).1, Heap.fibers_updateFiber, if_pos rfl, present]
    exact ⟨_, rfl, rfl⟩

namespace World

variable {id : FiberId}

/-- The loop of a fiber is the next thing that some thread advances. -/
def Tops (world : World σ) (id : FiberId) (focus : Focus σ) (stack : List (Frame σ)) : Prop :=
  ∃ thread ∈ world.threads, thread.next? = some (.loop id focus stack)

/-- The loop of a fiber is its only place. -/
theorem places_of_loop {world : World σ} (owned : world.scene.Owned) {thread : Thread σ}
    (known : thread ∈ world.threads) {focus : Focus σ} {stack : List (Frame σ)}
    (mem : .loop id focus stack ∈ thread.control) : world.places id = {.active focus stack} := by
  have le := (Activation.places_le mem id).trans (world.places_le_of_mem known id)
  rw [Activation.places, if_pos rfl] at le
  refine (Multiset.eq_of_le_of_card_le le ?_).symm
  rw [Multiset.card_singleton]
  exact owned.single id

theorem Tops.places {world : World σ} (owned : world.scene.Owned) {focus : Focus σ}
    {stack : List (Frame σ)} (tops : world.Tops id focus stack) :
    world.places id = {.active focus stack} := by
  obtain ⟨thread, known, next⟩ := tops
  obtain ⟨_, rest, control⟩ := Thread.next?_eq_some_iff.mp next
  exact places_of_loop owned known (control ▸ List.mem_cons_self)

theorem Replaces.mem {world world' : World σ} {thread thread' other : Thread σ}
    (replaces : Replaces world world' thread thread') (known : other ∈ world.threads) :
    other = thread ∨ other ∈ world'.threads := by
  obtain ⟨before, after, was, is⟩ := replaces
  rw [was, List.mem_append, List.mem_cons] at known
  rw [is, List.mem_append, List.mem_cons]
  tauto

theorem Replaces.symm {world world' : World σ} {thread thread' : Thread σ}
    (replaces : Replaces world world' thread thread') : Replaces world' world thread' thread := by
  obtain ⟨before, after, was, is⟩ := replaces
  exact ⟨before, after, is, was⟩

theorem Replaces.mem_new {world world' : World σ} {thread thread' : Thread σ}
    (replaces : Replaces world world' thread thread') : thread' ∈ world'.threads := by
  obtain ⟨before, after, _, is⟩ := replaces
  simp [is]

/-- An innermost loop stays where it is until its own thread advances it. -/
theorem Step.tops {world world' : World σ} (step : world.Step world') {focus : Focus σ}
    {stack : List (Frame σ)} (tops : world.Tops id focus stack) :
    world'.Tops id focus stack ∨
      ∃ thread : Thread σ, thread.panicking = none ∧
        world'.heap = (Machine.stepLoop world.heap thread id stack focus).1 ∧
        (Machine.stepLoop world.heap thread id stack focus).2 ∈ world'.threads := by
  obtain ⟨thread, known, next⟩ := tops
  obtain ⟨calm, rest, control⟩ := Thread.next?_eq_some_iff.mp next
  have busy : thread.control ≠ [] := by simp [control]
  cases step with
  | act heap threads =>
    rcases threads.mem known with rfl | still
    · -- The loop is on top of the thread that steps.
      have stepped := Machine.step_of_next? world.heap calm control
      rw [stepped] at heap threads
      exact .inr ⟨{ thread with control := rest }, calm, heap, threads.mem_new⟩
    · exact .inl ⟨thread, still, next⟩
  | take idle calm waiting left heap threads =>
    rcases threads.mem known with rfl | still
    · exact absurd idle busy
    · exact .inl ⟨thread, still, next⟩
  | begin idle codes heap threads =>
    rcases threads.mem known with rfl | still
    · exact absurd idle busy
    · exact .inl ⟨thread, still, next⟩
  | spawn fresh codes control heap threads =>
    exact .inl ⟨thread, threads ▸ List.mem_append_left _ known, next⟩
  | drop left heap threads => exact .inl ⟨thread, threads ▸ known, next⟩
  | engage empty heap threads => exact .inl ⟨thread, threads ▸ known, next⟩
  | outside fibers executors suspensions threads =>
    exact .inl ⟨thread, threads ▸ known, next⟩

theorem Tops.shows {world : World σ} (owned : world.scene.Owned) {focus : Focus σ}
    {stack : List (Frame σ)} (tops : world.Tops id focus stack) :
    ∃ holding, world.scene.Shows id ⟨.active focus stack, holding, true⟩ := by
  have there := tops.places owned
  have somewhere : world.places id ≠ 0 := there ▸ Multiset.singleton_ne_zero _
  obtain ⟨knows, _⟩ := owned.there somewhere
  obtain ⟨fiber, present⟩ := knows.exists_fiber
  exact ⟨fiber.holding, knows, there, ⟨fiber, present, rfl⟩, nofun⟩

theorem tops_refocus {world : World σ} {thread : Thread σ} {focus : Focus σ}
    {stack : List (Frame σ)} (calm : thread.panicking = none)
    (known : Machine.refocus thread id focus stack ∈ world.threads) :
    world.Tops id focus stack :=
  ⟨_, known, Thread.next?_eq_some_iff.mpr ⟨calm, _, rfl⟩⟩

/-! ### Causes on their way -/

/-- The loop of a fiber is about to hand a cause to the innermost handler. -/
inductive Raises (world : World σ) (id : FiberId) (cause : Cause) (stack : List (Frame σ)) :
    Prop where
  | polling (tops : world.Tops id (.node (.failNow cause)) stack)
  | computing (tops : world.Tops id (.raising (.done cause)) stack)
  | raised (tops : world.Tops id (.cause cause) stack)

/-- The innermost handler has a cause, or the cause has ended its fiber. -/
def Receives (world : World σ) (id : FiberId) (cause : Cause) (stack : List (Frame σ)) : Prop :=
  (∃ handler rest, unwind stack = some (handler, rest) ∧
    world.Tops id (.building (handler.recover cause)) rest) ∨
  unwind stack = none ∧ world.heap.poll id = some (.failure cause)

/-- A cause stays on its way until the innermost handler has it, unless an interruption takes its
place. -/
theorem Raises.step {world world' : World σ} (owned : world.scene.Owned)
    (step : world.Step world') {cause : Cause} {stack : List (Frame σ)}
    (raises : world.Raises id cause stack) :
    world'.Raises id cause stack ∨ world'.Receives id cause stack ∨
      world.heap.shouldInterrupt id = true ∧
        ∃ thread : Thread σ, world'.heap =
          (Machine.beginInterruption world.heap thread id stack (.failNow cause)).1 := by
  cases raises with
  | polling tops =>
    rcases step.tops tops with still | ⟨thread, calm, heap, known⟩
    · exact .inl (.polling still)
    · cases due : world.heap.shouldInterrupt id with
      | true =>
        simp only [Machine.stepLoop, due, if_true] at heap
        exact .inr (.inr ⟨rfl, thread, heap⟩)
      | false =>
        simp only [Machine.stepLoop, due, Bool.false_eq_true, if_false] at known
        exact .inl (.computing (tops_refocus calm known))
  | computing tops =>
    rcases step.tops tops with still | ⟨thread, calm, heap, known⟩
    · exact .inl (.computing still)
    · exact .inl (.raised (tops_refocus calm known))
  | raised tops =>
    rcases step.tops tops with still | ⟨thread, calm, heap, known⟩
    · exact .inl (.raised still)
    · -- A fiber that stands in a loop has not ended, so it may end here.
      obtain ⟨_, _, there, ⟨fiber, present, _⟩, _⟩ := tops.shows owned
      have somewhere : world.scene.places id ≠ 0 := there ▸ Multiset.singleton_ne_zero _
      have running : fiber.exit? = none :=
        (Heap.poll_of_fiber? present).symm.trans (owned.there somewhere).2
      simp only [Machine.stepLoop, Machine.fail] at heap known
      refine .inr (.inl ?_)
      cases found : unwind stack with
      | some handled =>
        obtain ⟨handler, rest⟩ := handled
        rw [found] at known
        exact .inl ⟨handler, rest, found, tops_refocus calm known⟩
      | none =>
        rw [found] at heap
        refine .inr ⟨found, ?_⟩
        rw [heap]
        exact Machine.poll_completeFiber present running thread _

/-! ### Fibers in view -/

theorem not_mem_places_of_batch {batch : Batch σ} {focus : Focus σ} {stack : List (Frame σ)}
    (busy : ∀ current, focus ≠ .node current) : .active focus stack ∉ batch.places id := by
  intro mem
  rw [Batch.places] at mem
  split at mem
  · cases Multiset.mem_singleton.mp mem
    exact busy _ rfl
  · simp at mem

theorem not_mem_queuedPlaces {queue : Option (Queue (Batch σ))} {focus : Focus σ}
    {stack : List (Frame σ)} (busy : ∀ current, focus ≠ .node current) :
    .active focus stack ∉ queuedPlaces id queue := by
  intro mem
  obtain ⟨batch, _, mem⟩ := exists_mem_of_mem_sum mem
  exact not_mem_places_of_batch busy mem

theorem not_mem_places_of_heap {heap : Heap σ} {focus : Focus σ} {stack : List (Frame σ)}
    (busy : ∀ current, focus ≠ .node current) : .active focus stack ∉ heap.places id := by
  intro mem
  rw [Heap.places, Multiset.mem_add, Multiset.mem_add] at mem
  rcases mem with (seed | task) | suspension
  · obtain ⟨index, fiber, _, mem⟩ := exists_mem_of_mem_tally seed
    rw [FiberState.places] at mem
    split at mem
    · split at mem
      · cases Multiset.mem_singleton.mp mem
        exact busy _ rfl
      · simp at mem
    · simp at mem
  · obtain ⟨_, executor, _, mem⟩ := exists_mem_of_mem_tally task
    obtain ⟨task, _, mem⟩ := exists_mem_of_mem_sum mem
    exact not_mem_places_of_batch busy mem
  · obtain ⟨index, suspension, _, mem⟩ := exists_mem_of_mem_tally suspension
    rw [Suspension.places] at mem
    split at mem
    · split at mem
      · cases Multiset.mem_singleton.mp mem
      · simp at mem
    · simp at mem

/-- Whatever is not about to be polled for is in a loop on some thread. -/
theorem exists_loop {world : World σ} {focus : Focus σ} {stack : List (Frame σ)}
    (busy : ∀ current, focus ≠ .node current) (mem : .active focus stack ∈ world.places id) :
    ∃ thread ∈ world.threads, .loop id focus stack ∈ thread.control := by
  rw [places, Multiset.mem_add] at mem
  obtain ⟨thread, known, mem⟩ := exists_mem_of_mem_sum
    (mem.resolve_left (not_mem_places_of_heap busy))
  rw [Thread.places, Multiset.mem_add] at mem
  obtain ⟨activation, inside, mem⟩ := exists_mem_of_mem_sum
    (mem.resolve_left (not_mem_queuedPlaces busy))
  refine ⟨thread, known, ?_⟩
  cases activation with
  | loop fiber focus' stack' =>
    rw [Activation.places] at mem
    split at mem
    next own =>
      cases Multiset.mem_singleton.mp mem
      exact own ▸ inside
    next => simp at mem
  | draining outer => exact absurd mem (not_mem_queuedPlaces busy)
  | _ => simp [Activation.places] at mem

/-- A fiber that is in the middle of nothing, and not about to poll, is what its thread does next.
-/
theorem tops_of_shows {world : World σ} {focus : Focus σ} {stack : List (Frame σ)}
    {holding : Holding} (busy : ∀ current, focus ≠ .node current)
    (shows' : world.scene.Shows id ⟨.active focus stack, holding, false⟩) :
    world.Tops id focus stack := by
  have mem : Place.active focus stack ∈ world.places id := by
    rw [show world.places id = _ from shows'.place]
    exact Multiset.mem_singleton_self _
  obtain ⟨thread, known, inside⟩ := exists_loop busy mem
  have bare : Activation.loop id focus stack ∉ thread.covered := fun covered =>
    shows'.calling rfl _ ⟨thread, known, covered⟩ rfl
  refine ⟨thread, known, Thread.next?_eq_some_iff.mpr ?_⟩
  cases panicking : thread.panicking with
  | some payload =>
    rw [Thread.covered, panicking] at bare
    exact absurd inside bare
  | none =>
    rw [Thread.covered_of_calm panicking] at bare
    cases control : thread.control with
    | nil =>
      rw [control] at inside
      cases inside
    | cons first rest =>
      rw [control] at inside bare
      rcases List.mem_cons.mp inside with rfl | mem
      · exact ⟨rfl, rest, rfl⟩
      · exact absurd mem bare

end World

end Fibers
